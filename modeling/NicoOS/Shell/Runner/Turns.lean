import NicoOS.Shell.Runner.Effects

/-!
# One call

A call of the shell's code takes its process from one point to another.
-/

namespace NicoOS
namespace Shell
namespace Runner

open Lib

/-- A process of a table that has the invariant. -/
structure At (junk : Int) (given : Table) (s : State) (job : Nat -> Goal) (cost : Nat -> Nat)
    (p : Nat) (proc : Proc) (kids : List Nat) : Prop where
  inv : Inv junk given s job cost
  live : s.procs p = some proc
  kids : forall q, s.IsKid p q <-> q ∈ kids

section Calls

variable {junk : Int} {given fds fds' : Table} {s s' : State} {job : Nat -> Goal}
  {cost : Nat -> Nat} {p w t : Nat} {proc : Proc} {kids : List Nat} {refused : Bool}
  {cmd left right : Cmd} {ops : List Plumb} {status : Int}

theorem step_turn {o : Op} {next : o.Answer -> Code Empty} (hp : s.procs p = some proc)
    (hbody : proc.body = Body.shell (Program.ask o next)) (refused : Bool) :
    step s (Action.turn p refused) = ask s p proc refused o next := by
  rcases proc with ⟨parent, fds, body⟩
  cases hbody
  simp only [step, hp]

theorem started_note {log : List Event} {e : Event}
    (h : forall p path argv fds, Event.started p path argv fds ∈ log -> Plumbed given fds)
    (he : forall p path argv fds, e = Event.started p path argv fds -> Plumbed given fds) :
    forall p path argv fds, Event.started p path argv fds ∈ log ++ [e] -> Plumbed given fds := by
  intro p path argv fds hmem
  rcases List.mem_append.mp hmem with hold | hnew
  · exact h p path argv fds hold
  · exact he p path argv fds (List.mem_singleton.mp hnew).symm

theorem At.below (h : At junk given s job cost p proc kids) : Below s.pipes proc.fds :=
  h.inv.tables p proc h.live

theorem At.goes (h : At junk given s job cost p proc kids) {code : Code Empty}
    (hbelow : Below s.pipes fds)
    (hpoint : Point junk given s.log job p kids fds (Body.shell code) w) (hw : w < cost p) :
    Advances junk given s job cost (s.goOn p proc fds code) :=
  h.inv.moved h.live h.kids (List.prefix_refl s.log) (Nat.le_refl s.pipes) hbelow h.inv.started
    hpoint hw

theorem At.denied (h : At junk given s job cost p proc kids) {code : Code Empty} {o : Op}
    (hpoint : Point junk given (s.log ++ [Event.refused p o]) job p kids proc.fds
      (Body.shell code) w) (hw : w < cost p) :
    Advances junk given s job cost
      ((s.goOn p proc proc.fds code).note (Event.refused p o)) :=
  h.inv.moved h.live h.kids (List.prefix_append _ _) (Nat.le_refl s.pipes) h.below
    (started_note h.inv.started nofun) hpoint hw

theorem At.enters (h : At junk given s job cost p proc kids) {code : Code Empty} {path : Text}
    (hpoint : Point junk given (s.log ++ [Event.entered p path]) job p kids proc.fds
      (Body.shell code) w) (hw : w < cost p) :
    Advances junk given s job cost ((s.goOn p proc proc.fds code).note (Event.entered p path)) :=
  h.inv.moved h.live h.kids (List.prefix_append _ _) (Nat.le_refl s.pipes) h.below
    (started_note h.inv.started nofun) hpoint hw

theorem At.starts (h : At junk given s job cost p proc kids) {path : Text} {argv : List Text}
    (hplumbed : Plumbed given proc.fds)
    (hpoint : Point junk given (s.log ++ [Event.started p path argv proc.fds]) job p kids proc.fds
      (Body.program argv) w) (hw : w < cost p) :
    Advances junk given s job cost
      ((s.setProc p { proc with body := Body.program argv }).note
        (Event.started p path argv proc.fds)) := by
  apply h.inv.moved h.live h.kids (List.prefix_append _ _) (Nat.le_refl s.pipes) h.below
    (started_note h.inv.started ?_) hpoint hw
  intro q path' argv' fds' heq
  cases heq
  exact hplumbed

theorem At.exits (h : At junk given s job cost p proc kids)
    (hbody : proc.body = Body.shell (exit status))
    (hdone : Done s.log p (job p) s.log.length status) (hw : 1 < cost p)
    (hstep : step s (Action.turn p refused) = some s') :
    Advances junk given s job cost s' := by
  rw [step_turn h.live hbody] at hstep
  cases hstep
  exact h.inv.exited h.live (List.prefix_refl s.log) h.inv.started
    (Point.zombie (Nat.le_refl _) hdone) hw

theorem At.forks (h : At junk given s job cost p proc kids) {parent failed : Code Empty}
    (hbody : proc.body =
      Body.shell (askFork (plumb ops (shExeccmd junk cmd)) parent failed))
    (hplumbed : Plumbed given fds) (hsane : Sane cmd)
    (hops : ops.foldl Plumb.apply proc.fds = fds)
    (hok : forall job', job' p = job p -> (forall q, q ∈ kids -> job' q = job q) ->
      job' s.next = Goal.command ⟨cmd, fds, (s.log ++ [Event.forked p s.next]).length⟩ ->
      exists kids' w, (forall q, q ∈ kids' <-> q ∈ kids ∨ q = s.next) ∧
        w + (work cmd + ops.length) < cost p ∧
        Point junk given (s.log ++ [Event.forked p s.next]) job' p kids' proc.fds
          (Body.shell parent) w)
    (hno : exists w, w < cost p ∧
      Point junk given (s.log ++ [Event.refused p Op.fork]) job p kids proc.fds
        (Body.shell failed) w)
    (hstep : step s (Action.turn p refused) = some s') :
    Advances junk given s job cost s' := by
  rw [step_turn h.live hbody] at hstep
  cases refused with
  | true =>
      rcases hno with ⟨w, hw, hpoint⟩
      cases hstep
      exact h.denied hpoint hw
  | false =>
      have hpos : 0 < s.next := Nat.zero_lt_of_lt h.inv.begun
      have hpne : p ≠ s.next := Nat.ne_of_lt (h.inv.order p proc h.live).right
      have hkids : forall q, q ∈ kids -> q ≠ s.next :=
        fun q hq => Nat.ne_of_lt (h.inv.kid_lt ((h.kids q).mpr hq)).right
      let jq : Job := ⟨cmd, fds, (s.log ++ [Event.forked p s.next]).length⟩
      rcases hok (Function.update job s.next (Goal.command jq)) (Function.update_of_ne hpne _ _)
        (fun q hq => Function.update_of_ne (hkids q hq) _ _) (Function.update_self _ _ _)
        with ⟨kids', w, hmem, hw, hpoint⟩
      have hchild : Point junk given (s.log ++ [Event.forked p s.next])
          (Function.update job s.next (Goal.command jq)) s.next [] proc.fds
          (Body.shell (plumb ops (shExeccmd junk cmd))) (work cmd + ops.length) := by
        refine Point.enter (j := jq) ?_ ⟨Nat.le_refl _, hplumbed, hsane⟩ hops
        rw [Function.update_self]
        exact Owes.refl _ _ _
      have hparent : (if (s.next : Int) = 0 then plumb ops (shExeccmd junk cmd)
          else if 0 < (s.next : Int) then parent else failed) = parent := by
        rw [if_neg (by lia), if_pos (by lia)]
      rw [← hparent] at hpoint
      cases hstep
      exact h.inv.forked h.live h.kids hmem hpoint hchild hw

/-- `fork`, where the child begins with the descriptors of its parent. -/
theorem At.forksNow (h : At junk given s job cost p proc kids) {parent failed : Code Empty}
    (hbody : proc.body = Body.shell (askFork (shExeccmd junk cmd) parent failed))
    (hplumbed : Plumbed given proc.fds) (hsane : Sane cmd)
    (hok : forall job', job' p = job p -> (forall q, q ∈ kids -> job' q = job q) ->
      job' s.next = Goal.command ⟨cmd, proc.fds, (s.log ++ [Event.forked p s.next]).length⟩ ->
      exists kids' w, (forall q, q ∈ kids' <-> q ∈ kids ∨ q = s.next) ∧
        w + work cmd < cost p ∧
        Point junk given (s.log ++ [Event.forked p s.next]) job' p kids' proc.fds
          (Body.shell parent) w)
    (hno : exists w, w < cost p ∧
      Point junk given (s.log ++ [Event.refused p Op.fork]) job p kids proc.fds
        (Body.shell failed) w)
    (hstep : step s (Action.turn p refused) = some s') :
    Advances junk given s job cost s' := by
  have hbody' : proc.body =
      Body.shell (askFork (plumb [] (shExeccmd junk cmd)) parent failed) := hbody
  exact h.forks hbody' hplumbed hsane rfl hok hno hstep

theorem Point.begins {log : List Event} {j : Job} (howes : Owes log p j (job p))
    (hfit : Fit given log j) :
    Point junk given log job p [] j.fds (Body.shell (shExeccmd junk j.cmd)) (work j.cmd) := by
  have hpoint : Point junk given log job p [] j.fds
      (Body.shell (plumb [] (shExeccmd junk j.cmd))) (work j.cmd + [].length) :=
    Point.enter howes hfit rfl
  exact hpoint

theorem Side.begun {log : List Event} {q since : Nat} {job : Nat -> Goal} {default : Int}
    (hsince : since ≤ log.length)
    (hjob : job q = Goal.command ⟨cmd, fds, (log ++ [Event.forked p q]).length⟩) :
    Side (log ++ [Event.forked p q]) job p ⟨cmd, fds, since⟩ default [q] :=
  Side.pending (within_note hsince _) (Nat.le_refl _) hjob

theorem Forked.no {log : List Event} {since : Nat} {default : Int} (hsince : since ≤ log.length) :
    Forked (log ++ [Event.refused p Op.fork]) p ⟨cmd, fds, since⟩
      (log ++ [Event.refused p Op.fork]).length default default :=
  Forked.refused (within_note hsince _)

end Calls

end Runner
end Shell
end NicoOS
