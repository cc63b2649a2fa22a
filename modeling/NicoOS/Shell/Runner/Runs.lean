import NicoOS.Shell.Runner.Steps

/-!
# Runs

The invariant is kept by every action, and so by every run.
-/

namespace NicoOS
namespace Shell
namespace Runner

open Lib

section Waits

variable {junk : Int} {given fds : Table} {s s' : State} {job : Nat -> Goal}
  {cost : Nat -> Nat} {p c k n t w : Nat} {proc : Proc} {kids lefts rights : List Nat}
  {refused : Bool} {left right : Cmd} {ops : List Plumb} {status : Int} {log : List Event}

theorem At.alone (h : At junk given s job cost p proc kids) (hno : s.hasChild p = false) :
    kids = [] := by
  cases kids with
  | nil => rfl
  | cons q rest =>
      have hyes := (hasChild_iff h.inv).mpr ⟨q, (h.kids q).mpr List.mem_cons_self⟩
      rw [hno] at hyes
      cases hyes

/-- `wait` with a child leaves the process where it is. -/
theorem At.turn_wait (h : At junk given s job cost p proc (c :: kids))
    {next : Option Int -> Code Empty}
    (hbody : proc.body = Body.shell (Program.ask Op.wait next))
    (hstep : step s (Action.turn p refused) = some s') : False := by
  have hyes := (hasChild_iff h.inv).mpr ⟨c, (h.kids c).mpr List.mem_cons_self⟩
  rw [step_turn h.live hbody] at hstep
  dsimp only [ask] at hstep
  rw [if_pos hyes] at hstep
  cases hstep

theorem At.turn_plumb (h : At junk given s job cost p proc kids) {op : Plumb}
    {code : Code Empty} (hbody : proc.body = Body.shell (plumb (op :: ops) code))
    (hpoint : Point junk given s.log job p kids (op.apply proc.fds)
      (Body.shell (plumb ops code)) w) (hw : w < cost p)
    (hstep : step s (Action.turn p refused) = some s') : Advances junk given s job cost s' := by
  cases op with
  | close fd =>
      rw [step_turn h.live hbody] at hstep
      cases hstep
      exact h.goes (h.below.closed fd) hpoint hw
  | dup fd =>
      rw [step_turn h.live hbody] at hstep
      cases hstep
      exact h.goes (h.below.dup fd) hpoint hw

theorem Side.done {j : Job} {default : Int} (h : Side log job p j default []) :
    exists t status, t ≤ log.length ∧ Forked log p j t default status := by
  cases h with
  | settled ht hdone => exact ⟨_, _, ht, hdone⟩

theorem At.turn_waits (h : At junk given s job cost p proc (lefts ++ rights))
    (hbody : proc.body = Body.shell (plumb ops (waits n)))
    (howes : Owes s.log p ⟨Cmd.pipe left right, fds, t⟩ (job p)) (hfresh : Fresh fds k)
    (hleft : Side s.log job p
      ⟨left, Function.update fds 1 (some (Stream.writeEnd k)), t⟩ 0 lefts)
    (hright : Side s.log job p
      ⟨right, Function.update fds 0 (some (Stream.readEnd k)), t⟩ 0 rights)
    (hlen : lefts.length + rights.length ≤ n) (hw : cost p = n + ops.length + 2)
    (hstep : step s (Action.turn p refused) = some s') : Advances junk given s job cost s' := by
  cases ops with
  | cons op rest =>
      rw [List.length_cons] at hw
      exact h.turn_plumb hbody (Point.waits howes hfresh hleft hright hlen) (by lia) hstep
  | nil =>
      cases n with
      | zero =>
          cases List.length_eq_zero_iff.mp (Nat.eq_zero_of_add_eq_zero_right (Nat.le_zero.mp hlen))
          cases List.length_eq_zero_iff.mp (Nat.eq_zero_of_add_eq_zero_left (Nat.le_zero.mp hlen))
          rcases hleft.done with ⟨t1, first, ht1, hfirst⟩
          rcases hright.done with ⟨t2, second, ht2, hsecond⟩
          exact h.exits hbody (howes s.log (List.prefix_refl _) _ _
            (Means.pipe hfresh hfirst hsecond ⟨ht1, ht2⟩)) (by lia) hstep
      | succ n =>
          have hbody' : proc.body = Body.shell (Program.ask Op.wait (fun _ => waits n)) := hbody
          rw [step_turn h.live hbody'] at hstep
          dsimp only [ask] at hstep
          cases hno : s.hasChild p with
          | true =>
              rw [if_pos hno] at hstep
              cases hstep
          | false =>
              rw [if_neg (hno ▸ Bool.false_ne_true)] at hstep
              have hnone := List.append_eq_nil_iff.mp (h.alone hno)
              cases hnone.left
              cases hnone.right
              have hpoint : Point junk given s.log job p ([] ++ []) proc.fds
                  (Body.shell (plumb [] (waits n))) (n + [].length + 2) :=
                Point.waits howes hfresh hleft hright (Nat.zero_le n)
              cases hstep
              exact h.goes h.below hpoint (by lia)

end Waits

section Steps

variable {junk : Int} {given fds : Table} {s s' : State} {job : Nat -> Goal}
  {cost : Nat -> Nat} {p c w t : Nat} {proc : Proc} {kids : List Nat} {refused : Bool}
  {ops : List Plumb} {status : Int} {j : Job} {log : List Event}

theorem At.turn_enter (h : At junk given s job cost p proc [])
    (hbody : proc.body = Body.shell (plumb ops (shExeccmd junk j.cmd)))
    (howes : Owes s.log p j (job p)) (hfit : Fit given s.log j)
    (hops : ops.foldl Plumb.apply proc.fds = j.fds) (hw : cost p = work j.cmd + ops.length)
    (hstep : step s (Action.turn p refused) = some s') : Advances junk given s job cost s' := by
  cases ops with
  | cons op rest =>
      rw [List.length_cons] at hw
      exact h.turn_plumb hbody (Point.enter howes hfit hops) (by lia) hstep
  | nil =>
      rcases j with ⟨cmd, fds, since⟩
      have hfds : proc.fds = fds := hops
      cases hfds
      cases cmd with
      | exec argv => exact h.turn_exec hbody howes hfit rfl hw hstep
      | redir cmd fd mode file =>
          have hbody' : proc.body = Body.shell (plumb [Plumb.close fd]
              (opening junk cmd mode file)) := by
            rw [hbody]
            exact congrArg Body.shell (shExeccmd_redir cmd fd mode file)
          have hcost : work cmd + 1 < cost p := by
            rw [hw]
            exact Nat.lt_succ_self _
          exact h.turn_plumb hbody' (Point.opening howes hfit) hcost hstep
      | list left right => exact h.turn_list hbody howes hfit hw hstep
      | back cmd => exact h.turn_back hbody howes hfit hw hstep
      | pipe left right => exact h.turn_pipe hbody howes hfit hw hstep
      | binary left right operator => exact h.turn_binary hbody howes hfit hw hstep

theorem Inv.turn (h : Inv junk given s job cost)
    (hstep : step s (Action.turn p refused) = some s') : Advances junk given s job cost s' := by
  cases hp : s.procs p with
  | none =>
      simp only [step, hp] at hstep
      cases hstep
  | some proc =>
      rcases h.point p proc hp with ⟨kids, hpoint, hkids⟩
      have hat : At junk given s job cost p proc kids := ⟨h, hp, hkids⟩
      rcases proc with ⟨parent, fds, body⟩
      dsimp only at hpoint
      generalize hw : cost p = w at hpoint
      cases hpoint with
      | enter howes hfit hops => exact hat.turn_enter rfl howes hfit hops hw hstep
      | second howes hplumbed hshort hno =>
          exact hat.turn_second rfl howes hplumbed hshort hno hw hstep
      | running hend =>
          simp only [step, hp] at hstep
          cases hstep
      | opening howes hfit => exact hat.turn_opening rfl rfl howes hfit hw hstep
      | console hdone => exact hat.turn_console rfl hdone hw hstep
      | leaving hdone => exact hat.exits rfl hdone (by lia) hstep
      | zombie ht hdone =>
          simp only [step, hp] at hstep
          cases hstep
      | listWait howes hside hplumbed hsane => exact absurd hstep (fun hs => hat.turn_wait rfl hs)
      | binaryWait howes hside hplumbed hsane =>
          exact absurd hstep (fun hs => hat.turn_wait rfl hs)
      | rightFork hpays hfit => exact hat.turn_rightFork rfl hpays hfit hw hstep
      | rightWait hpays hside => exact absurd hstep (fun hs => hat.turn_wait rfl hs)
      | leftSide howes hfit hfresh hpiped =>
          exact hat.turn_leftSide rfl howes hfit hfresh hpiped hw hstep
      | rightSide howes hfit hfresh hpiped hleft =>
          exact hat.turn_rightSide rfl howes hfit hfresh hpiped hleft hw hstep
      | waits howes hfresh hleft hright hlen =>
          exact hat.turn_waits rfl howes hfresh hleft hright hlen hw hstep
      | prompt hserves ht hplumbed hsane =>
          exact hat.turn_prompt rfl hserves ht hplumbed hsane hw hstep
      | promptWait hserves hcmd hside hplumbed hsane =>
          exact absurd hstep (fun hs => hat.turn_wait rfl hs)

/-!
# A child that has ended
-/

theorem collect_cases (hstep : collect s p c = some s') :
    exists proc child next status, s.procs p = some proc ∧
      proc.body = Body.shell (Program.ask Op.wait next) ∧ s.procs c = some child ∧
      child.parent = p ∧ child.body = Body.zombie status ∧
      s' = { s with
        procs := Function.update (Function.update s.procs c none) p
          (some { proc with body := Body.shell (next (some status : Option Int)) }) } := by
  unfold collect at hstep
  split at hstep
  · rename_i parent fds next q fds' status hp hc
    split at hstep
    · rename_i hq
      cases hstep
      exact ⟨_, _, next, status, hp, rfl, hc, hq, rfl, rfl⟩
    · cases hstep
  · cases hstep

theorem Side.collect {default : Int} {q : Nat} (h : Side log job p j default kids)
    (hq : q ∈ kids) (ht : t ≤ log.length) (hdone : Done log q (job q) t status) :
    kids = [q] ∧ Forked log p j log.length default status := by
  cases h with
  | pending hfork hm hjob =>
      cases List.mem_singleton.mp hq
      rw [hjob] at hdone
      exact ⟨rfl, Forked.child hfork hdone ht⟩
  | settled _ _ => cases hq

theorem Side.without {default : Int} (h : Side log job p j default kids) (ht : t ≤ log.length)
    (hdone : Done log c (job c) t status) :
    exists kids', Side log job p j default kids' ∧ kids'.length ≤ kids.length ∧
      (c ∈ kids -> kids'.length < kids.length) ∧ forall q, q ∈ kids' <-> q ∈ kids ∧ q ≠ c := by
  cases Classical.em (c ∈ kids) with
  | inl hc =>
      rcases h.collect hc ht hdone with ⟨heq, hforked⟩
      refine ⟨[], Side.settled (Nat.le_refl _) hforked, Nat.zero_le _, ?_, ?_⟩
      · intro _
        rw [heq]
        exact Nat.zero_lt_one
      · intro q
        rw [heq]
        simp
  | inr hc =>
      refine ⟨kids, h, Nat.le_refl _, fun hmem => absurd hmem hc, ?_⟩
      intro q
      constructor
      · exact fun hq => ⟨hq, fun heq => hc (heq ▸ hq)⟩
      · exact And.left

/-- Where a process waits, the end of a child takes it on. -/
theorem Point.collect {next : Option Int -> Code Empty}
    (h : Point junk given log job p kids fds (Body.shell (Program.ask Op.wait next)) w)
    (hc : c ∈ kids) (ht : t ≤ log.length) (hdone : Done log c (job c) t status) :
    exists kids' w', w' ≤ w ∧ (forall q, q ∈ kids' <-> q ∈ kids ∧ q ≠ c) ∧
      Point junk given log job p kids' fds (Body.shell (next (some status))) w' := by
  have hnone : forall q, q ∈ ([] : List Nat) <-> q ∈ [c] ∧ q ≠ c := by simp
  generalize hbody : Body.shell (Program.ask Op.wait next) = body at h
  cases h with
  | enter howes hfit hops => cases hc
  | second howes hplumbed hshort hno => cases hc
  | running hend => cases hc
  | opening howes hfit => cases hc
  | console hdone => cases hc
  | leaving hdone => cases hbody
  | zombie ht hdone => cases hbody
  | listWait howes hside hplumbed hsane =>
      cases hbody
      cases List.mem_singleton.mp hc
      refine ⟨[], _, Nat.le_refl _, hnone, ?_⟩
      refine Point.begins (j := ⟨_, _, log.length⟩) ?_ ⟨Nat.le_refl _, hplumbed, hsane⟩
      intro log' hlog t' status' hmeans
      exact howes log' hlog t' status' (Means.list
        (Forked.mono hlog (hside.collect hc ht hdone).right) hmeans (Nat.le_refl t'))
  | binaryWait howes hside hplumbed hsane =>
      cases hbody
      cases List.mem_singleton.mp hc
      rcases runRight_point junk howes (hside.collect hc ht hdone).right (Nat.le_refl _) hplumbed
        hsane with ⟨w', hle, hpoint⟩
      exact ⟨[], w', hle, hnone, hpoint⟩
  | rightFork hpays hfit => cases hc
  | rightWait hpays hside =>
      cases hbody
      cases List.mem_singleton.mp hc
      exact ⟨[], 2, Nat.le_succ 2, hnone, Point.leaving (hpays log (List.prefix_refl _) _ _
        (hside.collect hc ht hdone).right)⟩
  | leftSide howes hfit hfresh hpiped => cases hc
  | rightSide howes hfit hfresh hpiped hleft => cases hbody
  | @waits lefts rights left right fds' t' k ops n fds'' howes hfresh hleft hright hlen =>
      cases ops with
      | cons op rest =>
          cases op with
          | close fd => cases hbody
          | dup fd => cases hbody
      | nil =>
          cases n with
          | zero => cases hbody
          | succ n =>
              cases hbody
              rcases hleft.without ht hdone with ⟨lefts', hleft', hlle, hllt, hlmem⟩
              rcases hright.without ht hdone with ⟨rights', hright', hrle, hrlt, hrmem⟩
              have hlen' : lefts'.length + rights'.length ≤ n := by
                rcases List.mem_append.mp hc with hmem | hmem
                · have hlt := hllt hmem
                  lia
                · have hlt := hrlt hmem
                  lia
              have hpoint : Point junk given log job p (lefts' ++ rights') fds
                  (Body.shell (plumb [] (Runner.waits n))) (n + [].length + 2) :=
                Point.waits howes hfresh hleft' hright' hlen'
              refine ⟨lefts' ++ rights', _, Nat.le_of_lt ?_, ?_, hpoint⟩
              · exact Nat.add_lt_add_right (Nat.lt_succ_self n) 2
              · intro q
                rw [List.mem_append, List.mem_append, hlmem, hrmem]
                exact or_and_right.symm
  | prompt hserves ht hplumbed hsane => cases hc
  | promptWait hserves hcmd hside hplumbed hsane =>
      cases hbody
      cases List.mem_singleton.mp hc
      refine ⟨[], _, Nat.le_refl _, hnone, ?_⟩
      refine Point.behind hserves (List.prefix_refl log) ?_ hplumbed hsane
      intro later hlater u hscript
      exact Script.command hcmd (Forked.mono hlater (hside.collect hc ht hdone).right) hscript

theorem Inv.zombie (h : Inv junk given s job cost) (hp : s.procs p = some proc)
    (hbody : proc.body = Body.zombie status) :
    cost p = 1 ∧ (forall q, Not (s.IsKid p q)) ∧
      exists t, t ≤ s.log.length ∧ Done s.log p (job p) t status := by
  rcases proc with ⟨parent, fds, body⟩
  cases hbody
  rcases h.point p _ hp with ⟨kids, hpoint, hkids⟩
  dsimp only at hpoint
  generalize hw : cost p = w at hpoint
  cases hpoint with
  | zombie ht hdone =>
      refine ⟨rfl, ?_, _, ht, hdone⟩
      intro q hq
      cases (hkids q).mp hq

theorem Inv.collect (h : Inv junk given s job cost)
    (hstep : step s (Action.collect p c) = some s') : Advances junk given s job cost s' := by
  have hcollect : Runner.collect s p c = some s' := hstep
  rcases collect_cases hcollect with
    ⟨proc, child, next, status, hp, hbody, hc, hparent, hzombie, heq⟩
  rcases h.point p proc hp with ⟨kids, hpoint, hkids⟩
  rcases h.zombie hc hzombie with ⟨hcost, hleaf, t, ht, hdone⟩
  have hkid : s.IsKid p c := ⟨child, hc, hparent⟩
  rw [hbody] at hpoint
  rcases hpoint.collect ((hkids c).mp hkid) ht hdone with ⟨kids', w', hle, hmem, hpoint'⟩
  have hpos : 0 < cost c := by
    rw [hcost]
    exact Nat.zero_lt_one
  rw [heq]
  exact h.collected hp hkids hkid hleaf hpos hmem hpoint' hle

theorem leave_cases (hstep : step s (Action.leave p status) = some s') :
    exists proc argv, s.procs p = some proc ∧ proc.body = Body.program argv ∧
      s' = (s.exit p status).note (Event.finished p status) := by
  dsimp only [step] at hstep
  split at hstep
  · rename_i parent fds argv hp
    cases hstep
    exact ⟨_, argv, hp, rfl, rfl⟩
  · cases hstep

theorem Inv.leave (h : Inv junk given s job cost)
    (hstep : step s (Action.leave p status) = some s') : Advances junk given s job cost s' := by
  rcases leave_cases hstep with ⟨proc, argv, hp, hbody, heq⟩
  rcases proc with ⟨parent, fds, body⟩
  cases hbody
  rcases h.point p _ hp with ⟨kids, hpoint, hkids⟩
  dsimp only at hpoint
  generalize hw : cost p = w at hpoint
  cases hpoint with
  | running hend =>
      have hprefix := List.prefix_append s.log [Event.finished p status]
      have hstarted := started_note (e := Event.finished p status) h.started (by
        intro _ _ _ _ hevent
        cases hevent)
      rw [heq]
      exact h.exited hp hprefix hstarted
        (Point.zombie (Nat.le_refl _) (hend _ hprefix _ _ (within_note (Nat.le_refl _) _)))
        (hw ▸ Nat.lt_succ_self 1)

theorem reap_cases (hstep : step s (Action.reap p) = some s') :
    exists proc status, s.procs p = some proc ∧ proc.parent = initPid ∧
      proc.body = Body.zombie status ∧
      s' = { s with procs := Function.update s.procs p none } := by
  dsimp only [step] at hstep
  split at hstep
  · rename_i parent fds status hp
    split at hstep
    · rename_i hparent
      cases hstep
      exact ⟨_, status, hp, hparent, rfl, rfl⟩
    · cases hstep
  · cases hstep

theorem Inv.reap (h : Inv junk given s job cost)
    (hstep : step s (Action.reap p) = some s') : Advances junk given s job cost s' := by
  rcases reap_cases hstep with ⟨proc, status, hp, hparent, hbody, heq⟩
  rcases h.zombie hp hbody with ⟨hcost, hleaf, t, ht, hdone⟩
  rw [heq]
  exact h.reaped hp hparent hleaf (hcost ▸ Nat.zero_lt_one) ⟨t, status, ht, hdone⟩

theorem Inv.act {a : Action} (h : Inv junk given s job cost) (hstep : step s a = some s') :
    Advances junk given s job cost s' := by
  cases a with
  | turn p refused => exact h.turn hstep
  | collect p c => exact h.collect hstep
  | leave p status => exact h.leave hstep
  | reap c => exact h.reap hstep

theorem Inv.run {actions : List Action} (h : Inv junk given s job cost)
    (hrun : runFrom step s actions = some s') :
    exists job' cost', Inv junk given s' job' cost' ∧
      s'.total cost' + actions.length ≤ s.total cost ∧ job' shellPid = job shellPid := by
  induction actions generalizing s job cost with
  | nil =>
      cases hrun
      exact ⟨job, cost, h, Nat.le_refl _, rfl⟩
  | cons a rest ih =>
      cases hstep : step s a with
      | none =>
          rw [runFrom, hstep] at hrun
          cases hrun
      | some r =>
          rw [runFrom_cons_of_step rest hstep] at hrun
          rcases h.act hstep with ⟨job1, cost1, hinv1, hlt, hjob1⟩
          rcases ih hinv1 hrun with ⟨job2, cost2, hinv2, hle, hjob2⟩
          refine ⟨job2, cost2, hinv2, ?_, hjob2.trans hjob1⟩
          rw [List.length_cons]
          lia

end Steps

end Runner
end Shell
end NicoOS
