import NicoOS.Shell.Runner.Turns

/-!
# The steps of a run

Each step keeps the invariant and takes one of the steps that were left.
-/

namespace NicoOS
namespace Shell
namespace Runner

open Lib

section Commands

variable {junk : Int} {given fds : Table} {s s' : State} {job : Nat -> Goal}
  {cost : Nat -> Nat} {p t k rd wr : Nat} {proc : Proc} {kids : List Nat} {refused : Bool}
  {cmd left right : Cmd} {status : Int} {argv : List Text} {operator : Token}

theorem Owes.note {log : List Event} {j : Job} {goal : Goal} (h : Owes log p j goal) {e : Event}
    {status : Int} (hmeans : Means (log ++ [e]) p j (log ++ [e]).length status) :
    Done (log ++ [e]) p goal (log ++ [e]).length status :=
  h _ (List.prefix_append _ _) _ _ hmeans

theorem At.turn_exec (h : At junk given s job cost p proc kids)
    (hbody : proc.body = Body.shell (shExeccmd junk (Cmd.exec argv)))
    (howes : Owes s.log p ⟨Cmd.exec argv, proc.fds, t⟩ (job p))
    (hfit : Fit given s.log ⟨Cmd.exec argv, proc.fds, t⟩) (hkids : kids = [])
    (hw : cost p = work (Cmd.exec argv)) (hstep : step s (Action.turn p refused) = some s') :
    Advances junk given s job cost s' := by
  have hcost : 3 < cost p := by
    rw [hw]
    exact Nat.lt_succ_self 3
  cases argv with
  | nil =>
      exact h.exits hbody (howes s.log (List.prefix_refl _) _ _ (Means.empty hfit.since))
        (by lia) hstep
  | cons name args =>
      cases Nat.lt_or_ge (cString name).length (128 - 5) with
      | inr hlong =>
          rw [shExeccmd_long hlong] at hbody
          exact h.exits hbody
            (howes s.log (List.prefix_refl _) _ _ (Means.long hlong hfit.since)) (by lia) hstep
      | inl hshort =>
          rw [shExeccmd_short hshort] at hbody
          rw [step_turn h.live hbody] at hstep
          cases hkids
          cases refused with
          | true =>
              cases hstep
              exact h.denied (Point.second (howes.mono (List.prefix_append _ _)) hfit.plumbed
                hshort (within_note hfit.since _)) hcost
          | false =>
              cases hstep
              refine h.starts hfit.plumbed (Point.running ?_) (Nat.lt_of_succ_lt hcost)
              intro log' hlog t' status hend
              exact howes log' ((List.prefix_append _ _).trans hlog) t' status
                (Means.ran hshort ((within_note hfit.since _).mono hlog) hend)

theorem At.turn_second (h : At junk given s job cost p proc []) {name : Text} {args : List Text}
    (hbody : proc.body = Body.shell (secondTry name args))
    (howes : Owes s.log p ⟨Cmd.exec (name :: args), proc.fds, t⟩ (job p))
    (hplumbed : Plumbed given proc.fds) (hshort : (cString name).length < 128 - 5)
    (hno : Within s.log t s.log.length
      (Event.refused p (Op.execv (cString name) (name :: args))))
    (hw : cost p = 3) (hstep : step s (Action.turn p refused) = some s') :
    Advances junk given s job cost s' := by
  rw [step_turn h.live hbody] at hstep
  cases refused with
  | true =>
      cases hstep
      refine h.denied (Point.leaving (howes.note ?_)) (by rw [hw]; exact Nat.lt_succ_self 2)
      exact Means.missing hshort (hno.mono (List.prefix_append _ _))
        (within_note (Nat.le_refl _) _)
  | false =>
      cases hstep
      refine h.starts hplumbed (Point.running ?_) (by rw [hw]; exact Nat.lt_succ_self 2)
      intro log' hlog t' status hend
      have hall := (List.prefix_append s.log _).trans hlog
      exact howes log' hall t' status (Means.ranBin hshort (hno.mono hall)
        ((within_note (Nat.le_refl _) _).mono hlog) hend)

/-- The descriptor that was closed is the one that `open` takes. -/
theorem At.turn_opening (h : At junk given s job cost p proc []) {fd mode : Nat} {file : Text}
    (hbody : proc.body = Body.shell (opening junk cmd mode file))
    (hfds : proc.fds = Function.update fds fd none)
    (howes : Owes s.log p ⟨Cmd.redir cmd fd mode file, fds, t⟩ (job p))
    (hfit : Fit given s.log ⟨Cmd.redir cmd fd mode file, fds, t⟩)
    (hw : cost p = work cmd + 1) (hstep : step s (Action.turn p refused) = some s') :
    Advances junk given s job cost s' := by
  have hfree : firstFree proc.fds = some fd := by
    rw [hfds]
    exact firstFree_closed hfit.plumbed.std hfit.sane.left
  have hwork := four_le_work cmd
  rw [step_turn h.live hbody] at hstep
  dsimp only [ask] at hstep
  cases refused with
  | true =>
      cases hstep
      exact h.denied (Point.console (howes.note (Means.noFile (within_note hfit.since _))))
        (by lia)
  | false =>
      rw [if_neg Bool.false_ne_true, hfree] at hstep
      have htable : Function.update proc.fds fd (some (Stream.file file mode)) =
          Function.update fds fd (some (Stream.file file mode)) := by
        rw [hfds]
        exact Function.update_idem (β := fun _ => Option Stream) _ _ fds
      have hbelow := h.below.file file mode fd
      cases hstep
      rw [htable] at hbelow ⊢
      apply h.goes hbelow (w := work cmd) ?_ (by lia)
      refine Point.begins (j := ⟨cmd, _, s.log.length⟩) ?_ ?_
      · intro log' hlog t' status hmeans
        exact howes log' hlog t' status (Means.redir hfit.since hmeans (Nat.le_refl t'))
      · exact ⟨Nat.le_refl _, hfit.plumbed.update hfit.sane.left nofun nofun, hfit.sane.right⟩

theorem At.turn_console (h : At junk given s job cost p proc [])
    (hbody : proc.body = Body.shell toConsole) (hdone : Done s.log p (job p) s.log.length 1)
    (hw : cost p = 3) (hstep : step s (Action.turn p refused) = some s') :
    Advances junk given s job cost s' := by
  have hlt : 2 < cost p := by
    rw [hw]
    exact Nat.lt_succ_self 2
  rw [step_turn h.live hbody] at hstep
  dsimp only [ask] at hstep
  split at hstep
  · cases hstep
    exact h.denied (Point.leaving (hdone.grow (List.prefix_append _ _))) hlt
  · rename_i fd _
    cases hstep
    exact h.goes (h.below.file consolePath oWronly fd) (Point.leaving hdone) hlt

theorem At.turn_list (h : At junk given s job cost p proc [])
    (hbody : proc.body = Body.shell (shExeccmd junk (Cmd.list left right)))
    (howes : Owes s.log p ⟨Cmd.list left right, proc.fds, t⟩ (job p))
    (hfit : Fit given s.log ⟨Cmd.list left right, proc.fds, t⟩)
    (hw : cost p = work left + work right + 1)
    (hstep : step s (Action.turn p refused) = some s') :
    Advances junk given s job cost s' := by
  rw [list_fork] at hbody
  refine h.forksNow hbody hfit.plumbed hfit.sane.left ?_ ?_ hstep
  · intro job' hp _ hjob
    refine ⟨[s.next], work right, by simp, by lia, ?_⟩
    exact Point.listWait (hp ▸ howes.mono (List.prefix_append _ _))
        (Side.begun hfit.since hjob) hfit.plumbed hfit.sane.right
  · refine ⟨work right, by lia, ?_⟩
    refine Point.begins (j := ⟨right, proc.fds, _⟩) ?_
      ⟨Nat.le_refl _, hfit.plumbed, hfit.sane.right⟩
    intro log' hlog t' status hmeans
    have hno : Forked _ p ⟨left, proc.fds, t⟩ _ 0 0 := Forked.no hfit.since
    exact howes log' ((List.prefix_append _ _).trans hlog) t' status
      (Means.list (Forked.mono hlog hno) hmeans (Nat.le_refl t'))

theorem At.turn_back (h : At junk given s job cost p proc [])
    (hbody : proc.body = Body.shell (shExeccmd junk (Cmd.back cmd)))
    (howes : Owes s.log p ⟨Cmd.back cmd, proc.fds, t⟩ (job p))
    (hfit : Fit given s.log ⟨Cmd.back cmd, proc.fds, t⟩) (hw : cost p = work cmd + 3)
    (hstep : step s (Action.turn p refused) = some s') :
    Advances junk given s job cost s' := by
  rw [back_fork] at hbody
  refine h.forksNow hbody hfit.plumbed hfit.sane ?_ ?_ hstep
  · intro job' hp _ _
    refine ⟨[s.next], 2, by simp, by lia, ?_⟩
    exact Point.leaving (hp ▸ howes.note (Means.back (within_note hfit.since _)))
  · exact ⟨2, by lia, Point.leaving (howes.note (Means.noBack (within_note hfit.since _)))⟩

theorem At.turn_pipe (h : At junk given s job cost p proc [])
    (hbody : proc.body = Body.shell (shExeccmd junk (Cmd.pipe left right)))
    (howes : Owes s.log p ⟨Cmd.pipe left right, proc.fds, t⟩ (job p))
    (hfit : Fit given s.log ⟨Cmd.pipe left right, proc.fds, t⟩)
    (hw : cost p = work left + work right + 17)
    (hstep : step s (Action.turn p refused) = some s') :
    Advances junk given s job cost s' := by
  rw [shExeccmd_pipe] at hbody
  rw [step_turn h.live hbody] at hstep
  dsimp only [ask] at hstep
  split at hstep
  · cases hstep
    exact h.denied (Point.leaving (howes.note (Means.noPipe (within_note hfit.since _))))
      (by lia)
  · rename_i rd wr fds hends
    cases refused with
    | true => cases hends
    | false =>
        have hpiped := newPipe_piped hfit.plumbed.std hends
        cases hstep
        refine h.inv.moved h.live h.kids (List.prefix_refl s.log) (Nat.le_succ s.pipes)
          (h.below.pipe hpiped) h.inv.started ?_ (by lia)
          (w := work left + work right + 16)
        exact Point.leftSide howes hfit (h.below s.pipes (Nat.le_refl _)) hpiped

theorem Plumbed.piped (h : Plumbed given fds) (hfresh : Fresh fds k) :
    Plumbed given (Function.update fds 1 (some (Stream.writeEnd k))) ∧
      Plumbed given (Function.update fds 0 (some (Stream.readEnd k))) := by
  constructor
  · refine h.update (Or.inr rfl) nofun ?_
    intro m hm i
    cases hm
    exact (hfresh i).left
  · refine h.update (Or.inl rfl) ?_ nofun
    intro m hm i
    cases hm
    exact (hfresh i).right

theorem At.turn_leftSide (h : At junk given s job cost p proc [])
    (hbody : proc.body = Body.shell (forkLeft junk left right rd wr))
    (howes : Owes s.log p ⟨Cmd.pipe left right, fds, t⟩ (job p))
    (hfit : Fit given s.log ⟨Cmd.pipe left right, fds, t⟩) (hfresh : Fresh fds k)
    (hpiped : Piped fds k rd wr proc.fds) (hw : cost p = work left + work right + 16)
    (hstep : step s (Action.turn p refused) = some s') :
    Advances junk given s job cost s' := by
  have hwr : proc.fds wr = some (Stream.writeEnd k) := by
    rw [hpiped.table, Function.update_self]
  rw [forkLeft_eq] at hbody
  refine h.forks hbody (hfit.plumbed.piped hfresh).left hfit.sane.left
    (hpiped.plumb hfit.plumbed.std (Or.inr rfl) (Or.inr rfl) hwr) ?_ ?_ hstep
  · intro job' hp _ hjob
    refine ⟨[s.next], work right + 11, by simp, ?_, ?_⟩
    · rw [hw]
      show _ + (work left + 4) < _
      lia
    · exact Point.rightSide (hp ▸ howes.mono (List.prefix_append _ _))
        (hfit.mono (List.prefix_append _ _)) hfresh hpiped (Side.begun hfit.since hjob)
  · have hwork := four_le_work left
    refine ⟨work right + 11, by lia, ?_⟩
    exact Point.rightSide (howes.mono (List.prefix_append _ _))
      (hfit.mono (List.prefix_append _ _)) hfresh hpiped
      (Side.settled (Nat.le_refl _) (Forked.no hfit.since))

theorem Side.length_le {log : List Event} {j : Job} {default : Int}
    (h : Side log job p j default kids) : kids.length ≤ 1 := by
  cases h with
  | pending _ _ _ => exact Nat.le_refl 1
  | settled _ _ => exact Nat.zero_le 1

theorem At.turn_rightSide (h : At junk given s job cost p proc kids)
    (hbody : proc.body = Body.shell (forkRight junk right rd wr))
    (howes : Owes s.log p ⟨Cmd.pipe left right, fds, t⟩ (job p))
    (hfit : Fit given s.log ⟨Cmd.pipe left right, fds, t⟩) (hfresh : Fresh fds k)
    (hpiped : Piped fds k rd wr proc.fds)
    (hleft : Side s.log job p ⟨left, Function.update fds 1 (some (Stream.writeEnd k)), t⟩ 0 kids)
    (hw : cost p = work right + 11) (hstep : step s (Action.turn p refused) = some s') :
    Advances junk given s job cost s' := by
  have hrd : proc.fds rd = some (Stream.readEnd k) := by
    rw [hpiped.table, Function.update_of_ne hpiped.ne, Function.update_self]
  have hlen := hleft.length_le
  rw [forkRight_eq] at hbody
  refine h.forks hbody (hfit.plumbed.piped hfresh).right hfit.sane.right
    (hpiped.plumb hfit.plumbed.std (Or.inl rfl) (Or.inl rfl) hrd) ?_ ?_ hstep
  · intro job' hp hkids hjob
    refine ⟨kids ++ [s.next], 6, by simp, ?_, ?_⟩
    · rw [hw]
      show _ + (work right + 4) < _
      lia
    · exact Point.waits (n := 2) (hp ▸ howes.mono (List.prefix_append _ _)) hfresh
        (hleft.mono (List.prefix_append _ _) hkids) (Side.begun hfit.since hjob)
        (Nat.succ_le_succ hlen)
  · have hpoint : Point junk given (s.log ++ [Event.refused p Op.fork]) job p (kids ++ [])
        proc.fds (Body.shell (plumb [Plumb.close rd, Plumb.close wr] (waits 2))) 6 :=
      Point.waits (n := 2) (howes.mono (List.prefix_append _ _)) hfresh
        (hleft.mono (List.prefix_append _ _) (fun _ _ => rfl))
        (Side.settled (Nat.le_refl _) (Forked.no hfit.since)) (Nat.le_succ_of_le hlen)
    rw [List.append_nil] at hpoint
    exact ⟨6, by lia, hpoint⟩

theorem runRight_point (junk : Int) {log : List Event} {u : Nat}
    (howes : Owes log p ⟨Cmd.binary left right operator, fds, t⟩ (job p))
    (hleft : Forked log p ⟨left, fds, t⟩ u 1 status) (hu : u ≤ log.length)
    (hplumbed : Plumbed given fds) (hsane : Sane (Cmd.binary left right operator)) :
    exists w, w ≤ work right + 4 ∧ Point junk given log job p [] fds
      (Body.shell (runRight (shExeccmd junk right) operator status)) w := by
  have hstop : Not (Goes operator status) -> Done log p (job p) log.length status :=
    fun hno => howes log (List.prefix_refl _) _ _ (Means.stops hleft hno hu)
  have hgo : Goes operator status -> Point junk given log job p [] fds
      (Body.shell (rightOf (shExeccmd junk right) status)) (work right + 4) := by
    intro hgoes
    refine Point.rightFork (t := u) ?_ ⟨hu, hplumbed, hsane.right.right⟩
    intro log' hlog t' status' hforked
    exact howes log' hlog t' status'
      (Means.goes (Forked.mono hlog hleft) hgoes hforked (Nat.le_refl t'))
  have hlow : 2 ≤ work right + 4 := Nat.le_add_left_of_le (by decide)
  cases Classical.em (status = 0) with
  | inl hzero =>
      rcases hsane.left with heq | heq
      · cases heq
        rw [runRight_and, if_neg (not_not_intro hzero)]
        exact ⟨_, Nat.le_refl _, hgo (Or.inl ⟨rfl, hzero⟩)⟩
      · cases heq
        rw [runRight_or, if_pos hzero]
        cases hzero
        exact ⟨2, hlow, Point.leaving (hstop (by simp [Goes]))⟩
  | inr hne =>
      rcases hsane.left with heq | heq
      · cases heq
        rw [runRight_and, if_pos hne]
        exact ⟨2, hlow, Point.leaving (hstop (by simp [Goes, hne]))⟩
      · cases heq
        rw [runRight_or, if_neg hne]
        exact ⟨_, Nat.le_refl _, hgo (Or.inr ⟨rfl, hne⟩)⟩

theorem At.turn_binary (h : At junk given s job cost p proc [])
    (hbody : proc.body = Body.shell (shExeccmd junk (Cmd.binary left right operator)))
    (howes : Owes s.log p ⟨Cmd.binary left right operator, proc.fds, t⟩ (job p))
    (hfit : Fit given s.log ⟨Cmd.binary left right operator, proc.fds, t⟩)
    (hw : cost p = work left + work right + 5)
    (hstep : step s (Action.turn p refused) = some s') :
    Advances junk given s job cost s' := by
  rw [binary_fork] at hbody
  refine h.forksNow hbody hfit.plumbed hfit.sane.right.left ?_ ?_ hstep
  · intro job' hp _ hjob
    refine ⟨[s.next], work right + 4, by simp, by lia, ?_⟩
    exact Point.binaryWait (hp ▸ howes.mono (List.prefix_append _ _))
        (Side.begun hfit.since hjob) hfit.plumbed hfit.sane
  · rcases runRight_point junk (howes.mono (List.prefix_append _ _))
      (Forked.no hfit.since) (Nat.le_refl _) hfit.plumbed hfit.sane with ⟨w, hle, hpoint⟩
    exact ⟨w, by lia, hpoint⟩

theorem At.turn_rightFork (h : At junk given s job cost p proc [])
    (hbody : proc.body = Body.shell (rightOf (shExeccmd junk right) status))
    (hpays : Pays s.log p ⟨right, proc.fds, t⟩ status (job p))
    (hfit : Fit given s.log ⟨right, proc.fds, t⟩) (hw : cost p = work right + 4)
    (hstep : step s (Action.turn p refused) = some s') :
    Advances junk given s job cost s' := by
  rw [rightOf_fork] at hbody
  refine h.forksNow hbody hfit.plumbed hfit.sane ?_ ?_ hstep
  · intro job' hp _ hjob
    refine ⟨[s.next], 3, by simp, by lia, ?_⟩
    exact Point.rightWait (hp ▸ hpays.mono (List.prefix_append _ _))
        (Side.begun hfit.since hjob)
  · refine ⟨2, by lia, Point.leaving ?_⟩
    exact hpays _ (List.prefix_append _ _) _ _ (Forked.no hfit.since)

/-- The shell behind a line, which goes on with the others. -/
theorem Point.behind {log log' : List Event} {since : Nat} {rest : List (Option Cmd)} {code : Int}
    (hserves : Serves log p fds (some cmd :: rest) since code (job p)) (hlog : log <+: log')
    (hnext : forall later, log' <+: later -> forall u, Script later p fds rest log'.length u ->
      Script later p fds (some cmd :: rest) since u)
    (hplumbed : Plumbed given fds) (hsane : forall c, some c ∈ rest -> Sane c) :
    Point junk given log' job p [] fds (Body.shell (shloop junk code rest)) (lineWork rest) := by
  refine Point.prompt ?_ (Nat.le_refl _) hplumbed hsane
  intro later hlater u hscript
  exact hserves later (hlog.trans hlater) u (hnext later hlater u hscript)

theorem At.turn_prompt (h : At junk given s job cost p proc []) {lines : List (Option Cmd)}
    {code : Int} (hbody : proc.body = Body.shell (shloop junk code lines))
    (hserves : Serves s.log p proc.fds lines t code (job p)) (ht : t ≤ s.log.length)
    (hplumbed : Plumbed given proc.fds) (hsane : forall c, some c ∈ lines -> Sane c)
    (hw : cost p = lineWork lines) (hstep : step s (Action.turn p refused) = some s') :
    Advances junk given s job cost s' := by
  induction lines with
  | nil =>
      have hcost : 1 < cost p := by
        rw [hw]
        exact Nat.lt_succ_self 1
      exact h.exits hbody (hserves s.log (List.prefix_refl _) _ (Script.stop ht)) hcost hstep
  | cons line rest ih =>
      have hrest : forall c, some c ∈ rest -> Sane c :=
        fun c hc => hsane c (List.mem_cons_of_mem _ hc)
      cases line with
      | none =>
          exact ih hbody (fun log' hlog u hscript => hserves log' hlog u (Script.nothing hscript))
            hrest hw
      | some cmd =>
          have hlt : lineWork rest < cost p := by
            rw [hw]
            exact Nat.lt_add_of_pos_left (Nat.succ_pos _)
          cases hcmd : isBuiltinCmd cmd with
          | true =>
              rw [shloop_builtin hcmd] at hbody
              rw [step_turn h.live hbody] at hstep
              cases refused with
              | true =>
                  cases hstep
                  refine h.denied (Point.behind hserves (List.prefix_append _ _) ?_ hplumbed
                    hrest) hlt
                  intro later hlater u hscript
                  exact Script.builtin hcmd
                    (Or.inr ((within_note ht _).mono hlater)) hscript
              | false =>
                  cases hstep
                  refine h.enters (Point.behind hserves (List.prefix_append _ _) ?_ hplumbed
                    hrest) hlt
                  intro later hlater u hscript
                  exact Script.builtin hcmd
                    (Or.inl ((within_note ht _).mono hlater)) hscript
          | false =>
              rw [shloop_fork hcmd] at hbody
              refine h.forksNow hbody hplumbed (hsane cmd List.mem_cons_self) ?_ ?_ hstep
              · intro job' hp _ hjob
                refine ⟨[s.next], lineWork rest, by simp, ?_, ?_⟩
                · rw [hw]
                  show lineWork rest + work cmd < work cmd + 1 + lineWork rest
                  lia
                · exact Point.promptWait (hp ▸ hserves.mono (List.prefix_append _ _)) hcmd
                    (Side.begun ht hjob) hplumbed hrest
              · refine ⟨lineWork rest, hlt, ?_⟩
                refine Point.behind hserves (List.prefix_append _ _) ?_ hplumbed hrest
                intro later hlater u hscript
                exact Script.command hcmd (Forked.mono hlater (Forked.no ht)) hscript

end Commands

end Runner
end Shell
end NicoOS
