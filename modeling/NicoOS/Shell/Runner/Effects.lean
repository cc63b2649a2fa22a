import Mathlib.Algebra.BigOperators.Group.Finset.Piecewise
import Mathlib.Algebra.Order.BigOperators.Group.Finset
import NicoOS.Shell.Runner.Points

/-!
# The table of processes

Every process is at a point of its code, and what one of them does leaves the others where they
are.
-/

namespace NicoOS
namespace Shell
namespace Runner

open Lib

def State.IsKid (s : State) (p q : Nat) : Prop :=
  exists child, s.procs q = some child ∧ child.parent = p

/-- The shell, which the first process has started. -/
def shellPid : Nat := 1

/-- `job` is what each process is for, and `cost` the steps that it has left. -/
structure Inv (junk : Int) (given : Table) (s : State) (job : Nat -> Goal) (cost : Nat -> Nat) :
    Prop where
  point : forall p proc, s.procs p = some proc -> exists kids,
    Point junk given s.log job p kids proc.fds proc.body (cost p) ∧
      forall q, s.IsKid p q <-> q ∈ kids
  gone : forall p, s.procs p = none -> cost p = 0
  order : forall p proc, s.procs p = some proc -> proc.parent < p ∧ p < s.next
  family : forall p proc, s.procs p = some proc ->
    proc.parent = initPid ∨ s.procs proc.parent ≠ none
  tables : forall p proc, s.procs p = some proc -> Below s.pipes proc.fds
  started : forall p path argv fds, Event.started p path argv fds ∈ s.log -> Plumbed given fds
  begun : shellPid < s.next
  settled : s.procs shellPid = none -> exists t status, t ≤ s.log.length ∧
    Done s.log shellPid (job shellPid) t status

def State.total (s : State) (cost : Nat -> Nat) : Nat := Finset.sum (Finset.range s.next) cost

/-- The invariant holds behind a step, which is one of the steps that were left. -/
def Advances (junk : Int) (given : Table) (s : State) (job : Nat -> Goal) (cost : Nat -> Nat)
    (s' : State) : Prop :=
  exists job' cost', Inv junk given s' job' cost' ∧ s'.total cost' < s.total cost ∧
    job' shellPid = job shellPid

section Effects

variable {junk : Int} {given fds : Table} {s : State} {job : Nat -> Goal} {cost : Nat -> Nat}
  {p q w : Nat} {proc : Proc} {kids : List Nat} {body : Body}

theorem sum_update {n : Nat} (hp : p < n) (f : Nat -> Nat) (w : Nat) :
    Finset.sum (Finset.range n) (Function.update f p w) + f p =
      Finset.sum (Finset.range n) f + w := by
  have hmem : p ∈ Finset.range n := Finset.mem_range.mpr hp
  rw [Finset.sum_update_of_mem hmem, ← Finset.sum_erase_add _ f hmem, Finset.erase_eq]
  lia

theorem Inv.low (h : Inv junk given s job cost) : s.procs initPid = none := by
  cases hp : s.procs initPid with
  | none => rfl
  | some proc => exact absurd (h.order initPid proc hp).left (Nat.not_lt_zero _)

theorem Inv.pos (h : Inv junk given s job cost) (hp : s.procs p = some proc) : initPid < p :=
  Nat.lt_of_le_of_lt (Nat.zero_le _) (h.order p proc hp).left

theorem Inv.fresh (h : Inv junk given s job cost) (hle : s.next ≤ p) : s.procs p = none := by
  cases hp : s.procs p with
  | none => rfl
  | some proc => exact absurd (h.order p proc hp).right (Nat.not_lt_of_le hle)

theorem Inv.kid_lt (h : Inv junk given s job cost) (hkid : s.IsKid p q) : p < q ∧ q < s.next := by
  rcases hkid with ⟨child, hchild, hparent⟩
  have horder := h.order q child hchild
  rw [hparent] at horder
  exact horder

theorem hasChild_iff (h : Inv junk given s job cost) :
    s.hasChild p = true <-> exists q, s.IsKid p q := by
  unfold State.hasChild
  rw [List.any_eq_true]
  constructor
  · intro hany
    rcases hany with ⟨q, -, hq⟩
    cases hproc : s.procs q with
    | none =>
        rw [hproc] at hq
        cases hq
    | some child =>
        rw [hproc] at hq
        exact ⟨q, child, hproc, of_decide_eq_true hq⟩
  · intro hkid
    rcases hkid with ⟨q, hq⟩
    have hlt := (h.kid_lt hq).right
    rcases hq with ⟨child, hchild, hparent⟩
    refine ⟨q, List.mem_range.mpr hlt, ?_⟩
    rw [hchild]
    exact decide_eq_true hparent

theorem update_ne_none {procs : Nat -> Option Proc} (h : procs q ≠ none) (p : Nat)
    (proc : Proc) : Function.update procs p (some proc) q ≠ none := by
  cases Classical.em (q = p) with
  | inl heq =>
      rw [heq, Function.update_self]
      exact Option.some_ne_none proc
  | inr hne =>
      rw [Function.update_of_ne hne]
      exact h

/-- What the invariant says of the process `p`. -/
structure Placed (junk : Int) (given : Table) (s : State) (job : Nat -> Goal) (cost : Nat -> Nat)
    (p : Nat) (proc : Proc) : Prop where
  point : exists kids, Point junk given s.log job p kids proc.fds proc.body (cost p) ∧
    forall q, s.IsKid p q <-> q ∈ kids
  order : proc.parent < p ∧ p < s.next
  family : proc.parent = initPid ∨ s.procs proc.parent ≠ none
  tables : Below s.pipes proc.fds

structure Grows (s s' : State) : Prop where
  log : s.log <+: s'.log
  next : s.next ≤ s'.next
  pipes : s.pipes ≤ s'.pipes

/-- Process `p`, which another one leaves alone. Its parent may have ended; then it is a child of
the first process. -/
structure Keeps (s s' : State) (p : Nat) (new old : Proc) : Prop where
  fds : new.fds = old.fds
  body : new.body = old.body
  parent : new.parent = initPid ∨
    new.parent = old.parent ∧ (s.procs old.parent ≠ none -> s'.procs old.parent ≠ none)
  kids : forall q, s'.IsKid p q <-> s.IsKid p q

section Changes

variable {s' : State} {job' : Nat -> Goal} {cost' : Nat -> Nat} {new old : Proc} {r : Nat}

theorem Inv.kept (h : Inv junk given s job cost) (hp : s.procs p = some old) (hgrows : Grows s s')
    (hkeeps : Keeps s s' p new old) (hjob : forall q, q < s.next -> job' q = job q)
    (hcost : cost' p = cost p) : Placed junk given s' job' cost' p new := by
  have horder := h.order p old hp
  constructor
  · rcases h.point p old hp with ⟨kids, hpoint, hkids⟩
    refine ⟨kids, ?_, ?_⟩
    · rw [hkeeps.fds, hkeeps.body, hcost]
      apply hpoint.mono hgrows.log (hjob p horder.right)
      intro q hq
      exact hjob q (h.kid_lt ((hkids q).mpr hq)).right
    · intro q
      rw [hkeeps.kids]
      exact hkids q
  · refine ⟨?_, Nat.lt_of_lt_of_le horder.right hgrows.next⟩
    rcases hkeeps.parent with hinit | hsame
    · rw [hinit]
      exact h.pos hp
    · rw [hsame.left]
      exact horder.left
  · rcases hkeeps.parent with hinit | hsame
    · exact Or.inl hinit
    · rw [hsame.left]
      exact (h.family p old hp).imp_right hsame.right
  · rw [hkeeps.fds]
    exact (h.tables p old hp).mono hgrows.pipes

/-- The process that goes on keeps its parent. -/
theorem Inv.turned (h : Inv junk given s job cost) (hp : s.procs p = some old)
    (hgrows : Grows s s') (hparent : new.parent = old.parent)
    (hlive : s.procs old.parent ≠ none -> s'.procs old.parent ≠ none)
    (hpoint : Point junk given s'.log job' p kids new.fds new.body (cost' p))
    (hkids : forall q, s'.IsKid p q <-> q ∈ kids) (hbelow : Below s'.pipes new.fds) :
    Placed junk given s' job' cost' p new := by
  have horder := h.order p old hp
  constructor
  · exact ⟨kids, hpoint, hkids⟩
  · rw [hparent]
    exact ⟨horder.left, Nat.lt_of_lt_of_le horder.right hgrows.next⟩
  · rw [hparent]
    exact (h.family p old hp).imp_right hlive
  · exact hbelow

/-- A change behind which every process is in its place. -/
theorem Inv.goes (h : Inv junk given s job cost) (job' : Nat -> Goal) (cost' : Nat -> Nat)
    (hgrows : Grows s s')
    (hplaced : forall r rproc, s'.procs r = some rproc -> Placed junk given s' job' cost' r rproc)
    (hgone : forall r, s'.procs r = none -> cost' r = 0)
    (hstarted : forall p path argv fds,
      Event.started p path argv fds ∈ s'.log -> Plumbed given fds)
    (hjob : job' shellPid = job shellPid)
    (hsettled : s'.procs shellPid = none -> exists t status, t ≤ s.log.length ∧
      Done s.log shellPid (job shellPid) t status)
    (hless : s'.total cost' < s.total cost) : Advances junk given s job cost s' := by
  refine ⟨job', cost', ?_, hless, hjob⟩
  constructor
  · exact fun r rproc hr => (hplaced r rproc hr).point
  · exact hgone
  · exact fun r rproc hr => (hplaced r rproc hr).order
  · exact fun r rproc hr => (hplaced r rproc hr).family
  · exact fun r rproc hr => (hplaced r rproc hr).tables
  · exact hstarted
  · exact Nat.lt_of_lt_of_le h.begun hgrows.next
  · intro hnone
    rcases hsettled hnone with ⟨t, status, ht, hdone⟩
    rw [hjob]
    exact ⟨t, status, Nat.le_trans ht hgrows.log.length_le, hdone.mono hgrows.log⟩

theorem isKid_replaced (hp : s.procs p = some old)
    (hprocs : s'.procs = Function.update s.procs p (some new)) (hparent : new.parent = old.parent) :
    s'.IsKid r q <-> s.IsKid r q := by
  unfold State.IsKid
  rw [hprocs]
  cases Classical.em (q = p) with
  | inl heq =>
      rw [heq, Function.update_self, hp]
      simp [hparent]
  | inr hne => rw [Function.update_of_ne hne]

theorem isKid_added (hp : s.procs p = none)
    (hprocs : s'.procs = Function.update s.procs p (some new)) :
    s'.IsKid r q <-> s.IsKid r q ∨ r = new.parent ∧ q = p := by
  unfold State.IsKid
  rw [hprocs]
  cases Classical.em (q = p) with
  | inl heq =>
      rw [heq, Function.update_self, hp]
      simp [eq_comm]
  | inr hne =>
      rw [Function.update_of_ne hne]
      simp [hne]

theorem isKid_removed (hprocs : s'.procs = Function.update s.procs p none) :
    s'.IsKid r q <-> s.IsKid r q ∧ q ≠ p := by
  unfold State.IsKid
  rw [hprocs]
  cases Classical.em (q = p) with
  | inl heq =>
      rw [heq, Function.update_self]
      simp
  | inr hne =>
      rw [Function.update_of_ne hne]
      simp [hne]

theorem gone_update {procs : Nat -> Option Proc} (hgone : forall r, procs r = none -> cost r = 0)
    {new : Option Proc} (hw : new = none -> w = 0) (r : Nat)
    (hr : Function.update procs p new r = none) : Function.update cost p w r = 0 := by
  cases Classical.em (r = p) with
  | inl heq =>
      rw [heq, Function.update_self] at hr ⊢
      exact hw hr
  | inr hne =>
      rw [Function.update_of_ne hne] at hr ⊢
      exact hgone r hr

theorem parent_unique {r : Nat} (hp : s.IsKid p q) (hr : s.IsKid r q) : p = r := by
  rcases hp with ⟨child, hchild, hparent⟩
  rcases hr with ⟨child', hchild', hparent'⟩
  rw [hchild] at hchild'
  cases hchild'
  exact hparent.symm.trans hparent'

end Changes

/-- A process with its own new descriptors, code and events. -/
theorem Inv.moved (h : Inv junk given s job cost) (hp : s.procs p = some proc)
    (hkids : forall q, s.IsKid p q <-> q ∈ kids) {log : List Event} {pipes : Nat}
    (hlog : s.log <+: log) (hpipes : s.pipes ≤ pipes) (hbelow : Below pipes fds)
    (hstarted : forall p path argv fds, Event.started p path argv fds ∈ log -> Plumbed given fds)
    (hpoint : Point junk given log job p kids fds body w) (hw : w < cost p) :
    Advances junk given s job cost
      { s with
        procs := Function.update s.procs p (some { proc with fds := fds, body := body })
        pipes := pipes
        log := log } := by
  have hkid : forall {r q}, State.IsKid { s with
      procs := Function.update s.procs p (some { proc with fds := fds, body := body })
      pipes := pipes
      log := log } r q <-> s.IsKid r q := isKid_replaced hp rfl rfl
  apply h.goes job (Function.update cost p w)
  · exact ⟨hlog, Nat.le_refl s.next, hpipes⟩
  · intro r rproc hr
    dsimp only at hr
    cases Classical.em (r = p) with
    | inl heq =>
        rw [heq, Function.update_self] at hr
        cases hr
        rw [heq]
        apply h.turned hp
        · exact ⟨hlog, Nat.le_refl s.next, hpipes⟩
        · rfl
        · exact fun hlive => update_ne_none hlive p _
        · rw [Function.update_self]
          exact hpoint
        · exact fun q => hkid.trans (hkids q)
        · exact hbelow
    | inr hne =>
        rw [Function.update_of_ne hne] at hr
        apply h.kept hr
        · exact ⟨hlog, Nat.le_refl s.next, hpipes⟩
        · exact ⟨rfl, rfl, Or.inr ⟨rfl, fun hlive => update_ne_none hlive p _⟩,
            fun _ => hkid⟩
        · exact fun _ _ => rfl
        · exact Function.update_of_ne hne _ _
  · exact gone_update h.gone (fun hnew => by cases hnew)
  · exact hstarted
  · rfl
  · intro hnone
    apply h.settled
    by_contra hlive
    exact update_ne_none hlive p _ hnone
  · have hsum := sum_update (h.order p proc hp).right cost w
    unfold State.total
    dsimp only
    lia

theorem Inv.isKid_forked (h : Inv junk given s job cost) (hp : s.procs p = some proc)
    {s' : State} {new : Proc} (child : Proc) {r : Nat}
    (hprocs : s'.procs =
      Function.update (Function.update s.procs p (some new)) s.next (some child))
    (hparent : new.parent = proc.parent) :
    s'.IsKid r q <-> s.IsKid r q ∨ r = child.parent ∧ q = s.next := by
  have hne : s.next ≠ p := Nat.ne_of_gt (h.order p proc hp).right
  have hfresh : State.procs { s with procs := Function.update s.procs p (some new) } s.next =
      none := (Function.update_of_ne hne _ _).trans (h.fresh (Nat.le_refl s.next))
  rw [isKid_added hfresh hprocs, isKid_replaced hp rfl hparent]

theorem Inv.childless_fresh (h : Inv junk given s job cost) : Not (s.IsKid s.next q) := by
  intro hkid
  have hlt := h.kid_lt hkid
  exact absurd (Nat.lt_trans hlt.left hlt.right) (Nat.lt_irrefl s.next)

theorem sum_forked {n : Nat} (hp : p < n) (f : Nat -> Nat) (w v : Nat) :
    Finset.sum (Finset.range (n + 1)) (Function.update (Function.update f p w) n v) + f p =
      Finset.sum (Finset.range n) f + w + v := by
  have hsum := sum_update hp f w
  have hout : Finset.sum (Finset.range n) (Function.update (Function.update f p w) n v) =
      Finset.sum (Finset.range n) (Function.update f p w) := by
    apply Finset.sum_congr rfl
    intro r hr
    exact Function.update_of_ne (Nat.ne_of_lt (Finset.mem_range.mp hr)) _ _
  rw [Finset.sum_range_succ, hout, Function.update_self]
  lia

/-- A process that forks. -/
theorem Inv.forked (h : Inv junk given s job cost) (hp : s.procs p = some proc)
    (hkids : forall q, s.IsKid p q <-> q ∈ kids) {jq : Goal} {kids' : List Nat}
    {code child : Code Empty} {wq : Nat}
    (hmem : forall q, q ∈ kids' <-> q ∈ kids ∨ q = s.next)
    (hpoint : Point junk given (s.log ++ [Event.forked p s.next])
      (Function.update job s.next jq) p kids' proc.fds (Body.shell code) w)
    (hchild : Point junk given (s.log ++ [Event.forked p s.next])
      (Function.update job s.next jq) s.next [] proc.fds (Body.shell child) wq)
    (hw : w + wq < cost p) :
    Advances junk given s job cost
      { s with
        procs := Function.update
          (Function.update s.procs p (some { proc with body := Body.shell code })) s.next
          (some { parent := p, fds := proc.fds, body := Body.shell child })
        next := s.next + 1
        log := s.log ++ [Event.forked p s.next] } := by
  have hlt := (h.order p proc hp).right
  have hlog := List.prefix_append s.log [Event.forked p s.next]
  have hlive : forall q, s.procs q ≠ none -> Function.update
      (Function.update s.procs p (some { proc with body := Body.shell code })) s.next
      (some { parent := p, fds := proc.fds, body := Body.shell child }) q ≠ none :=
    fun q hq => update_ne_none (update_ne_none hq p _) s.next _
  have hkid : forall {r q}, State.IsKid { s with
      procs := Function.update
        (Function.update s.procs p (some { proc with body := Body.shell code })) s.next
        (some { parent := p, fds := proc.fds, body := Body.shell child })
      next := s.next + 1
      log := s.log ++ [Event.forked p s.next] } r q <-> s.IsKid r q ∨ r = p ∧ q = s.next :=
    h.isKid_forked hp { parent := p, fds := proc.fds, body := Body.shell child } rfl rfl
  apply h.goes (Function.update job s.next jq)
    (Function.update (Function.update cost p w) s.next wq)
  · exact ⟨hlog, Nat.le_succ s.next, Nat.le_refl s.pipes⟩
  · intro r rproc hr
    dsimp only at hr
    cases Classical.em (r = s.next) with
    | inl heq =>
        rw [heq, Function.update_self] at hr
        cases hr
        rw [heq]
        constructor
        · refine ⟨[], ?_, ?_⟩
          · rw [Function.update_self]
            exact hchild
          · intro q
            rw [hkid]
            simp [h.childless_fresh, Nat.ne_of_gt hlt]
        · exact ⟨hlt, Nat.lt_succ_self s.next⟩
        · apply Or.inr
          apply hlive
          rw [hp]
          exact Option.some_ne_none proc
        · exact h.tables p proc hp
    | inr hrn =>
        rw [Function.update_of_ne hrn] at hr
        cases Classical.em (r = p) with
        | inl heq =>
            rw [heq, Function.update_self] at hr
            cases hr
            rw [heq]
            apply h.turned hp
            · exact ⟨hlog, Nat.le_succ s.next, Nat.le_refl s.pipes⟩
            · rfl
            · exact hlive _
            · rw [Function.update_of_ne (Nat.ne_of_lt hlt), Function.update_self]
              exact hpoint
            · intro q
              rw [hkid, hkids, hmem]
              simp
            · exact h.tables p proc hp
        | inr hne =>
            rw [Function.update_of_ne hne] at hr
            apply h.kept hr
            · exact ⟨hlog, Nat.le_succ s.next, Nat.le_refl s.pipes⟩
            · refine ⟨rfl, rfl, Or.inr ⟨rfl, hlive _⟩, fun q => ?_⟩
              rw [hkid]
              simp [hne]
            · exact fun q hq => Function.update_of_ne (Nat.ne_of_lt hq) _ _
            · rw [Function.update_of_ne hrn, Function.update_of_ne hne]
  · exact gone_update (gone_update h.gone (fun hnew => by cases hnew)) (fun hnew => by cases hnew)
  · intro r path argv fds hmem
    rcases List.mem_append.mp hmem with hold | hnew
    · exact h.started r path argv fds hold
    · cases List.mem_singleton.mp hnew
  · exact Function.update_of_ne (Nat.ne_of_lt h.begun) _ _
  · intro hnone
    apply h.settled
    by_contra hne
    exact hlive shellPid hne hnone
  · have hsum := sum_forked hlt cost w wq
    unfold State.total
    dsimp only
    lia

section Exit

variable {status : Int} {new : Proc} {r : Nat}

theorem exit_self (hp : s.procs p = some proc) : (s.exit p status).procs p =
    some { parent := proc.parent, fds := fun _ => none, body := Body.zombie status } := by
  unfold State.exit
  dsimp only
  rw [hp, Option.map_some, if_pos rfl]

theorem exit_eq_none_iff : (s.exit p status).procs r = none <-> s.procs r = none :=
  Option.map_eq_none_iff

/-- The children of a process that ends go to the first process. -/
theorem exit_other (hne : r ≠ p) (hnew : (s.exit p status).procs r = some new) :
    exists old, s.procs r = some old ∧ new.fds = old.fds ∧ new.body = old.body ∧
      new.parent = if old.parent = p then initPid else old.parent := by
  unfold State.exit at hnew
  dsimp only at hnew
  cases hold : s.procs r with
  | none =>
      rw [hold] at hnew
      cases hnew
  | some old =>
      rw [hold, Option.map_some, if_neg hne] at hnew
      refine ⟨old, rfl, ?_⟩
      split at hnew
      · rename_i heq
        cases hnew
        exact ⟨rfl, rfl, (if_pos heq).symm⟩
      · rename_i hother
        cases hnew
        exact ⟨rfl, rfl, (if_neg hother).symm⟩

theorem Inv.isKid_exit (h : Inv junk given s job cost) (hp : s.procs p = some proc)
    (hr : initPid < r) : (s.exit p status).IsKid r q <-> s.IsKid r q ∧ r ≠ p := by
  constructor
  · intro hex
    rcases hex with ⟨new, hnew, hparent⟩
    cases Classical.em (q = p) with
    | inl heq =>
        rw [heq, exit_self hp] at hnew
        cases hnew
        rw [heq, ← hparent]
        exact ⟨⟨proc, hp, rfl⟩, Nat.ne_of_lt (h.order p proc hp).left⟩
    | inr hne =>
        rcases exit_other hne hnew with ⟨old, hold, -, -, hpar⟩
        rw [hparent] at hpar
        split at hpar
        · rw [hpar] at hr
          cases hr
        · rename_i hnp
          rw [hpar]
          exact ⟨⟨old, hold, rfl⟩, hnp⟩
  · intro hand
    rcases hand with ⟨⟨old, hold, hparent⟩, hnp⟩
    cases Classical.em (q = p) with
    | inl heq =>
        rw [heq, hp] at hold
        cases hold
        rw [heq]
        exact ⟨_, exit_self hp, hparent⟩
    | inr hne =>
        refine ⟨old, ?_, hparent⟩
        unfold State.exit
        dsimp only
        rw [hold, Option.map_some, if_neg hne, if_neg (hparent ▸ hnp)]

end Exit

/-- A process that ends, whose children go to the first process. -/
theorem Inv.exited (h : Inv junk given s job cost) (hp : s.procs p = some proc)
    {status : Int} {log : List Event} (hlog : s.log <+: log)
    (hstarted : forall p path argv fds, Event.started p path argv fds ∈ log -> Plumbed given fds)
    (hpoint : Point junk given log job p [] (fun _ => none) (Body.zombie status) w)
    (hw : w < cost p) :
    Advances junk given s job cost { s.exit p status with log := log } := by
  have hlive : forall q, s.procs q ≠ none -> (s.exit p status).procs q ≠ none :=
    fun q hq hnone => hq (exit_eq_none_iff.mp hnone)
  apply h.goes job (Function.update cost p w)
  · exact ⟨hlog, Nat.le_refl s.next, Nat.le_refl s.pipes⟩
  · intro r rproc hr
    cases Classical.em (r = p) with
    | inl heq =>
        have hself := (heq ▸ hr : (s.exit p status).procs p = some rproc)
        rw [exit_self hp] at hself
        cases hself
        rw [heq]
        apply h.turned hp
        · exact ⟨hlog, Nat.le_refl s.next, Nat.le_refl s.pipes⟩
        · rfl
        · exact hlive _
        · rw [Function.update_self]
          exact hpoint
        · intro q
          apply (h.isKid_exit hp (h.pos hp)).trans
          simp
        · exact fun _ _ _ => ⟨nofun, nofun⟩
    | inr hne =>
        rcases exit_other hne hr with ⟨old, hold, hfds, hbody, hparent⟩
        apply h.kept hold
        · exact ⟨hlog, Nat.le_refl s.next, Nat.le_refl s.pipes⟩
        · refine ⟨hfds, hbody, ?_, fun q => ?_⟩
          · rw [hparent]
            split
            · exact Or.inl rfl
            · exact Or.inr ⟨rfl, hlive _⟩
          · apply (h.isKid_exit hp (h.pos hold)).trans
            simp [hne]
        · exact fun _ _ => rfl
        · exact Function.update_of_ne hne _ _
  · intro r hr
    have hnone := exit_eq_none_iff.mp hr
    have hne : r ≠ p := by
      intro heq
      rw [heq, hp] at hnone
      cases hnone
    rw [Function.update_of_ne hne]
    exact h.gone r hnone
  · exact hstarted
  · rfl
  · exact fun hnone => h.settled (exit_eq_none_iff.mp hnone)
  · have hsum := sum_update (h.order p proc hp).right cost w
    unfold State.total
    show Finset.sum (Finset.range s.next) _ < Finset.sum (Finset.range s.next) cost
    lia

/-- A zombie that is taken away; where its parent is in the table, that goes on. -/
theorem Inv.collected (h : Inv junk given s job cost) (hp : s.procs p = some proc)
    (hkids : forall q, s.IsKid p q <-> q ∈ kids) {c : Nat} {kids' : List Nat}
    {code : Code Empty} (hc : s.IsKid p c) (hleaf : forall q, Not (s.IsKid c q))
    (hcost : 0 < cost c)
    (hmem : forall q, q ∈ kids' <-> q ∈ kids ∧ q ≠ c)
    (hpoint : Point junk given s.log job p kids' proc.fds (Body.shell code) w)
    (hw : w ≤ cost p) :
    Advances junk given s job cost
      { s with
        procs := Function.update (Function.update s.procs c none) p
          (some { proc with body := Body.shell code }) } := by
  have hpc := h.kid_lt hc
  have hne : p ≠ c := Nat.ne_of_lt hpc.left
  have hmid : State.procs { s with procs := Function.update s.procs c none } p = some proc :=
    (Function.update_of_ne hne _ _).trans hp
  have hkid : forall {r q}, State.IsKid { s with
      procs := Function.update (Function.update s.procs c none) p
        (some { proc with body := Body.shell code }) } r q <-> s.IsKid r q ∧ q ≠ c := by
    intro r q
    have hout : State.IsKid { s with procs := Function.update s.procs c none } r q <->
        s.IsKid r q ∧ q ≠ c := isKid_removed rfl
    rw [← hout]
    exact isKid_replaced hmid rfl rfl
  have hlive : forall q, q ≠ c -> s.procs q ≠ none ->
      Function.update (Function.update s.procs c none) p
        (some { proc with body := Body.shell code }) q ≠ none := by
    intro q hqc hq
    apply update_ne_none
    rw [Function.update_of_ne hqc]
    exact hq
  apply h.goes job (Function.update (Function.update cost c 0) p w)
  · exact ⟨List.prefix_refl s.log, Nat.le_refl s.next, Nat.le_refl s.pipes⟩
  · intro r rproc hr
    dsimp only at hr
    cases Classical.em (r = p) with
    | inl heq =>
        rw [heq, Function.update_self] at hr
        cases hr
        rw [heq]
        apply h.turned hp
        · exact ⟨List.prefix_refl s.log, Nat.le_refl s.next, Nat.le_refl s.pipes⟩
        · rfl
        · exact hlive _ fun heq => hleaf p ⟨proc, hp, heq⟩
        · rw [Function.update_self]
          exact hpoint
        · intro q
          rw [hkid, hkids, hmem]
        · exact h.tables p proc hp
    | inr hrp =>
        rw [Function.update_of_ne hrp] at hr
        have hrc : r ≠ c := by
          intro heq
          rw [heq, Function.update_self] at hr
          cases hr
        rw [Function.update_of_ne hrc] at hr
        apply h.kept hr
        · exact ⟨List.prefix_refl s.log, Nat.le_refl s.next, Nat.le_refl s.pipes⟩
        · refine ⟨rfl, rfl, Or.inr ⟨rfl, hlive _ fun heq => hleaf r ⟨rproc, hr, heq⟩⟩,
            fun q => ?_⟩
          rw [hkid]
          constructor
          · exact And.left
          · intro hq
            refine ⟨hq, ?_⟩
            -- `c` has one parent, which is `p`.
            intro heq
            exact hrp (parent_unique (heq ▸ hq) hc)
        · exact fun _ _ => rfl
        · rw [Function.update_of_ne hrp, Function.update_of_ne hrc]
  · exact gone_update (gone_update h.gone fun _ => rfl) nofun
  · exact h.started
  · rfl
  · intro hnone
    apply h.settled
    by_contra hshell
    apply hlive shellPid _ hshell hnone
    intro heq
    rw [← heq] at hpc
    exact absurd (h.pos hp) (Nat.not_lt_of_le (Nat.le_of_lt_succ hpc.left))
  · have hsum := sum_update hpc.right cost 0
    have hsum' := sum_update (h.order p proc hp).right (Function.update cost c 0) w
    rw [Function.update_of_ne hne] at hsum'
    unfold State.total
    dsimp only
    lia

/-- A zombie that the first process takes away. -/
theorem Inv.reaped (h : Inv junk given s job cost) (hp : s.procs p = some proc)
    (hparent : proc.parent = initPid) (hleaf : forall q, Not (s.IsKid p q)) (hcost : 0 < cost p)
    (hdone : exists t status, t ≤ s.log.length ∧ Done s.log p (job p) t status) :
    Advances junk given s job cost { s with procs := Function.update s.procs p none } := by
  apply h.goes job (Function.update cost p 0)
  · exact ⟨List.prefix_refl s.log, Nat.le_refl s.next, Nat.le_refl s.pipes⟩
  · intro r rproc hr
    dsimp only at hr
    have hne : r ≠ p := by
      intro heq
      rw [heq, Function.update_self] at hr
      cases hr
    rw [Function.update_of_ne hne] at hr
    apply h.kept hr
    · exact ⟨List.prefix_refl s.log, Nat.le_refl s.next, Nat.le_refl s.pipes⟩
    · refine ⟨rfl, rfl, Or.inr ⟨rfl, fun hlive => ?_⟩, fun q => ?_⟩
      · dsimp only
        rw [Function.update_of_ne]
        · exact hlive
        · exact fun heq => hleaf r ⟨rproc, hr, heq⟩
      · rw [isKid_removed rfl]
        constructor
        · exact And.left
        · intro hq
          refine ⟨hq, ?_⟩
          -- The first process has no place in the table.
          intro heq
          have hinit : s.IsKid initPid q := by
            rw [heq]
            exact ⟨proc, hp, hparent⟩
          have hrpos := h.pos hr
          rw [parent_unique hq hinit] at hrpos
          exact Nat.lt_irrefl _ hrpos
    · exact fun _ _ => rfl
    · exact Function.update_of_ne hne _ _
  · exact gone_update h.gone fun _ => rfl
  · exact h.started
  · rfl
  · intro hnone
    cases Classical.em (shellPid = p) with
    | inl heq =>
        rw [heq]
        exact hdone
    | inr hne => exact h.settled ((Function.update_of_ne hne _ _).symm.trans hnone)
  · have hsum := sum_update (h.order p proc hp).right cost 0
    unfold State.total
    dsimp only
    lia

end Effects

end Runner
end Shell
end NicoOS
