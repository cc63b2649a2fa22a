import NicoOS.Kernel.Vm.Growth

/-!
# Ranges of pages

The loops of `pgdir_valloc` and `vm_grow_userheap`, with enough free frames and with
too few of them.
-/

namespace NicoOS
namespace Kernel
namespace Vm

open Lib

/-!
# Runs that found the list empty
-/

structure Dry (s : Phys) : Prop where
  freeList : s.freeList = 0
  exhausted : s.exhausted = true

/-- The run goes on as if it had got a frame, or it stops. -/
def EndsDry (r : Run (Bool × Phys)) : Prop :=
  Meets (fun a => a.1 = true ∧ Dry a.2) (fun e => Dry e.2) r

section DryRuns

variable {s : Phys}

theorem Dry.palloc (h : Dry s) : Vm.palloc s = Except.ok (kernelBase, s) := by
  have hsame : { s with exhausted := true } = s := by
    rw [<- h.exhausted]
  unfold Vm.palloc
  rw [if_neg (fun hne => hne h.freeList), hsame, kv2p_zero]

theorem Dry.pageAt (h : Dry s) (vaddr : Nat) :
    Meets (fun _ => True) (fun e => Dry e.2) (Vm.pageAt vaddr s) := by
  unfold Vm.pageAt
  split
  · trivial
  · exact h

theorem Dry.tableAt (h : Dry s) (d nr : Nat) :
    Meets (fun _ => True) (fun e => Dry e.2) (Vm.tableAt d nr s) := by
  unfold Vm.tableAt
  exact h.pageAt _

theorem Dry.addTable (h : Dry s) (d nr : Nat) : EndsDry (Vm.addTable d nr s) := by
  have hanswer : kernelBase ≠ 0 := by decide
  unfold Vm.addTable
  split
  · exact ⟨rfl, h⟩
  · rw [h.palloc, ok_bind]
    dsimp only
    rw [if_neg hanswer, pageAt_kernelBase, error_bind]
    exact h

theorem Dry.mapPage (h : Dry s) (pgdir vaddr paddr attr : Nat) :
    EndsDry (Vm.mapPage pgdir vaddr paddr attr s) := by
  unfold Vm.mapPage
  split
  · refine (h.pageAt pgdir).bind (fun d _ => ?_)
    refine (h.addTable d (pdeNr vaddr)).bind ?_
    intro r hboth
    rcases r with ⟨ready, s1⟩
    rcases hboth with ⟨hready, h1⟩
    dsimp only at hready h1 ⊢
    rw [if_pos hready]
    refine (h1.tableAt d (pdeNr vaddr)).bind (fun f _ => ?_)
    split
    · exact h1
    · exact ⟨rfl, ⟨h1.freeList, h1.exhausted⟩⟩
  · exact h

theorem Dry.vallocFrom (h : Dry s) (pgdir attr k cnt vaddr : Nat) :
    EndsDry (Vm.vallocFrom pgdir attr k cnt vaddr s) := by
  have hanswer : kernelBase ≠ 0 := by decide
  induction k generalizing s cnt vaddr with
  | zero => exact ⟨rfl, h⟩
  | succ k ih =>
      unfold Vm.vallocFrom
      rw [h.palloc, ok_bind]
      dsimp only
      rw [if_neg hanswer]
      refine (h.mapPage pgdir vaddr kernelBase attr).bind ?_
      intro r hboth
      rcases r with ⟨mapped, s1⟩
      rcases hboth with ⟨hmapped, h1⟩
      dsimp only at hmapped h1 ⊢
      rw [if_pos hmapped]
      exact ih h1 _ _

theorem Dry.pageFramePtr (h : Dry s) (pgdir vaddr : Nat) :
    Meets (fun _ => True) (fun e => Dry e.2) (Vm.pageFramePtr pgdir vaddr s) := by
  unfold Vm.pageFramePtr
  refine (h.pageAt pgdir).bind (fun d _ => ?_)
  split
  · refine (h.tableAt d (pdeNr vaddr)).bind (fun f _ => ?_)
    split
    · trivial
    · trivial
  · trivial

theorem Dry.growFrom (h : Dry s) (pgdir ebrk n brk : Nat) :
    EndsDry (Vm.growFrom pgdir ebrk n brk s) := by
  have hanswer : kernelBase ≠ 0 := by decide
  induction n generalizing s brk with
  | zero => exact ⟨rfl, h⟩
  | succ n ih =>
      unfold Vm.growFrom
      split
      · refine (h.pageFramePtr pgdir brk).bind (fun ptr _ => ?_)
        split
        · rw [h.palloc, ok_bind]
          dsimp only
          rw [if_neg hanswer]
          refine (h.mapPage pgdir brk kernelBase pgUser).bind ?_
          intro r hboth
          rcases r with ⟨mapped, s1⟩
          rcases hboth with ⟨-, h1⟩
          exact ih h1 _
        · exact ih h _
      · exact ⟨rfl, h⟩

end DryRuns

theorem Sound.drained {s : Phys} {free : List Nat} {L : Layout} (h : Sound s free L) :
    Sound { s with exhausted := true } free L :=
  h.congr (h.pool.congr rfl (fun _ _ => rfl)) (fun _ hf => Or.inl hf) (fun _ => rfl)
    (fun _ _ _ _ => rfl) (fun _ _ _ => rfl)

theorem Sound.dry {s : Phys} {L : Layout} (h : Sound s [] L) :
    Dry { s with exhausted := true } where
  freeList := h.pool.linked
  exhausted := rfl

/-!
# Ranges that get their frames
-/

/-- Every page of the range is mapped, the new ones to the frames of the plan. -/
structure Served (s : Phys) (free : List Nat) (L : Layout) (k v : Nat) (s' : Phys)
    (free' : List Nat) (L' : Layout) : Prop where
  grown : Extends s free L s' free' L'
  page : forall w f, L'.page w = some f <->
    L.page w = some f ∨ (w, f) ∈ plan k v L.hasTable L.hasPage free
  present : forall w, v ≤ w -> w < v + k -> L'.page w ≠ none
  left : (L'.hasTable, L'.hasPage, free') = planRest k v L.hasTable L.hasPage free

section Ranges

variable {s : Phys} {free : List Nat} {L : Layout}

theorem Served.nothing (h : Sound s free L) (v : Nat) : Served s free L 0 v s free L where
  grown := Extends.refl h
  page w f := by
    constructor
    · exact Or.inl
    · intro hor
      rcases hor with hold | hnew
      · exact hold
      · cases hnew
  present w hlow hhigh := by lia
  left := rfl

theorem planRest_skip {k v : Nat} {tables pages : Nat -> Bool} (h : pages v = true) :
    planRest (k + 1) v tables pages free = planRest k (v + 1) tables pages free := by
  show (if pages v = true then _ else _) = _
  rw [if_pos h]

theorem planRest_take {k v f : Nat} {rest : List Nat} {tables pages : Nat -> Bool}
    (h : pages v = false) :
    planRest (k + 1) v tables pages (f :: rest) =
      planRest k (v + 1) (mark tables (v / 1024)) (mark pages v)
        (if tables (v / 1024) then rest else rest.tail) := by
  show (if pages v = true then _ else _) = _
  rw [if_neg (Bool.eq_false_iff.mp h)]

theorem plan_skip {k v : Nat} {tables pages : Nat -> Bool} (h : pages v = true) :
    plan (k + 1) v tables pages free = plan k (v + 1) tables pages free := by
  show (if pages v = true then _ else _) = _
  rw [if_pos h]

theorem plan_take {k v f : Nat} {rest : List Nat} {tables pages : Nat -> Bool}
    (h : pages v = false) :
    plan (k + 1) v tables pages (f :: rest) =
      (v, f) :: plan k (v + 1) (mark tables (v / 1024)) (mark pages v)
        (if tables (v / 1024) then rest else rest.tail) := by
  show (if pages v = true then _ else _) = _
  rw [if_neg (Bool.eq_false_iff.mp h)]

theorem Served.page_cons {f k vaddr : Nat} {rest free1 free2 : List Nat} {s1 s2 : Phys}
    {L1 L2 : Layout} (hnone : L.page (vaddr / 4096) = none)
    (hpage : NewPage s f rest L vaddr s1 free1 L1)
    (hrest : Served s1 free1 L1 k (vaddr / 4096 + 1) s2 free2 L2) :
    Served s (f :: rest) L (k + 1) (vaddr / 4096) s2 free2 L2 := by
  have hhas := Layout.hasPage_of_none hnone
  constructor
  · exact hpage.grown.trans hrest.grown
  · intro w g
    rw [plan_take hhas, <- hpage.left, <- hpage.tables, <- hpage.hasPages, hrest.page, hpage.page,
      List.mem_cons, Prod.mk.injEq]
    constructor
    · intro hor
      rcases hor with (hnew | hold) | hplan
      · exact Or.inr (Or.inl hnew)
      · exact Or.inl hold
      · exact Or.inr (Or.inr hplan)
    · intro hor
      rcases hor with hold | hnew | hplan
      · exact Or.inl (Or.inr hold)
      · exact Or.inl (Or.inl hnew)
      · exact Or.inr hplan
  · intro w hlow hhigh
    by_cases hw : w = vaddr / 4096
    · have hsome := hrest.grown.keeps (Slot.page w) f ((hpage.page w f).mpr (Or.inl ⟨hw, rfl⟩))
      intro e
      have hnothing : L2.page w = some f := hsome
      rw [e] at hnothing
      cases hnothing
    · exact hrest.present w (by lia) (by lia)
  · rw [planRest_take hhas, <- hpage.left, <- hpage.tables, <- hpage.hasPages]
    exact hrest.left

theorem Served.page_skip {k v f : Nat} {s2 : Phys} {free2 : List Nat} {L2 : Layout}
    (hsome : L.page v = some f) (hrest : Served s free L k (v + 1) s2 free2 L2) :
    Served s free L (k + 1) v s2 free2 L2 := by
  constructor
  · exact hrest.grown
  · intro w g
    rw [plan_skip (Layout.hasPage_of_some hsome)]
    exact hrest.page w g
  · intro w hlow hhigh
    by_cases hw : w = v
    · have hkept : L2.page v = some f := hrest.grown.keeps (Slot.page v) f hsome
      rw [hw, hkept]
      exact Option.some_ne_none f
    · exact hrest.present w (by lia) (by lia)
  · rw [planRest_skip (Layout.hasPage_of_some hsome)]
    exact hrest.left

theorem pageCost_pos (tables : Nat -> Bool) (v : Nat) : 1 ≤ pageCost tables v := by
  unfold pageCost
  split <;> lia

/-- A frame is too little where the table is missing and the list ends. -/
theorem pageCost_short {tables : Nat -> Bool} {v f : Nat} {rest : List Nat}
    (h : Not (pageCost tables v ≤ (f :: rest).length)) :
    rest = [] ∧ tables (v / 1024) = false := by
  unfold pageCost at h
  cases hhas : tables (v / 1024) with
  | true =>
      rw [hhas, if_pos rfl, List.length_cons] at h
      lia
  | false =>
      cases rest with
      | nil => exact ⟨rfl, rfl⟩
      | cons g rest =>
          rw [hhas, if_neg Bool.false_ne_true, List.length_cons, List.length_cons] at h
          lia

theorem vallocNeed_some {k v f : Nat} (h : L.page v = some f) :
    vallocNeed (k + 1) v L.hasTable L.hasPage = 1 := by
  show (if L.hasPage v = true then _ else _) = _
  rw [if_pos (Layout.hasPage_of_some h)]

theorem vallocNeed_none {k v : Nat} (h : L.page v = none) :
    vallocNeed (k + 1) v L.hasTable L.hasPage = pageCost L.hasTable v +
      vallocNeed k (v + 1) (mark L.hasTable (v / 1024)) (mark L.hasPage v) := by
  show (if L.hasPage v = true then _ else _) = _
  rw [if_neg (Bool.eq_false_iff.mp (Layout.hasPage_of_none h))]

theorem growNeed_some {k v f : Nat} (h : L.page v = some f) :
    growNeed (k + 1) v L.hasTable L.hasPage = growNeed k (v + 1) L.hasTable L.hasPage := by
  show (if L.hasPage v = true then _ else _) = _
  rw [if_pos (Layout.hasPage_of_some h)]

theorem growNeed_none {k v : Nat} (h : L.page v = none) :
    growNeed (k + 1) v L.hasTable L.hasPage = pageCost L.hasTable v +
      growNeed k (v + 1) (mark L.hasTable (v / 1024)) (mark L.hasPage v) := by
  show (if L.hasPage v = true then _ else _) = _
  rw [if_neg (Bool.eq_false_iff.mp (Layout.hasPage_of_none h))]

theorem paddr_ne_zero {f : Nat} {rest : List Nat} (h : Sound s (f :: rest) L) : 4096 * f ≠ 0 := by
  rcases h.pool.inPool f List.mem_cons_self with ⟨hlow, -⟩
  lia

/-!
# The loop of `pgdir_valloc`
-/

theorem vallocFrom_step (k cnt : Nat) {f vaddr : Nat} {rest free' : List Nat} {s' : Phys}
    {L' : Layout}
    (h : Sound s (f :: rest) L) (hv : vaddr < kernelBase)
    (hpage : NewPage s f rest L vaddr s' free' L') :
    vallocFrom (kernelAddr L.dir) pgUser (k + 1) cnt vaddr s =
      vallocFrom (kernelAddr L'.dir) pgUser k (cnt + 1) (vaddr + 4096) s' := by
  have hdir : L'.dir = L.dir := hpage.grown.dir
  conv => lhs; unfold vallocFrom
  rw [h.pool.palloc_cons.left, ok_bind]
  dsimp only
  rw [if_neg (paddr_ne_zero h), hpage.run, ok_bind]
  dsimp only
  rw [if_pos rfl, wrap_next hv, hdir]

theorem next_page (vaddr : Nat) : (vaddr + 4096) / 4096 = vaddr / 4096 + 1 := by
  omega

/-- With enough frames the range is mapped, or the loop meets a page that is mapped. -/
theorem vallocFrom_enough (cnt : Nat) {k vaddr : Nat} (h : Sound s free L)
    (hrange : vaddr + 4096 * k ≤ kernelBase)
    (henough : vallocNeed k (vaddr / 4096) L.hasTable L.hasPage ≤ free.length) :
    (exists s' free' L', vallocFrom (kernelAddr L.dir) pgUser k cnt vaddr s = Except.ok (true, s') ∧
      Served s free L k (vaddr / 4096) s' free' L' ∧
      forall w, vaddr / 4096 ≤ w -> w < vaddr / 4096 + k -> L.page w = none) ∨
    ((exists w, vaddr / 4096 ≤ w ∧ w < vaddr / 4096 + k ∧ L.page w ≠ none) ∧
      exists s', vallocFrom (kernelAddr L.dir) pgUser k cnt vaddr s =
        Except.error (Stop.assertion, s') ∧ s'.exhausted = s.exhausted) := by
  induction k generalizing s free L cnt vaddr with
  | zero => exact Or.inl ⟨s, free, L, rfl, Served.nothing h _, fun w hlow hhigh => by lia⟩
  | succ k ih =>
      have hv : vaddr < kernelBase := by lia
      cases hold : L.page (vaddr / 4096) with
      | some g =>
          rw [vallocNeed_some hold] at henough
          cases free with
          | nil => cases henough
          | cons f rest =>
              right
              constructor
              · refine ⟨vaddr / 4096, by lia, by lia, ?_⟩
                rw [hold]
                exact Option.some_ne_none g
              · refine ⟨s.pop f, ?_, rfl⟩
                unfold vallocFrom
                rw [h.pool.palloc_cons.left, ok_bind]
                dsimp only
                rw [if_neg (paddr_ne_zero h), mapPage_of_page h.pop hv hold, error_bind]
      | none =>
          rw [vallocNeed_none hold] at henough
          have hcost := pageCost_pos L.hasTable (vaddr / 4096)
          cases free with
          | nil =>
              have hlen : ([] : List Nat).length = 0 := rfl
              lia
          | cons f rest =>
              rcases newPage h hv hold (by lia) with ⟨s1, free1, L1, hpage, hlen⟩
              have hneed : vallocNeed k ((vaddr + 4096) / 4096) L1.hasTable L1.hasPage ≤
                  free1.length := by
                rw [next_page, hpage.tables, hpage.hasPages]
                lia
              have hstep := vallocFrom_step k cnt h hv hpage
              rcases ih (cnt + 1) hpage.grown.sound (by lia) hneed with
                ⟨s2, free2, L2, hrun, hserved, hunmapped⟩ |
                ⟨⟨w, hlow, hhigh, hmapped⟩, s2, hrun, hex⟩
              · left
                rw [next_page] at hserved hunmapped
                refine ⟨s2, free2, L2, hstep.trans hrun, hserved.page_cons hold hpage, ?_⟩
                intro w hlow hhigh
                by_cases hw : w = vaddr / 4096
                · rw [hw]
                  exact hold
                · have hnone := hunmapped w (by lia) (by lia)
                  cases hmapped : L.page w with
                  | none => rfl
                  | some g =>
                      have hkept := (hpage.page w g).mpr (Or.inr hmapped)
                      rw [hnone] at hkept
                      cases hkept
              · right
                rw [next_page] at hlow hhigh
                constructor
                · refine ⟨w, by lia, by lia, ?_⟩
                  intro hnone
                  apply hmapped
                  cases hw : L1.page w with
                  | none => rfl
                  | some g =>
                      rcases (hpage.page w g).mp hw with ⟨hsame, -⟩ | hsome
                      · lia
                      · rw [hnone] at hsome
                        cases hsome
                · exact ⟨s2, hstep.trans hrun, hex.trans hpage.grown.exhausted⟩

theorem vallocFrom_dry {k cnt vaddr : Nat} (h : Sound s [] L) :
    EndsDry (vallocFrom (kernelAddr L.dir) pgUser (k + 1) cnt vaddr s) := by
  have hanswer : kernelBase ≠ 0 := by decide
  unfold vallocFrom
  rw [h.pool.palloc_nil, ok_bind]
  dsimp only
  rw [if_neg hanswer]
  refine (h.dry.mapPage _ vaddr kernelBase pgUser).bind ?_
  intro r hboth
  rcases r with ⟨mapped, s1⟩
  rcases hboth with ⟨hmapped, h1⟩
  dsimp only at hmapped h1 ⊢
  rw [if_pos hmapped]
  exact h1.vallocFrom _ _ _ _ _

/-- With too few frames the loop never reports that it failed. -/
theorem vallocFrom_short (cnt : Nat) {k vaddr : Nat} (h : Sound s free L)
    (hrange : vaddr + 4096 * k ≤ kernelBase)
    (hshort : free.length < vallocNeed k (vaddr / 4096) L.hasTable L.hasPage) :
    EndsDry (vallocFrom (kernelAddr L.dir) pgUser k cnt vaddr s) := by
  induction k generalizing s free L cnt vaddr with
  | zero => cases hshort
  | succ k ih =>
      have hv : vaddr < kernelBase := by lia
      cases free with
      | nil => exact vallocFrom_dry h
      | cons f rest =>
          cases hold : L.page (vaddr / 4096) with
          | some g =>
              rw [vallocNeed_some hold, List.length_cons] at hshort
              lia
          | none =>
              rw [vallocNeed_none hold] at hshort
              by_cases hcost : pageCost L.hasTable (vaddr / 4096) ≤ (f :: rest).length
              · rcases newPage h hv hold hcost with ⟨s1, free1, L1, hpage, hlen⟩
                rw [vallocFrom_step k cnt h hv hpage]
                apply ih _ hpage.grown.sound (by lia)
                rw [next_page, hpage.tables, hpage.hasPages]
                lia
              · rcases pageCost_short hcost with ⟨hrest, hnone⟩
                cases hrest
                unfold vallocFrom
                rw [h.pool.palloc_cons.left, ok_bind]
                dsimp only
                rw [if_neg (paddr_ne_zero h), newPage_short h hv hnone, error_bind]
                exact h.pop.dry

/-!
# The loop of `vm_grow_userheap`
-/

def rounds (brk ebrk : Nat) : Nat := (ebrk - brk + 4095) / 4096

theorem kernelAddr_ne_zero (f : Nat) : kernelAddr f ≠ 0 := by
  rw [kernelAddr_eq]
  omega

theorem pageFramePtr_some {vaddr f : Nat} (h : Sound s free L) (hv : vaddr < kernelBase)
    (hpage : L.page (vaddr / 4096) = some f) :
    pageFramePtr (kernelAddr L.dir) vaddr s = Except.ok (kernelAddr f) := by
  rcases vaddr_parts hv with ⟨hpde, -, hi, hj, hsum⟩
  rcases h.page_table hpage with ⟨-, t, ht⟩
  rw [<- hpde] at ht
  have htable : target (s.entry L.dir (pdeNr vaddr)) = some t := by
    rw [h.target_dir hi, ht]
  have hpte : target (s.entry t (pteNr vaddr)) = some f := by
    rw [h.target_table hi hj ht, hsum, hpage]
  unfold pageFramePtr
  rw [pageAt_kernelAddr h.dir_inPool, ok_bind, if_pos (target_some htable).left,
    tableAt_of_target htable (h.table_inPool ht), ok_bind, if_pos (target_some hpte).left,
    entryVaddr_of_target hpte (h.page_inPool hpage)]

theorem pageFramePtr_none {vaddr : Nat} (h : Sound s free L) (hv : vaddr < kernelBase)
    (hpage : L.page (vaddr / 4096) = none) :
    pageFramePtr (kernelAddr L.dir) vaddr s = Except.ok 0 := by
  rcases vaddr_parts hv with ⟨hpde, -, hi, hj, hsum⟩
  unfold pageFramePtr
  rw [pageAt_kernelAddr h.dir_inPool, ok_bind]
  cases ht : L.table (pdeNr vaddr) with
  | none => rw [if_neg (not_present h hi ht)]
  | some t =>
      have htable : target (s.entry L.dir (pdeNr vaddr)) = some t := by
        rw [h.target_dir hi, ht]
      have hpte : Not (isPresent (s.entry t (pteNr vaddr)) = true) := by
        apply Bool.eq_false_iff.mp
        apply (target_none_iff _).mp
        rw [h.target_table hi hj ht, hsum, hpage]
      rw [if_pos (target_some htable).left, tableAt_of_target htable (h.table_inPool ht), ok_bind,
        if_neg hpte]

theorem growFrom_stop {ebrk n brk : Nat} (h : ebrk ≤ brk) :
    growFrom (kernelAddr L.dir) ebrk n brk s = Except.ok (true, s) := by
  cases n with
  | zero => rfl
  | succ n =>
      unfold growFrom
      rw [if_neg (by lia)]

theorem growFrom_skip {ebrk n brk f : Nat} (h : Sound s free L) (hlt : brk < ebrk)
    (hv : brk < kernelBase) (hpage : L.page (brk / 4096) = some f) :
    growFrom (kernelAddr L.dir) ebrk (n + 1) brk s =
      growFrom (kernelAddr L.dir) ebrk n (brk + 4096) s := by
  conv => lhs; unfold growFrom
  rw [if_pos hlt, pageFramePtr_some h hv hpage, ok_bind, if_neg (kernelAddr_ne_zero f),
    wrap_next hv]

theorem growFrom_step {ebrk n brk f : Nat} {rest free' : List Nat} {s' : Phys} {L' : Layout}
    (h : Sound s (f :: rest) L) (hlt : brk < ebrk) (hv : brk < kernelBase)
    (hnone : L.page (brk / 4096) = none) (hpage : NewPage s f rest L brk s' free' L') :
    growFrom (kernelAddr L.dir) ebrk (n + 1) brk s =
      growFrom (kernelAddr L'.dir) ebrk n (brk + 4096) s' := by
  have hdir : L'.dir = L.dir := hpage.grown.dir
  conv => lhs; unfold growFrom
  rw [if_pos hlt, pageFramePtr_none h hv hnone, ok_bind, if_pos rfl, h.pool.palloc_cons.left,
    ok_bind]
  dsimp only
  rw [if_neg (paddr_ne_zero h), hpage.run, ok_bind]
  dsimp only
  rw [wrap_next hv, hdir]

theorem rounds_zero {brk ebrk : Nat} (h : rounds brk ebrk = 0) : ebrk ≤ brk := by
  unfold rounds at h
  omega

theorem rounds_succ {brk ebrk k : Nat} (h : rounds brk ebrk = k + 1) :
    brk < ebrk ∧ rounds (brk + 4096) ebrk = k := by
  unfold rounds at h ⊢
  omega

/-- With enough frames every page up to the new break is mapped. -/
theorem growFrom_enough {k n ebrk brk : Nat} (h : Sound s free L) (htop : ebrk < kernelBase)
    (hk : rounds brk ebrk = k) (hn : k ≤ n)
    (henough : growNeed k (brk / 4096) L.hasTable L.hasPage ≤ free.length) :
    exists s' free' L', growFrom (kernelAddr L.dir) ebrk n brk s = Except.ok (true, s') ∧
      Served s free L k (brk / 4096) s' free' L' := by
  induction k generalizing s free L n brk with
  | zero => exact ⟨s, free, L, growFrom_stop (rounds_zero hk), Served.nothing h _⟩
  | succ k ih =>
      rcases rounds_succ hk with ⟨hlt, hnext⟩
      have hv : brk < kernelBase := by lia
      cases n with
      | zero => cases hn
      | succ n =>
          cases hold : L.page (brk / 4096) with
          | some g =>
              rw [growNeed_some hold] at henough
              rw [<- next_page] at henough
              rcases ih h hnext (Nat.le_of_succ_le_succ hn) henough with
                ⟨s2, free2, L2, hrun, hserved⟩
              rw [next_page] at hserved
              exact ⟨s2, free2, L2, (growFrom_skip h hlt hv hold).trans hrun,
                hserved.page_skip hold⟩
          | none =>
              rw [growNeed_none hold] at henough
              have hcost := pageCost_pos L.hasTable (brk / 4096)
              cases free with
              | nil =>
                  have hlen : ([] : List Nat).length = 0 := rfl
                  lia
              | cons f rest =>
                  rcases newPage h hv hold (by lia) with ⟨s1, free1, L1, hpage, hlen⟩
                  have hneed : growNeed k ((brk + 4096) / 4096) L1.hasTable L1.hasPage ≤
                      free1.length := by
                    rw [next_page, hpage.tables, hpage.hasPages]
                    lia
                  have hstep := growFrom_step (n := n) h hlt hv hold hpage
                  rcases ih hpage.grown.sound hnext (Nat.le_of_succ_le_succ hn) hneed with
                    ⟨s2, free2, L2, hrun, hserved⟩
                  rw [next_page] at hserved
                  exact ⟨s2, free2, L2, hstep.trans hrun, hserved.page_cons hold hpage⟩

/-- With too few frames the loop never reports that it failed. -/
theorem growFrom_short {k n ebrk brk : Nat} (h : Sound s free L) (htop : ebrk < kernelBase)
    (hk : rounds brk ebrk = k) (hn : k ≤ n)
    (hshort : free.length < growNeed k (brk / 4096) L.hasTable L.hasPage) :
    EndsDry (growFrom (kernelAddr L.dir) ebrk n brk s) := by
  have hanswer : kernelBase ≠ 0 := by decide
  induction k generalizing s free L n brk with
  | zero => cases hshort
  | succ k ih =>
      rcases rounds_succ hk with ⟨hlt, hnext⟩
      have hv : brk < kernelBase := by lia
      cases n with
      | zero => cases hn
      | succ n =>
          cases hold : L.page (brk / 4096) with
          | some g =>
              rw [growNeed_some hold, <- next_page] at hshort
              rw [growFrom_skip h hlt hv hold]
              exact ih h hnext (by lia) hshort
          | none =>
              rw [growNeed_none hold] at hshort
              cases free with
              | nil =>
                  unfold growFrom
                  rw [if_pos hlt, pageFramePtr_none h hv hold, ok_bind, if_pos rfl,
                    h.pool.palloc_nil, ok_bind]
                  dsimp only
                  rw [if_neg hanswer]
                  refine (h.dry.mapPage _ brk kernelBase pgUser).bind ?_
                  intro r hboth
                  rcases r with ⟨mapped, s1⟩
                  rcases hboth with ⟨-, h1⟩
                  exact h1.growFrom _ _ _ _
              | cons f rest =>
                  by_cases hcost : pageCost L.hasTable (brk / 4096) ≤ (f :: rest).length
                  · rcases newPage h hv hold hcost with ⟨s1, free1, L1, hpage, hlen⟩
                    rw [growFrom_step h hlt hv hold hpage]
                    apply ih hpage.grown.sound hnext (by lia)
                    rw [next_page, hpage.tables, hpage.hasPages]
                    lia
                  · rcases pageCost_short hcost with ⟨hrest, hnone⟩
                    cases hrest
                    unfold growFrom
                    rw [if_pos hlt, pageFramePtr_none h hv hold, ok_bind, if_pos rfl,
                      h.pool.palloc_cons.left, ok_bind]
                    dsimp only
                    rw [if_neg (paddr_ne_zero h), newPage_short h hv hnone, error_bind]
                    exact h.pop.dry

end Ranges

end Vm
end Kernel
end NicoOS
