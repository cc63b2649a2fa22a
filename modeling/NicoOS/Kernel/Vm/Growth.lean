import NicoOS.Kernel.Vm.Mapping

/-!
# Growing address spaces

`pgdir_valloc` and `vm_grow_userheap` on a sound address space: how many frames they
take, which page gets which frame, and what they leave alone.
-/

namespace NicoOS
namespace Kernel
namespace Vm

open Lib

/-!
# What an address space keeps while it grows
-/

structure Extends (s : Phys) (free : List Nat) (L : Layout) (s' : Phys) (free' : List Nat)
    (L' : Layout) : Prop where
  sound : Sound s' free' L'
  dir : L'.dir = L.dir
  keeps : forall x f, L.frame x = some f -> L'.frame x = some f
  fresh : forall x f, L'.frame x = some f -> L.frame x = some f ∨ f ∈ free
  taken : forall f, f ∈ free' -> f ∈ free
  idle : forall f, f ∈ free' -> s'.frame f = s.frame f
  pages : forall v f, L'.page v = some f -> s'.frame f = s.frame f
  others : forall f, L.Unused f -> Not (f ∈ free) -> s'.frame f = s.frame f
  exhausted : s'.exhausted = s.exhausted

namespace Extends

variable {s s1 s2 : Phys} {free free1 free2 : List Nat} {L L1 L2 : Layout}

theorem refl (h : Sound s free L) : Extends s free L s free L where
  sound := h
  dir := rfl
  keeps _ _ hx := hx
  fresh _ _ hx := Or.inl hx
  taken _ hf := hf
  idle _ _ := rfl
  pages _ _ _ := rfl
  others _ _ _ := rfl
  exhausted := rfl

theorem trans (h : Extends s free L s1 free1 L1) (h1 : Extends s1 free1 L1 s2 free2 L2) :
    Extends s free L s2 free2 L2 where
  sound := h1.sound
  dir := h1.dir.trans h.dir
  keeps x f hx := h1.keeps x f (h.keeps x f hx)
  fresh x f hx := by
    rcases h1.fresh x f hx with hold | hfree
    · exact h.fresh x f hold
    · exact Or.inr (h.taken f hfree)
  taken f hf := h.taken f (h1.taken f hf)
  idle f hf := (h1.idle f hf).trans (h.idle f (h1.taken f hf))
  pages v f hv := by
    have hsame := h1.pages v f hv
    rcases h1.fresh (Slot.page v) f hv with hold | hfree
    · exact hsame.trans (h.pages v f hold)
    · exact hsame.trans (h.idle f hfree)
  others f hunused hfree := by
    have hunused1 : L1.Unused f := by
      intro x hx
      rcases h.fresh x f hx with hold | hmem
      · exact hunused x hold
      · exact hfree hmem
    have hfree1 : Not (f ∈ free1) := fun hmem => hfree (h.taken f hmem)
    exact (h1.others f hunused1 hfree1).trans (h.others f hunused hfree)
  exhausted := h1.exhausted.trans h.exhausted

end Extends

/-!
# Frames that a range of pages needs
-/

def mark (p : Nat -> Bool) (i : Nat) : Nat -> Bool := fun k => if k = i then true else p k

theorem mark_of_true {p : Nat -> Bool} {i : Nat} (h : p i = true) : mark p i = p := by
  funext k
  unfold mark
  split
  · rename_i hk
    rw [hk, h]
  · rfl

/-- The frames for a new page, with the one for its table. -/
def pageCost (tables : Nat -> Bool) (v : Nat) : Nat := if tables (v / 1024) then 1 else 2

/-- The frames that `pgdir_valloc` takes; it stops at a page that is mapped. -/
def vallocNeed : Nat -> Nat -> (Nat -> Bool) -> (Nat -> Bool) -> Nat
  | 0, _, _, _ => 0
  | k + 1, v, tables, pages =>
      if pages v then 1
      else pageCost tables v + vallocNeed k (v + 1) (mark tables (v / 1024)) (mark pages v)

/-- The frames that `vm_grow_userheap` takes; it passes over pages that are mapped. -/
def growNeed : Nat -> Nat -> (Nat -> Bool) -> (Nat -> Bool) -> Nat
  | 0, _, _, _ => 0
  | k + 1, v, tables, pages =>
      if pages v then growNeed k (v + 1) tables pages
      else pageCost tables v + growNeed k (v + 1) (mark tables (v / 1024)) (mark pages v)

/-- The frame of the free list behind each page that a range gets. -/
def plan : Nat -> Nat -> (Nat -> Bool) -> (Nat -> Bool) -> List Nat -> List (Nat × Nat)
  | 0, _, _, _, _ => []
  | k + 1, v, tables, pages, free =>
      if pages v then plan k (v + 1) tables pages free
      else
        match free with
        | [] => []
        | f :: rest =>
            (v, f) :: plan k (v + 1) (mark tables (v / 1024)) (mark pages v)
              (if tables (v / 1024) then rest else rest.tail)

/-- The tables, the pages and the free frames behind a range that gets its frames. -/
def planRest : Nat -> Nat -> (Nat -> Bool) -> (Nat -> Bool) -> List Nat ->
    (Nat -> Bool) × (Nat -> Bool) × List Nat
  | 0, _, tables, pages, free => (tables, pages, free)
  | k + 1, v, tables, pages, free =>
      if pages v then planRest k (v + 1) tables pages free
      else
        match free with
        | [] => (tables, pages, [])
        | _ :: rest =>
            planRest k (v + 1) (mark tables (v / 1024)) (mark pages v)
              (if tables (v / 1024) then rest else rest.tail)

namespace Layout

def hasTable (L : Layout) (i : Nat) : Bool := (L.table i).isSome

def hasPage (L : Layout) (v : Nat) : Bool := (L.page v).isSome

theorem hasTable_setTable (L : Layout) (i t : Nat) :
    (L.setTable i t).hasTable = mark L.hasTable i := by
  funext k
  unfold hasTable mark
  show (if k = i then some t else L.table k).isSome = _
  split <;> rfl

theorem hasPage_setPage (L : Layout) (v f : Nat) :
    (L.setPage v f).hasPage = mark L.hasPage v := by
  funext w
  unfold hasPage mark
  show (if w = v then some f else L.page w).isSome = _
  split <;> rfl

theorem hasTable_of_some {L : Layout} {i t : Nat} (h : L.table i = some t) :
    L.hasTable i = true := by
  unfold hasTable
  rw [h]
  rfl

theorem hasTable_of_none {L : Layout} {i : Nat} (h : L.table i = none) :
    L.hasTable i = false := by
  unfold hasTable
  rw [h]
  rfl

theorem hasPage_of_some {L : Layout} {v f : Nat} (h : L.page v = some f) :
    L.hasPage v = true := by
  unfold hasPage
  rw [h]
  rfl

theorem hasPage_of_none {L : Layout} {v : Nat} (h : L.page v = none) : L.hasPage v = false := by
  unfold hasPage
  rw [h]
  rfl

end Layout

/-!
# One page
-/

theorem vaddr_parts {vaddr : Nat} (h : vaddr < kernelBase) :
    pdeNr vaddr = vaddr / 4096 / 1024 ∧ pteNr vaddr = vaddr / 4096 % 1024 ∧
      pdeNr vaddr < 512 ∧ pteNr vaddr < 1024 ∧
      1024 * pdeNr vaddr + pteNr vaddr = vaddr / 4096 := by
  rw [kernelBase_eq] at h
  unfold pdeNr pteNr pgSize
  omega

theorem wrap_next {vaddr : Nat} (h : vaddr < kernelBase) :
    wrap (vaddr + pgSize) = vaddr + 4096 := by
  rw [kernelBase_eq] at h
  rw [wrap_eq]
  unfold pgSize
  omega

section Page

variable {s : Phys} {free : List Nat} {L : Layout}

theorem addTable_ready (h : Sound s free L) {i t : Nat} (ht : L.table i = some t) :
    addTable L.dir i s = Except.ok (true, s) := by
  have htarget : target (s.entry L.dir i) = some t := by
    rw [h.target_dir (h.table_lt ht), ht]
  unfold addTable
  rw [if_pos (target_some htarget).left]

theorem not_present (h : Sound s free L) {i : Nat} (hi : i < 512) (hnone : L.table i = none) :
    Not (isPresent (s.entry L.dir i) = true) := by
  apply Bool.eq_false_iff.mp
  apply (target_none_iff _).mp
  rw [h.target_dir hi, hnone]

/-- The kernel's view of what `palloc` answers for an empty list is `NULL`. -/
theorem pageAt_kernelBase (s : Phys) :
    pageAt (kp2v kernelBase) s = Except.error (Stop.fault, s) := by
  have hout : Not (kernelBase ≤ kp2v kernelBase ∧ kp2v kernelBase < vmemoryTop) := by
    rw [kp2v_eq, kernelBase_eq]
    omega
  unfold pageAt
  rw [if_neg hout]

/-- The state behind a table taken from the list. -/
def withTable (s : Phys) (d i t : Nat) : Phys := ((s.pop t).clear t).setEntry d i (link t)

theorem addTable_new {t : Nat} {rest : List Nat} (h : Sound s (t :: rest) L) {i : Nat}
    (hi : i < 512) (hnone : L.table i = none) :
    addTable L.dir i s = Except.ok (true, withTable s L.dir i t) ∧
      Sound (withTable s L.dir i t) rest (L.setTable i t) := by
  have ht := h.pool.inPool t List.mem_cons_self
  have hzero : 4096 * t ≠ 0 := by
    rcases ht with ⟨hlow, -⟩
    lia
  have hfree := (List.nodup_cons.mp h.pool.nodup).left
  have hnew := h.unused_of_free (List.mem_cons_self : t ∈ t :: rest)
  constructor
  · unfold addTable
    rw [if_neg (not_present h hi hnone), h.pool.palloc_cons.left, ok_bind]
    dsimp only
    rw [if_neg hzero, pageAt_paddr ht, ok_bind]
    rfl
  · exact h.pop.setTable hi hnone ht hfree hnew

theorem addTable_empty (h : Sound s [] L) {i : Nat} (hi : i < 512) (hnone : L.table i = none) :
    addTable L.dir i s = Except.error (Stop.fault, { s with exhausted := true }) := by
  have hanswer : kernelBase ≠ 0 := by decide
  unfold addTable
  rw [if_neg (not_present h hi hnone), h.pool.palloc_nil, ok_bind]
  dsimp only
  rw [if_neg hanswer, pageAt_kernelBase, error_bind]

theorem mapPage_of_table {s1 : Phys} {free1 : List Nat} {L1 : Layout} {vaddr f t : Nat}
    (h : Sound s free L) (hv : vaddr < kernelBase)
    (hready : addTable L.dir (pdeNr vaddr) s = Except.ok (true, s1)) (h1 : Sound s1 free1 L1)
    (hdir : L1.dir = L.dir) (ht : L1.table (pdeNr vaddr) = some t)
    (hnone : L1.page (vaddr / 4096) = none) :
    mapPage (kernelAddr L.dir) vaddr (4096 * f) pgUser s =
      Except.ok (true, s1.setEntry t (pteNr vaddr) (link f)) := by
  rcases vaddr_parts hv with ⟨-, -, hi, hj, hsum⟩
  have halign : 4096 * f % pgSize = 0 := Nat.mul_mod_right 4096 f
  have htable : target (s1.entry L.dir (pdeNr vaddr)) = some t := by
    rw [<- hdir, h1.target_dir hi, ht]
  have hpte : Not (isPresent (s1.entry t (pteNr vaddr)) = true) := by
    apply Bool.eq_false_iff.mp
    apply (target_none_iff _).mp
    rw [h1.target_table hi hj ht, hsum, hnone]
  unfold mapPage
  rw [if_pos halign, pageAt_kernelAddr h.dir_inPool, ok_bind, hready, ok_bind]
  dsimp only
  rw [if_pos rfl, tableAt_of_target htable (h1.table_inPool ht), ok_bind, if_neg hpte]
  rfl

theorem mapPage_of_page {vaddr paddr attr f : Nat} (h : Sound s free L) (hv : vaddr < kernelBase)
    (hpage : L.page (vaddr / 4096) = some f) :
    mapPage (kernelAddr L.dir) vaddr paddr attr s = Except.error (Stop.assertion, s) := by
  rcases vaddr_parts hv with ⟨hpde, -, hi, hj, hsum⟩
  rcases h.page_table hpage with ⟨-, t, ht⟩
  rw [<- hpde] at ht
  have htable : target (s.entry L.dir (pdeNr vaddr)) = some t := by
    rw [h.target_dir hi, ht]
  have hpte : isPresent (s.entry t (pteNr vaddr)) = true := by
    have hsome : target (s.entry t (pteNr vaddr)) = some f := by
      rw [h.target_table hi hj ht, hsum, hpage]
    exact (target_some hsome).left
  unfold mapPage
  split
  · rw [pageAt_kernelAddr h.dir_inPool, ok_bind, addTable_ready h ht, ok_bind]
    dsimp only
    rw [if_pos rfl, tableAt_of_target htable (h.table_inPool ht), ok_bind, if_pos hpte]
  · rfl

theorem mapPage_of_fault {vaddr f : Nat} {e : Stop × Phys} (h : Sound s free L)
    (hstop : addTable L.dir (pdeNr vaddr) s = Except.error e) :
    mapPage (kernelAddr L.dir) vaddr (4096 * f) pgUser s = Except.error e := by
  have halign : 4096 * f % pgSize = 0 := Nat.mul_mod_right 4096 f
  unfold mapPage
  rw [if_pos halign, pageAt_kernelAddr h.dir_inPool, ok_bind, hstop, error_bind]

/-- The answer of `map_page` for the first free frame, where the frames suffice. -/
structure NewPage (s : Phys) (f : Nat) (rest : List Nat) (L : Layout) (vaddr : Nat) (s' : Phys)
    (free' : List Nat) (L' : Layout) : Prop where
  run : mapPage (kernelAddr L.dir) vaddr (4096 * f) pgUser (s.pop f) = Except.ok (true, s')
  grown : Extends s (f :: rest) L s' free' L'
  left : free' = if L.hasTable (vaddr / 4096 / 1024) then rest else rest.tail
  tables : L'.hasTable = mark L.hasTable (vaddr / 4096 / 1024)
  hasPages : L'.hasPage = mark L.hasPage (vaddr / 4096)
  page : forall w g, L'.page w = some g <->
    (w = vaddr / 4096 ∧ g = f) ∨ L.page w = some g

theorem setPage_page {v f w g : Nat} (hnone : L.page v = none) :
    (L.setPage v f).page w = some g <-> (w = v ∧ g = f) ∨ L.page w = some g := by
  constructor
  · intro h
    rcases Layout.setPage_frame (x := Slot.page w) h with ⟨hw, hg⟩ | hold
    · cases hw
      exact Or.inl ⟨rfl, hg⟩
    · exact Or.inr hold
  · intro hor
    rcases hor with ⟨hw, hg⟩ | hold
    · rw [hw, hg]
      exact if_pos rfl
    · exact Layout.frame_setPage (x := Slot.page w) hnone hold

theorem newPage_ready {f t vaddr : Nat} {rest : List Nat} (h : Sound s (f :: rest) L)
    (hv : vaddr < kernelBase) (hnone : L.page (vaddr / 4096) = none)
    (ht : L.table (pdeNr vaddr) = some t) :
    NewPage s f rest L vaddr ((s.pop f).setEntry t (pteNr vaddr) (link f)) rest
      (L.setPage (vaddr / 4096) f) := by
  rcases vaddr_parts hv with ⟨hpde, -, hi, hj, hsum⟩
  have hf := h.pool.inPool f List.mem_cons_self
  have hfree := (List.nodup_cons.mp h.pool.nodup).left
  have hnew := h.unused_of_free (List.mem_cons_self : f ∈ f :: rest)
  have hhas : L.hasTable (vaddr / 4096 / 1024) = true :=
    Layout.hasTable_of_some (hpde ▸ ht)
  have hsound := h.pop.setPage hj ht hf hfree hnew
  rw [hsum] at hsound
  have hne : forall g, g ≠ t -> ((s.pop f).setEntry t (pteNr vaddr) (link f)).frame g = s.frame g :=
    fun g hg => setEntry_of_ne hg
  constructor
  · exact mapPage_of_table h.pop hv (addTable_ready h.pop ht) h.pop rfl ht hnone
  · constructor
    · exact hsound
    · rfl
    · exact fun x g hx => Layout.frame_setPage hnone hx
    · intro x g hx
      rcases Layout.setPage_frame hx with ⟨-, hg⟩ | hold
      · exact Or.inr (hg ▸ List.mem_cons_self)
      · exact Or.inl hold
    · exact fun g hg => List.mem_cons_of_mem f hg
    · intro g hg
      exact hne g (fun e => h.used (Slot.table _) t ht (e ▸ List.mem_cons_of_mem f hg))
    · intro w g hw
      apply hne
      intro e
      have hslot := hsound.own (Slot.page w) (Slot.table (pdeNr vaddr)) g hw (e ▸ ht)
      cases hslot
    · intro g hunused _
      exact hne g (fun e => hunused (Slot.table _) (e ▸ ht))
    · rfl
  · rw [if_pos hhas]
  · rw [mark_of_true hhas]
    rfl
  · exact Layout.hasPage_setPage L _ f
  · exact fun w g => setPage_page hnone

theorem newPage_new {f t vaddr : Nat} {rest : List Nat} (h : Sound s (f :: t :: rest) L)
    (hv : vaddr < kernelBase) (hnone : L.page (vaddr / 4096) = none)
    (htable : L.table (pdeNr vaddr) = none) :
    NewPage s f (t :: rest) L vaddr
      ((withTable (s.pop f) L.dir (pdeNr vaddr) t).setEntry t (pteNr vaddr) (link f)) rest
      ((L.setTable (pdeNr vaddr) t).setPage (vaddr / 4096) f) := by
  rcases vaddr_parts hv with ⟨hpde, -, hi, hj, hsum⟩
  have hf := h.pool.inPool f List.mem_cons_self
  have hnodup := List.nodup_cons.mp h.pool.nodup
  have hft : f ≠ t := fun e => hnodup.left (e ▸ List.mem_cons_self)
  have hfree : Not (f ∈ rest) := fun hmem => hnodup.left (List.mem_cons_of_mem t hmem)
  have hhas : L.hasTable (vaddr / 4096 / 1024) = false :=
    Layout.hasTable_of_none (hpde ▸ htable)
  rcases addTable_new h.pop hi htable with ⟨hready, hsound1⟩
  have hslot : (L.setTable (pdeNr vaddr) t).table (pdeNr vaddr) = some t := if_pos rfl
  have hnew : (L.setTable (pdeNr vaddr) t).Unused f := by
    intro x hx
    rcases Layout.setTable_frame hx with ⟨-, e⟩ | hold
    · exact hft e
    · exact h.used x f hold List.mem_cons_self
  have hsound := hsound1.setPage hj hslot hf hfree hnew
  rw [hsum] at hsound
  have hnone1 : (L.setTable (pdeNr vaddr) t).page (vaddr / 4096) = none := hnone
  have hne : forall g, g ≠ t -> g ≠ L.dir ->
      ((withTable (s.pop f) L.dir (pdeNr vaddr) t).setEntry t (pteNr vaddr) (link f)).frame g =
        s.frame g := by
    intro g hgt hgd
    rw [setEntry_of_ne hgt]
    unfold withTable
    rw [setEntry_of_ne hgd, clear_of_ne hgt]
    rfl
  constructor
  · exact mapPage_of_table h.pop hv hready hsound1 rfl hslot hnone1
  · constructor
    · exact hsound
    · rfl
    · exact fun x g hx => Layout.frame_setPage hnone1 (Layout.frame_setTable htable hx)
    · intro x g hx
      rcases Layout.setPage_frame hx with ⟨-, hg⟩ | hold
      · exact Or.inr (hg ▸ List.mem_cons_self)
      · rcases Layout.setTable_frame hold with ⟨-, hg⟩ | hold
        · exact Or.inr (hg ▸ List.mem_cons_of_mem f List.mem_cons_self)
        · exact Or.inl hold
    · exact fun g hg => List.mem_cons_of_mem f (List.mem_cons_of_mem t hg)
    · intro g hg
      apply hne g
      · exact fun e => (List.nodup_cons.mp hnodup.right).left (e ▸ hg)
      · intro e
        exact h.used Slot.dir L.dir rfl
          (e ▸ List.mem_cons_of_mem f (List.mem_cons_of_mem t hg))
    · intro w g hw
      apply hne
      · intro e
        have hsame := hsound.own (Slot.page w) (Slot.table (pdeNr vaddr)) g hw (e ▸ hslot)
        cases hsame
      · intro e
        have hsame := hsound.own (Slot.page w) Slot.dir g hw (congrArg some e.symm)
        cases hsame
    · intro g hunused hg
      apply hne g
      · exact fun e => hg (e ▸ List.mem_cons_of_mem f List.mem_cons_self)
      · exact fun e => hunused Slot.dir (congrArg some e.symm)
    · rfl
  · rw [hhas]
    rfl
  · rw [<- hpde]
    exact Layout.hasTable_setTable L _ t
  · exact Layout.hasPage_setPage (L.setTable _ t) _ f
  · exact fun w g => setPage_page hnone1

theorem newPage {f vaddr : Nat} {rest : List Nat} (h : Sound s (f :: rest) L)
    (hv : vaddr < kernelBase) (hnone : L.page (vaddr / 4096) = none)
    (henough : pageCost L.hasTable (vaddr / 4096) ≤ (f :: rest).length) :
    exists s' free' L', NewPage s f rest L vaddr s' free' L' ∧
      free'.length + pageCost L.hasTable (vaddr / 4096) = (f :: rest).length := by
  rcases vaddr_parts hv with ⟨hpde, -⟩
  unfold pageCost at henough ⊢
  cases ht : L.table (pdeNr vaddr) with
  | some t =>
      rw [if_pos (Layout.hasTable_of_some (hpde ▸ ht))]
      exact ⟨_, _, _, newPage_ready h hv hnone ht, rfl⟩
  | none =>
      have hhas := Layout.hasTable_of_none (hpde ▸ ht)
      rw [hhas] at henough ⊢
      cases rest with
      | nil =>
          have hlen : 2 ≤ 1 := henough
          lia
      | cons t rest => exact ⟨_, _, _, newPage_new h hv hnone ht, rfl⟩

theorem newPage_short {f vaddr : Nat} (h : Sound s [f] L) (hv : vaddr < kernelBase)
    (ht : L.hasTable (vaddr / 4096 / 1024) = false) :
    mapPage (kernelAddr L.dir) vaddr (4096 * f) pgUser (s.pop f) =
      Except.error (Stop.fault, { s.pop f with exhausted := true }) := by
  rcases vaddr_parts hv with ⟨hpde, -, hi, -⟩
  have hnone : L.table (pdeNr vaddr) = none := by
    cases hsome : L.table (pdeNr vaddr) with
    | none => rfl
    | some t =>
        rw [Layout.hasTable_of_some (hpde ▸ hsome)] at ht
        cases ht
  exact mapPage_of_fault h.pop (addTable_empty h.pop hi hnone)

end Page

end Vm
end Kernel
end NicoOS
