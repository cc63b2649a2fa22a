import NicoOS.Kernel.Kalloc.Tally
import NicoOS.Kernel.PipeCall.Model

/-!
# What the object allocator gives

A call of `kalloc` in any heap whose free objects and pages are aligned, and what it leaves
alone.
-/

namespace NicoOS
namespace Kernel
namespace PipeCall

open Lib

/-- Free objects lie on word boundaries, and free pages on page boundaries. -/
structure Aligned (heap : Kalloc.State) : Prop where
  head : forall i, (heap.blocks i).head % 4 = 0
  pool : forall page, page ∈ heap.pool ->
    page % Kalloc.pgSize = 0 ∧ 0 < page ∧ page + Kalloc.pgSize ≤ 0x100000000

/-- The answer of `kalloc`, and the parts of the heap that it may change. -/
structure Given (heap : Kalloc.State) (r : Nat × Kalloc.State) : Prop where
  aligned : r.1 % 4 = 0
  live : r.2.live = heap.live
  outside : r.2.outside = heap.outside
  pool : forall page, page ∈ r.2.pool -> page ∈ heap.pool

section Heap

variable {heap : Kalloc.State} {r : Nat × Kalloc.State}

/-- Every heap that keeps the invariant of the allocator is aligned. -/
theorem Aligned.of_seated {fl : Fin Kalloc.nblock -> List Nat} (h : Kalloc.Seated heap fl) :
    Aligned heap where
  head i := by
    have hchain := h.free.chain i
    cases hlist : fl i with
    | nil =>
        rw [hlist] at hchain
        rw [hchain]
    | cons obj os =>
        rw [hlist] at hchain
        have hobj : obj ∈ fl i := by
          rw [hlist]
          exact List.mem_cons_self
        rcases h.free.slot i obj hobj with ⟨page, hpage, hlow, -, hoffset⟩
        rw [hchain.left]
        have hproper := h.heap.pages.proper page (Kalloc.mem_allPages_of_pages hpage)
        have hsize := Kalloc.slotSize_bounds i
        have hdvd : 4 ∣ obj - page := Nat.dvd_trans (Nat.dvd_of_mod_eq_zero hsize.left)
          (Nat.dvd_of_mod_eq_zero hoffset)
        have hpg : page % 4096 = 0 := hproper.left
        lia
  pool page hpage := h.heap.pages.proper page
    (List.mem_append_right _ (List.mem_append_left _ hpage))

theorem getZeroedFreePage_given (h : Aligned heap) :
    Given heap (Kalloc.getZeroedFreePage heap) := by
  unfold Kalloc.getZeroedFreePage
  cases hpool : heap.pool with
  | nil =>
      refine ⟨rfl, rfl, rfl, ?_⟩
      intro page hpage
      cases hpage
  | cons page rest =>
      have hpage := h.pool page (hpool ▸ List.mem_cons_self)
      have hmod : page % 4096 = 0 := hpage.left
      refine ⟨?_, rfl, rfl, ?_⟩
      · show page % 4 = 0
        lia
      · intro x hx
        rw [hpool]
        exact List.mem_cons_of_mem page hx

theorem carve_dummyNext (page size fuel p obj : Nat) (c : Kalloc.Carve) :
    (Kalloc.carve page size fuel p (some obj) c).dummyNext = c.dummyNext := by
  induction fuel generalizing p obj c with
  | zero => rfl
  | succ fuel ih =>
      unfold Kalloc.carve
      split
      · exact ih _ _ _
      · rfl

/-- The list that the carving loop makes begins with the page. -/
theorem carve_first (page size : Nat) (mem : Memory) :
    (Kalloc.carve page size Kalloc.pgSize 0 none ⟨0, 0, mem⟩).dummyNext = page := by
  show (Kalloc.carve page size 4095 (0 + size) (some page) ⟨1, page, mem⟩).dummyNext = page
  rw [carve_dummyNext]

theorem popObj_given (h : Aligned heap) (i : Fin Kalloc.nblock) :
    Given heap (Kalloc.popObj heap i) := by
  have hhead := h.head i
  refine ⟨?_, rfl, rfl, fun page hpage => hpage⟩
  show ((heap.blocks i).head + 4) % 4 = 0
  lia

theorem allocNewObjs_given (h : Aligned heap) {i : Fin Kalloc.nblock} {served : Bool}
    {t : Kalloc.State} (hrun : Kalloc.allocNewObjs heap i = some (served, t)) :
    Aligned t ∧ Given heap (0, t) := by
  have hgiven := getZeroedFreePage_given h
  have hblocks : forall j, (Kalloc.getZeroedFreePage heap).2.blocks j = heap.blocks j := by
    intro j
    unfold Kalloc.getZeroedFreePage
    cases heap.pool with
    | nil => rfl
    | cons page rest => rfl
  unfold Kalloc.allocNewObjs at hrun
  generalize Kalloc.getZeroedFreePage heap = got at hgiven hblocks hrun
  dsimp only at hrun
  split at hrun
  · cases hrun
  · split at hrun
    · cases hrun
      refine ⟨⟨?_, ?_⟩, ⟨rfl, hgiven.live, hgiven.outside, hgiven.pool⟩⟩
      · intro j
        rw [hblocks j]
        exact h.head j
      · exact fun page hpage => h.pool page (hgiven.pool page hpage)
    · cases hrun
      refine ⟨⟨?_, ?_⟩, ⟨rfl, hgiven.live, hgiven.outside, hgiven.pool⟩⟩
      · intro j
        cases decEq j i with
        | isTrue heq =>
            rw [heq, Kalloc.setBlock_self]
            dsimp only
            rw [carve_first]
            exact hgiven.aligned
        | isFalse hne =>
            rw [Kalloc.setBlock_of_ne _ _ hne]
            dsimp only
            rw [hblocks j]
            exact h.head j
      · exact fun page hpage => h.pool page (hgiven.pool page hpage)

theorem fetchObjFromBlock_given (h : Aligned heap) {i : Fin Kalloc.nblock}
    (hrun : Kalloc.fetchObjFromBlock heap i = some r) :
    Given heap r ∧ (r.1 = 0 -> Aligned r.2) := by
  have hpop : forall heap', Aligned heap' -> (Kalloc.popObj heap' i).1 ≠ 0 :=
    fun _ _ => Nat.succ_ne_zero _
  unfold Kalloc.fetchObjFromBlock at hrun
  split at hrun
  · split at hrun
    · cases hrun
    · rename_i halloc
      cases hrun
      rcases allocNewObjs_given h halloc with ⟨haligned, hgiven⟩
      exact ⟨hgiven, fun _ => haligned⟩
    · rename_i t halloc
      cases hrun
      rcases allocNewObjs_given h halloc with ⟨haligned, hgiven⟩
      have hserved := popObj_given haligned i
      refine ⟨⟨hserved.aligned, hgiven.live, hgiven.outside, hgiven.pool⟩, ?_⟩
      exact fun hzero => absurd hzero (hpop t haligned)
  · cases hrun
    exact ⟨popObj_given h i, fun hzero => absurd hzero (hpop heap h)⟩

theorem fetchFrom_given (h : Aligned heap) {n : Nat} (is : List (Fin Kalloc.nblock))
    (hrun : Kalloc.fetchFrom n is heap = some r) : Given heap r := by
  induction is generalizing heap with
  | nil =>
      cases hrun
      exact ⟨rfl, rfl, rfl, fun _ hpage => hpage⟩
  | cons i rest ih =>
      unfold Kalloc.fetchFrom at hrun
      split at hrun
      · split at hrun
        · cases hrun
        · rename_i ptr t hfetch
          rcases fetchObjFromBlock_given h hfetch with ⟨hgiven, haligned⟩
          split at hrun
          · rename_i hzero
            have hrest := ih (haligned hzero) hrun
            refine ⟨hrest.aligned, hrest.live.trans hgiven.live,
              hrest.outside.trans hgiven.outside, ?_⟩
            exact fun page hpage => hgiven.pool page (hrest.pool page hpage)
          · cases hrun
            exact hgiven
      · exact ih h hrun

theorem kalloc_given (h : Aligned heap)
    (hrun : Kalloc.kalloc pipeSize false heap = some r) : Given heap r :=
  fetchFrom_given h (List.finRange Kalloc.nblock) hrun

theorem kfree_outside {ptr : Nat} {heap' : Kalloc.State}
    (hrun : Kalloc.kfree ptr false heap = some heap') : heap'.outside = heap.outside := by
  unfold Kalloc.kfree at hrun
  split at hrun
  · cases hrun
    rfl
  · rw [if_neg Bool.false_ne_true] at hrun
    dsimp only at hrun
    split at hrun
    · cases hrun
      rfl
    · cases hrun

end Heap

end PipeCall
end Kernel
end NicoOS
