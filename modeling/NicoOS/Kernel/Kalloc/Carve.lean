import NicoOS.Kernel.Kalloc.Model

/-!
# What the carving loop leaves behind

The loop threads the descriptors of a fresh page into one list, in the order of
their addresses, and writes nothing outside the page.
-/

namespace NicoOS
namespace Kernel
namespace Kalloc

open Lib

/-- The descriptors that the loop visits from offset `p` on. -/
def slotsFrom (page size : Nat) : Nat -> Nat -> List Nat
  | 0, _ => []
  | fuel + 1, p =>
      if p < pgSize then
        (page + p) :: slotsFrom page size fuel (p + size)
      else
        []

theorem mem_slotsFrom {page size fuel p obj : Nat} (hp : p % size = 0)
    (h : obj ∈ slotsFrom page size fuel p) :
    obj < page + pgSize ∧ (obj - page) % size = 0 := by
  induction fuel generalizing p with
  | zero => cases h
  | succ fuel ih =>
      unfold slotsFrom at h
      split at h
      · rename_i hlt
        rcases List.mem_cons.mp h with rfl | hrest
        · refine ⟨by lia, ?_⟩
          rw [Nat.add_sub_cancel_left]
          exact hp
        · have hnext : (p + size) % size = 0 := by
            rw [Nat.add_mod_right]
            exact hp
          exact ih hnext hrest
      · cases h

theorem slotsFrom_low {page size fuel p obj : Nat}
    (h : obj ∈ slotsFrom page size fuel p) : page + p ≤ obj := by
  induction fuel generalizing p with
  | zero => cases h
  | succ fuel ih =>
      unfold slotsFrom at h
      split at h
      · rcases List.mem_cons.mp h with rfl | hrest
        · exact Nat.le_refl _
        · have htail := ih hrest
          lia
      · cases h

theorem slotsFrom_high {page size fuel p obj : Nat} (halign : size % 4 = 0)
    (hp : p % 4 = 0) (h : obj ∈ slotsFrom page size fuel p) :
    obj + 4 ≤ page + pgSize := by
  induction fuel generalizing p with
  | zero => cases h
  | succ fuel ih =>
      unfold slotsFrom at h
      split at h
      · rename_i hlt
        rcases List.mem_cons.mp h with rfl | hrest
        · unfold pgSize at hlt ⊢
          lia
        · exact ih (by lia) hrest
      · cases h

theorem slotsFrom_nodup {page size : Nat} (hsize : 0 < size) (fuel p : Nat) :
    (slotsFrom page size fuel p).Nodup := by
  induction fuel generalizing p with
  | zero => exact List.nodup_nil
  | succ fuel ih =>
      unfold slotsFrom
      split
      · refine List.nodup_cons.mpr ⟨?_, ih (p + size)⟩
        intro hmem
        have hlow := slotsFrom_low hmem
        lia
      · exact List.nodup_nil

theorem slotsFrom_length_le (page size fuel p : Nat) :
    (slotsFrom page size fuel p).length ≤ fuel := by
  induction fuel generalizing p with
  | zero => exact Nat.le_refl 0
  | succ fuel ih =>
      unfold slotsFrom
      split
      · have htail := ih (p + size)
        rw [List.length_cons]
        lia
      · exact Nat.zero_le _

section Loop

variable {page size : Nat}

theorem carve_some (hsize : 4 ≤ size) (halign : size % 4 = 0)
    (hpage : page + pgSize ≤ 0x100000000) (fuel p obj : Nat) (c : Carve)
    (hp : p % 4 = 0) (hobj : obj + 4 ≤ page + p) (hin : obj + 4 ≤ page + pgSize)
    (hwords : forall a, a ∈ obj :: slotsFrom page size fuel p -> c.mem.word a = 0) :
    (carve page size fuel p (some obj) c).cnt =
        c.cnt + (slotsFrom page size fuel p).length ∧
      (carve page size fuel p (some obj) c).dummyNext = c.dummyNext ∧
      Memory.Chain (carve page size fuel p (some obj) c).mem obj
        (obj :: slotsFrom page size fuel p) ∧
      (forall a, a < obj ∨ page + pgSize ≤ a ->
        (carve page size fuel p (some obj) c).mem a = c.mem a) := by
  induction fuel generalizing p obj c with
  | zero => exact ⟨rfl, rfl, ⟨rfl, hwords obj List.mem_cons_self⟩, fun _ _ => rfl⟩
  | succ fuel ih =>
      unfold carve slotsFrom
      unfold slotsFrom at hwords
      split
      · rename_i hlt
        rw [if_pos hlt] at hwords
        have hnext : page + p + 4 ≤ page + (p + size) := by lia
        have hzero : forall a,
            a ∈ (page + p) :: slotsFrom page size fuel (p + size) ->
              (c.link (some obj) (page + p)).mem.word a = 0 := by
          intro a ha
          have hlow : page + p ≤ a := by
            rcases List.mem_cons.mp ha with rfl | hrest
            · exact Nat.le_refl _
            · have htail := slotsFrom_low hrest
              lia
          show (c.mem.setWord obj (page + p)).word a = 0
          rw [Memory.word_setWord_of_apart _ _ (Or.inr (by lia))]
          exact hwords a (List.mem_cons_of_mem obj ha)
        have hinside : page + p + 4 ≤ page + pgSize := by
          unfold pgSize at hlt ⊢
          lia
        rcases ih (p + size) (page + p) (c.link (some obj) (page + p)) (by lia)
          hnext hinside hzero with ⟨hcnt, hdummy, hchain, hframe⟩
        have hlink : (carve page size fuel (p + size) (some (page + p))
            (c.link (some obj) (page + p))).mem.word obj = page + p := by
          rw [Memory.word_congr (fun a _ ha => hframe a (Or.inl (by lia)))]
          exact Memory.word_setWord_self c.mem obj (by lia)
        refine ⟨?_, ?_, ?_, ?_⟩
        · rw [hcnt, List.length_cons]
          show c.cnt + 1 + _ = _
          lia
        · exact hdummy
        · refine ⟨rfl, ?_⟩
          rw [hlink]
          exact hchain
        · intro a ha
          rw [hframe a (by lia)]
          exact Memory.setWord_of_outside c.mem _ (by lia)
      · rename_i hge
        rw [if_neg hge] at hwords
        exact ⟨rfl, rfl, ⟨rfl, hwords obj List.mem_cons_self⟩, fun _ _ => rfl⟩

theorem carve_page (hsize : 4 ≤ size) (halign : size % 4 = 0)
    (hpage : page + pgSize ≤ 0x100000000) (mem : Memory)
    (hzero : forall a, page ≤ a -> a + 4 ≤ page + pgSize -> mem.word a = 0) :
    (carve page size pgSize 0 none ⟨0, 0, mem⟩).cnt =
        (slotsFrom page size pgSize 0).length ∧
      (carve page size pgSize 0 none ⟨0, 0, mem⟩).dummyNext = page ∧
      Memory.Chain (carve page size pgSize 0 none ⟨0, 0, mem⟩).mem page
        (slotsFrom page size pgSize 0) ∧
      (forall a, a < page ∨ page + pgSize ≤ a ->
        (carve page size pgSize 0 none ⟨0, 0, mem⟩).mem a = mem a) := by
  have hcarve : carve page size pgSize 0 none ⟨0, 0, mem⟩ =
      carve page size 4095 size (some page) ⟨1, page, mem⟩ := by
    show carve page size 4095 (0 + size) (some page) ⟨1, page, mem⟩ = _
    rw [Nat.zero_add]
  have hslots : slotsFrom page size pgSize 0 =
      page :: slotsFrom page size 4095 size := by
    show page :: slotsFrom page size 4095 (0 + size) = _
    rw [Nat.zero_add]
  rw [hcarve, hslots]
  have hwords : forall a, a ∈ page :: slotsFrom page size 4095 size ->
      mem.word a = 0 := by
    intro a ha
    rcases List.mem_cons.mp ha with rfl | hrest
    · exact hzero a (Nat.le_refl a) (by unfold pgSize; lia)
    · have hlow := slotsFrom_low hrest
      have hhigh := slotsFrom_high halign halign hrest
      exact hzero a (by lia) hhigh
  rcases carve_some hsize halign hpage 4095 size page ⟨1, page, mem⟩ halign
    (by lia) (by unfold pgSize; lia) hwords with ⟨hcnt, hdummy, hchain, hframe⟩
  refine ⟨?_, hdummy, hchain, hframe⟩
  rw [List.length_cons, Nat.add_comm]
  exact hcnt

end Loop

end Kalloc
end Kernel
end NicoOS
