import NicoOS.Fs.Dir.Listing

/-!
# Scanning a directory

The loops of `fs/dir.c` read the records one after another, so each of them is a
search in the table of slots.
-/

namespace NicoOS
namespace Fs
namespace Dir

open Lib
open Inode (State Coherent contents length_contents)

def bytesOf (s : State) (i : Nat) : List UInt8 := contents s.vol (s.icache i).diskInode

/-- A locked directory with whole records and all its blocks, which can be read. -/
structure Readable (s : State) (i : Nat) : Prop where
  locked : (s.icache i).locked = true
  directory : (s.icache i).diskInode.type = Inode.InodeType.directory.code
  whole : (s.icache i).diskInode.size.toNat % direntSize = 0
  filled : Inode.Filled s.vol (s.icache i).diskInode

/-- A directory that the caller holds, with whole records. -/
structure Opened (s : State) (i : Nat) : Prop where
  coherent : Coherent s
  locked : (s.icache i).locked = true
  directory : (s.icache i).diskInode.type = Inode.InodeType.directory.code
  whole : (s.icache i).diskInode.size.toNat % direntSize = 0

/-- The image is sound, so the directory has its blocks. -/
theorem Opened.readable {s : State} {i : Nat} (h : Opened s i) : Readable s i where
  locked := h.locked
  directory := h.directory
  whole := h.whole
  filled := by
    rcases h.coherent.held i h.locked with ⟨href, hvalid⟩
    rcases h.coherent.loaded i href hvalid with ⟨hsame, _⟩
    have hfilled := h.coherent.sound.filled _ (h.coherent.live href hvalid)
    rw [hsame] at hfilled
    exact hfilled

namespace Readable

variable {s : State} {i : Nat}

theorem holding (h : Readable s i) : holding i s = true := by
  unfold Dir.holding
  rw [h.locked, h.directory]
  rfl

theorem length_bytes (_ : Readable s i) :
    (bytesOf s i).length = (s.icache i).diskInode.size.toNat :=
  length_contents _ _

theorem whole_bytes (h : Readable s i) : (bytesOf s i).length % direntSize = 0 := by
  rw [h.length_bytes]
  exact h.whole

theorem size_eq (h : Readable s i) :
    (s.icache i).diskInode.size.toNat = direntSize * slots (bytesOf s i) := by
  have hsize : direntSize = 64 := rfl
  have hw := h.whole
  unfold slots
  rw [h.length_bytes]
  lia

theorem bounded (h : Readable s i) : direntSize * slots (bytesOf s i) ≤ 71168 := by
  rw [← h.size_eq]
  exact h.filled.bounded

theorem noDevice (h : Readable s i) :
    (s.icache i).diskInode.type ≠ Inode.InodeType.device.code := by
  rw [h.directory]
  decide

theorem toNat_offset (h : Readable s i) {k : Nat} (hk : k ≤ slots (bytesOf s i)) :
    (UInt32.ofNat (direntSize * k)).toNat = direntSize * k := by
  have hb := h.bounded
  have hmul : direntSize * k ≤ direntSize * slots (bytesOf s i) := Nat.mul_le_mul_left _ hk
  exact UInt32.toNat_ofNat_of_lt' (by lia)

theorem offset_lt_iff (h : Readable s i) {k : Nat} (hk : k ≤ slots (bytesOf s i)) :
    UInt32.ofNat (direntSize * k) < (s.icache i).diskInode.size <-> k < slots (bytesOf s i) := by
  have hsize : direntSize = 64 := rfl
  rw [UInt32.lt_iff_toNat_lt, h.toNat_offset hk, h.size_eq]
  lia

theorem read (h : Readable s i) {k : Nat} (hk : k < slots (bytesOf s i)) :
    Inode.inodeRead i none (UInt32.ofNat (direntSize * k)) (UInt32.ofNat direntSize) s =
      Except.ok ((UInt32.ofNat direntSize).toInt32,
        ((bytesOf s i).drop (direntSize * k)).take direntSize, s) := by
  have hsize : direntSize = 64 := rfl
  have hnat : (UInt32.ofNat direntSize).toNat = direntSize := rfl
  have hb := h.bounded
  have haccept : Not (Inode.RangeRefused (s.icache i).diskInode.size.toNat
      (UInt32.ofNat (direntSize * k)).toNat (UInt32.ofNat direntSize).toNat) := by
    rw [h.toNat_offset (Nat.le_of_lt hk), h.size_eq, hnat]
    unfold Inode.RangeRefused
    lia
  have hmin : min (UInt32.ofNat direntSize).toNat
      ((s.icache i).diskInode.size.toNat - (UInt32.ofNat (direntSize * k)).toNat) =
        direntSize := by
    rw [h.toNat_offset (Nat.le_of_lt hk), h.size_eq, hnat]
    lia
  unfold Inode.inodeRead
  simp only
  rw [if_neg h.noDevice, Inode.readFile_eq h.filled, if_neg haccept, hmin,
    h.toNat_offset (Nat.le_of_lt hk), hnat, ok_bind]
  simp only
  rw [Inode.setInode_same]
  rfl

end Readable

theorem recordLength_not_neg : Not ((UInt32.ofNat direntSize).toInt32 < 0) := by decide

theorem recordLength_toInt : (UInt32.ofNat direntSize).toInt32.toInt = direntSize := by decide

theorem offset_succ (k : Nat) :
    UInt32.ofNat (direntSize * k) + UInt32.ofNat direntSize =
      UInt32.ofNat (direntSize * (k + 1)) := by
  rw [← UInt32.ofNat_add, Nat.mul_succ]

/-!
# The loops
-/

section Loops

variable {s : State} {i : Nat}

theorem slotAt_eq (c : List UInt8) (k : Nat) :
    slotAt c k = (readDirent ((c.drop (direntSize * k)).take direntSize)).slot := rfl

theorem dirLookupFrom_eq (h : Readable s i) (name : Memory) (fuel k : Nat)
    (hk : k ≤ slots (bytesOf s i)) (hfuel : slots (bytesOf s i) ≤ k + fuel) :
    dirLookupFrom i name fuel (UInt32.ofNat (direntSize * k)) s =
      Except.ok ((SlotMap.find (slotAt (bytesOf s i)) (label name) (slots (bytesOf s i) - k) k).map
        (fun p => (p.2, UInt32.ofNat (direntSize * p.1))), s) := by
  induction fuel generalizing k with
  | zero =>
      have hzero : slots (bytesOf s i) - k = 0 := by lia
      rw [hzero]
      rfl
  | succ fuel ih =>
      unfold dirLookupFrom
      cases Nat.lt_or_ge k (slots (bytesOf s i)) with
      | inr hge =>
          have hzero : slots (bytesOf s i) - k = 0 := by lia
          rw [if_neg (fun hlt => by have := (h.offset_lt_iff hk).mp hlt; lia), hzero]
          rfl
      | inl hlt =>
          have hnext : slots (bytesOf s i) - k = (slots (bytesOf s i) - (k + 1)) + 1 := by lia
          have hrest := ih (k + 1) hlt (by lia)
          rw [if_pos ((h.offset_lt_iff hk).mpr hlt), h.read hlt, ok_bind]
          simp only
          rw [if_neg recordLength_not_neg, if_neg (fun hne => hne recordLength_toInt), offset_succ,
            hrest, hnext]
          rw [SlotMap.find, slotAt_eq]
          unfold Dirent.slot
          generalize readDirent _ = e
          cases Classical.em (e.inum = 0) with
          | inl hzero => rw [if_neg (fun hc => hc.left hzero), if_pos hzero]
          | inr hne =>
              rw [if_neg hne]
              simp only
              cases Classical.em (label e.name = label name) with
              | inl heq =>
                  rw [if_pos (And.intro hne ((strcmp_eq_zero_iff _ _ _ _).mpr heq)), if_pos heq]
                  rfl
              | inr hdiff =>
                  rw [if_neg (fun hc => hdiff ((strcmp_eq_zero_iff _ _ _ _).mp hc.right)),
                    if_neg hdiff]

theorem slot_eq_none_iff (e : Dirent) : e.slot = none <-> e.inum = 0 := by
  unfold Dirent.slot
  split
  · rename_i h
    exact Iff.intro (fun _ => h) (fun _ => rfl)
  · rename_i h
    exact Iff.intro (fun hn => (nomatch hn)) (fun hz => absurd hz h)

/-- The loop of `dir_link` finds the first empty slot, or the end. -/
theorem emptyFrom_eq (h : Readable s i) (fuel k : Nat) (hk : k ≤ slots (bytesOf s i))
    (hfuel : slots (bytesOf s i) ≤ k + fuel) :
    emptyFrom i fuel (UInt32.ofNat (direntSize * k)) s =
      Except.ok (some (UInt32.ofNat (direntSize *
        SlotMap.firstFree (slotAt (bytesOf s i)) (slots (bytesOf s i) - k) k)), s) := by
  induction fuel generalizing k with
  | zero =>
      have hzero : slots (bytesOf s i) - k = 0 := by lia
      rw [hzero]
      rfl
  | succ fuel ih =>
      unfold emptyFrom
      cases Nat.lt_or_ge k (slots (bytesOf s i)) with
      | inr hge =>
          have hzero : slots (bytesOf s i) - k = 0 := by lia
          rw [if_neg (fun hlt => by have := (h.offset_lt_iff hk).mp hlt; lia), hzero]
          rfl
      | inl hlt =>
          have hnext : slots (bytesOf s i) - k = (slots (bytesOf s i) - (k + 1)) + 1 := by lia
          have hrest := ih (k + 1) hlt (by lia)
          have hlength : (UInt32.ofNat direntSize).toInt32.toUInt32 = UInt32.ofNat direntSize := rfl
          rw [if_pos ((h.offset_lt_iff hk).mpr hlt), h.read hlt, ok_bind]
          simp only
          rw [if_neg recordLength_not_neg, if_neg (fun hne => hne recordLength_toInt), hlength,
            offset_succ, hrest, hnext]
          rw [SlotMap.firstFree, slotAt_eq]
          cases Classical.em ((readDirent (((bytesOf s i).drop (direntSize * k)).take
              direntSize)).inum = 0) with
          | inl hzero =>
              rw [if_pos hzero, (slot_eq_none_iff _).mpr hzero]
              rfl
          | inr hne =>
              have hsome : Not ((readDirent (((bytesOf s i).drop (direntSize * k)).take
                  direntSize)).slot.isNone = true) := by
                intro hnone
                exact hne ((slot_eq_none_iff _).mp (Option.isNone_iff_eq_none.mp hnone))
              rw [if_neg hne, if_neg hsome]

/-- `dir_isempty` looks whether the slots from `k` on are empty. -/
theorem isemptyFrom_eq (h : Readable s i) (fuel k : Nat) (hk : k ≤ slots (bytesOf s i))
    (hfuel : slots (bytesOf s i) ≤ k + fuel) :
    exists b, isemptyFrom i fuel (UInt32.ofNat (direntSize * k)) s = Except.ok (b, s) ∧
      (b = true <-> forall j, k ≤ j -> j < slots (bytesOf s i) ->
        slotAt (bytesOf s i) j = none) := by
  induction fuel generalizing k with
  | zero =>
      refine ⟨true, rfl, fun _ j h1 h2 => ?_, fun _ => rfl⟩
      lia
  | succ fuel ih =>
      unfold isemptyFrom
      cases Nat.lt_or_ge k (slots (bytesOf s i)) with
      | inr hge =>
          rw [if_neg (fun hlt => by have := (h.offset_lt_iff hk).mp hlt; lia)]
          refine ⟨true, rfl, fun _ j h1 h2 => ?_, fun _ => rfl⟩
          lia
      | inl hlt =>
          have hlength : (UInt32.ofNat direntSize).toInt32.toUInt32 = UInt32.ofNat direntSize := rfl
          rcases ih (k + 1) hlt (by lia) with ⟨b, hrest, hb⟩
          rw [if_pos ((h.offset_lt_iff hk).mpr hlt), h.read hlt, ok_bind]
          simp only
          rw [if_neg recordLength_not_neg, if_neg (fun hne => hne recordLength_toInt), hlength,
            offset_succ, hrest]
          have hslot := slotAt_eq (bytesOf s i) k
          cases Classical.em ((readDirent (((bytesOf s i).drop (direntSize * k)).take
              direntSize)).inum = 0) with
          | inl hzero =>
              rw [if_neg (fun hne => hne hzero)]
              refine ⟨b, rfl, ?_, ?_⟩
              · intro ht j h1 h2
                cases Nat.eq_or_lt_of_le h1 with
                | inl heq =>
                    rw [← heq, hslot]
                    exact (slot_eq_none_iff _).mpr hzero
                | inr hgt => exact hb.mp ht j hgt h2
              · intro hall
                exact hb.mpr (fun j h1 h2 => hall j (by lia) h2)
          | inr hne =>
              rw [if_pos hne]
              refine ⟨false, rfl, fun hf => (nomatch hf), ?_⟩
              intro hall
              have hnone := hall k (Nat.le_refl k) hlt
              rw [hslot] at hnone
              exact absurd ((slot_eq_none_iff _).mp hnone) hne

end Loops

end Dir
end Fs
end NicoOS
