import NicoOS.Fs.Dir.Model
import NicoOS.Lib.SlotMap

/-!
# The listing of a directory

The bytes of a directory as a table of slots, and what a stored record does to it.
-/

namespace NicoOS
namespace Fs
namespace Dir

open Lib
open Inode (splice sourceBytes)

/-!
# Names
-/

theorem strcmp_eq_zero_iff (a b : Memory) (fuel i : Nat) :
    strcmp a b fuel i = 0 <-> labelFrom a fuel i = labelFrom b fuel i := by
  induction fuel generalizing i with
  | zero => exact Iff.intro (fun _ => rfl) (fun _ => rfl)
  | succ fuel ih =>
      unfold strcmp labelFrom
      cases Classical.em (a i = b i) with
      | inl heq =>
          rw [if_neg (fun hne => hne heq), ← heq]
          cases Classical.em (a i = 0) with
          | inl hzero => rw [if_pos hzero, if_pos hzero, if_pos hzero]; simp
          | inr hne =>
              rw [if_neg hne, if_neg hne, if_neg hne, ih (i + 1)]
              constructor
              · intro h
                rw [h]
              · intro h
                exact (List.cons.inj h).right
      | inr hne =>
          rw [if_pos hne]
          constructor
          · intro h
            split at h
            · cases h
            · cases h
          · intro h
            split at h
            · rename_i hzero
              split at h
              · rename_i hzero'
                exact absurd (hzero.trans hzero'.symm) hne
              · cases h
            · split at h
              · cases h
              · exact absurd (List.cons.inj h).left hne

theorem labelFrom_congr {a b : Memory} (fuel i : Nat)
    (h : forall j, i ≤ j -> j < i + fuel -> a j = b j) :
    labelFrom a fuel i = labelFrom b fuel i := by
  induction fuel generalizing i with
  | zero => rfl
  | succ fuel ih =>
      unfold labelFrom
      rw [h i (Nat.le_refl i) (by lia), ih (i + 1) (fun j h1 h2 => h j (by lia) (by lia))]

/-!
# Records
-/

/-- The record with number `k` in a list of bytes. -/
def recordAt (c : List UInt8) (k : Nat) : Dirent :=
  readDirent ((c.drop (direntSize * k)).take direntSize)

def Dirent.slot (e : Dirent) : Option (List UInt8 × UInt32) :=
  if e.inum = 0 then none else some (label e.name, e.inum)

def slotAt (c : List UInt8) (k : Nat) : Option (List UInt8 × UInt32) := (recordAt c k).slot

def slots (c : List UInt8) : Nat := c.length / direntSize

theorem length_splice {c : List UInt8} (data : List UInt8) {offset : Nat} (h : offset ≤ c.length) :
    (splice c data offset).length = max c.length (offset + data.length) := by
  unfold splice
  simp
  lia

theorem drop_take_splice_self {c : List UInt8} (data : List UInt8) {offset : Nat}
    (h : offset ≤ c.length) :
    ((splice c data offset).drop offset).take data.length = data := by
  unfold splice
  have hlen : (c.take offset).length = offset := by
    rw [List.length_take]
    lia
  rw [List.append_assoc, List.drop_append_of_le_length (by lia), List.drop_eq_nil_of_le (by lia),
    List.nil_append, List.take_left]

theorem drop_take_splice_of_apart {c data : List UInt8} {offset a n : Nat}
    (h : offset ≤ c.length) (hin : a + n ≤ c.length)
    (hapart : a + n ≤ offset ∨ offset + data.length ≤ a) :
    ((splice c data offset).drop a).take n = (c.drop a).take n := by
  unfold splice
  apply List.ext_getElem
  · simp
    lia
  · intro i h1 h2
    rw [List.length_take, List.length_drop] at h2
    rw [List.getElem_take, List.getElem_drop, List.getElem_take, List.getElem_drop]
    rcases hapart with hlow | hhigh
    · rw [List.getElem_append_left (by simp; lia), List.getElem_append_left (by simp; lia),
        List.getElem_take]
    · rw [List.getElem_append_right (by simp; lia), List.getElem_drop]
      congr 1
      simp
      lia

/-- The bytes of a record are read back as the same number and name. -/
theorem slot_readDirent_bytes (e : Dirent) :
    (readDirent (sourceBytes e.bytes direntSize)).slot = e.slot := by
  have hget : forall i, i < direntSize ->
      (sourceBytes e.bytes direntSize).getD i 0 = e.bytes i := by
    intro i hi
    unfold sourceBytes
    rw [List.getD_eq_getElem?_getD, List.getElem?_map, List.getElem?_range hi]
    rfl
  have hinum : (readDirent (sourceBytes e.bytes direntSize)).inum = e.inum := by
    have hword : Memory.word (fun i => (sourceBytes e.bytes direntSize).getD i 0) 0 =
        e.inum.toNat := by
      rw [← Memory.word_ofWords (fun _ => e.inum) 0]
      apply Memory.word_congr
      intro i h1 h2
      rw [hget i (by unfold direntSize; lia)]
      exact if_pos (by lia)
    unfold readDirent
    simp only
    rw [hword, UInt32.ofNat_toNat]
  have hname : label (readDirent (sourceBytes e.bytes direntSize)).name = label e.name := by
    unfold label
    apply labelFrom_congr
    intro j h1 h2
    unfold direntNameLength at h2
    unfold readDirent
    simp only
    rw [hget (4 + j) (by unfold direntSize; lia)]
    show (if 4 + j < 4 then _ else e.name (4 + j - 4)) = e.name j
    rw [if_neg (by lia), Nat.add_sub_cancel_left]
  unfold Dirent.slot
  rw [hinum, hname]

theorem slot_readDirent_zero :
    (readDirent (sourceBytes (fun _ => 0) direntSize)).slot = none := by
  decide

/-- A record stored at a slot, or behind the last one, changes that slot alone. -/
theorem stored_splice {c data : List UInt8} {k : Nat} (hc : c.length % direntSize = 0)
    (hk : k ≤ slots c) (hdata : data.length = direntSize) :
    SlotMap.Stored (slotAt c) (slots c) k (readDirent data).slot
      (slotAt (splice c data (direntSize * k))) (slots (splice c data (direntSize * k))) := by
  have hsize : direntSize = 64 := rfl
  unfold slots at hk
  have hoff : direntSize * k ≤ c.length := by lia
  have hlen := length_splice data hoff
  constructor
  · unfold slots
    rw [hlen]
    lia
  · intro j hj hne
    unfold slots at hj ⊢
    rw [hlen] at hj
    lia
  · unfold slots
    rw [hlen]
    lia
  · unfold slotAt recordAt
    have hself := drop_take_splice_self data hoff
    rw [hdata] at hself
    rw [hself]
  · intro j hj hne
    unfold slots at hj
    unfold slotAt recordAt
    rw [drop_take_splice_of_apart hoff (by lia) (by lia)]

theorem length_splice_mod {c data : List UInt8} {k : Nat} (hc : c.length % direntSize = 0)
    (hk : k ≤ slots c) (hdata : data.length = direntSize) :
    (splice c data (direntSize * k)).length % direntSize = 0 := by
  have hsize : direntSize = 64 := rfl
  unfold slots at hk
  rw [length_splice data (by lia)]
  lia

end Dir
end Fs
end NicoOS
