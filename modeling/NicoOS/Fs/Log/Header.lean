import NicoOS.Fs.Layout
import Mathlib.Data.List.Nodup

/-!
# The in-memory log header

`struct logheader` of `include/fs/log.h` and the part of `log_write` that
records a block number in it.
-/

namespace NicoOS
namespace Fs
namespace Log

/-- `struct logheader`; `blocks` is the array that follows the count. -/
structure LogHeader where
  n : Nat
  blocks : Nat -> UInt32

def LogHeader.entries (lh : LogHeader) : List UInt32 :=
  (List.range lh.n).map lh.blocks

def LogHeader.setBlock (lh : LogHeader) (i : Nat) (b : UInt32) : LogHeader :=
  { lh with blocks := fun j => if j = i then b else lh.blocks j }

/-- The loop of `log_write`: the first place that holds `b`, or the end. -/
def findBlock (blocks : Nat -> UInt32) (b : UInt32) : Nat -> Nat -> Nat
  | 0, i => i
  | k + 1, i => if blocks i = b then i else findBlock blocks b k (i + 1)

/-- The place that `log_write` stores a block number in. -/
def LogHeader.place (lh : LogHeader) (b : UInt32) : Nat := findBlock lh.blocks b lh.n 0

def LogHeader.record (lh : LogHeader) (b : UInt32) : LogHeader :=
  let i := lh.place b
  let stored := lh.setBlock i b
  if i = lh.n then { stored with n := lh.n + 1 } else stored

theorem findBlock_spec (blocks : Nat -> UInt32) (b : UInt32) (k i : Nat) :
    (findBlock blocks b k i < i + k ∧ i ≤ findBlock blocks b k i ∧
        blocks (findBlock blocks b k i) = b) ∨
      (findBlock blocks b k i = i + k ∧ forall j, i ≤ j -> j < i + k -> blocks j ≠ b) := by
  induction k generalizing i with
  | zero =>
      right
      refine ⟨rfl, ?_⟩
      intro j h1 h2
      lia
  | succ k ih =>
      unfold findBlock
      split
      · rename_i heq
        left
        exact ⟨by lia, Nat.le_refl i, heq⟩
      · rename_i hne
        rcases ih (i + 1) with ⟨h1, h2, h3⟩ | ⟨h1, h2⟩
        · left
          exact ⟨by lia, by lia, h3⟩
        · right
          refine ⟨by lia, ?_⟩
          intro j hj1 hj2
          cases Nat.decEq j i with
          | isTrue heq =>
              rw [heq]
              exact hne
          | isFalse hji => exact h2 j (by lia) (by lia)

namespace LogHeader

variable {lh : LogHeader} {b : UInt32}

theorem mem_entries : b ∈ lh.entries <-> exists i, i < lh.n ∧ lh.blocks i = b := by
  unfold entries
  rw [List.mem_map]
  constructor
  · intro hex
    rcases hex with ⟨i, hi, heq⟩
    exact ⟨i, List.mem_range.mp hi, heq⟩
  · intro hex
    rcases hex with ⟨i, hi, heq⟩
    exact ⟨i, List.mem_range.mpr hi, heq⟩

@[simp] theorem length_entries (lh : LogHeader) : lh.entries.length = lh.n := by
  unfold entries
  rw [List.length_map, List.length_range]

/-- A block that is in the header already is absorbed. -/
theorem record_of_mem (h : b ∈ lh.entries) :
    lh.place b < lh.n ∧ lh.record b = lh := by
  rcases findBlock_spec lh.blocks b lh.n 0 with ⟨hlt, _, hfound⟩ | ⟨_, hall⟩
  · have hplace : lh.place b < lh.n := by
      show findBlock lh.blocks b lh.n 0 < lh.n
      lia
    refine ⟨hplace, ?_⟩
    have hblocks : (fun j => if j = lh.place b then b else lh.blocks j) = lh.blocks := by
      funext j
      split
      · rename_i heq
        rw [heq]
        exact hfound.symm
      · rfl
    unfold record setBlock
    simp only
    rw [if_neg (Nat.ne_of_lt hplace), hblocks]
  · rcases mem_entries.mp h with ⟨i, hi, heq⟩
    exact absurd heq (hall i (Nat.zero_le i) (by lia))

theorem record_of_not_mem (h : Not (b ∈ lh.entries)) :
    lh.place b = lh.n ∧ (lh.record b).n = lh.n + 1 ∧
      (lh.record b).entries = lh.entries ++ [b] := by
  have hplace : lh.place b = lh.n := by
    rcases findBlock_spec lh.blocks b lh.n 0 with ⟨hlt, _, hfound⟩ | ⟨heq, _⟩
    · refine absurd (mem_entries.mpr ⟨_, ?_, hfound⟩) h
      lia
    · show findBlock lh.blocks b lh.n 0 = lh.n
      lia
  refine ⟨hplace, ?_, ?_⟩
  · unfold record
    simp only
    rw [if_pos hplace]
  · unfold record entries
    simp only
    rw [if_pos hplace, hplace, List.range_succ, List.map_append]
    unfold setBlock
    congr 1
    · apply List.map_congr_left
      intro j hj
      exact if_neg (Nat.ne_of_lt (List.mem_range.mp hj))
    · simp only [List.map_cons, List.map_nil, if_true]

end LogHeader

end Log
end Fs
end NicoOS
