import NicoOS.Lib.Memory
import Mathlib.Data.Nat.Bitwise

/-!
# Byte arrays of a fixed length

An array is read through a memory that is 0 behind its end, so the rules for
memories carry over.  Besides words an array holds copied ranges of bytes and
bits, eight to a byte.
-/

namespace NicoOS
namespace Lib

def Bytes (n : Nat) := Fin n -> UInt8

namespace Bytes

variable {n : Nat}

def mem (b : Bytes n) : Memory := fun i => if h : i < n then b ⟨i, h⟩ else 0

def ofMem (m : Memory) : Bytes n := fun i => m i.val

theorem mem_ofMem (m : Memory) {i : Nat} (h : i < n) : (ofMem m : Bytes n).mem i = m i :=
  dif_pos h

def word (b : Bytes n) (a : Nat) : UInt32 := UInt32.ofNat (b.mem.word a)

def setWord (b : Bytes n) (a : Nat) (v : UInt32) : Bytes n :=
  ofMem (b.mem.setWord a v.toNat)

theorem mem_word_ofMem (m : Memory) {a : Nat} (h : a + 4 ≤ n) :
    (ofMem m : Bytes n).mem.word a = m.word a := by
  apply Memory.word_congr
  intro i h1 h2
  exact mem_ofMem m (by lia)

theorem word_congr {b c : Bytes n} {a : Nat}
    (h : forall i, a ≤ i -> i < a + 4 -> b.mem i = c.mem i) : b.word a = c.word a := by
  unfold word
  rw [Memory.word_congr h]

theorem mem_setWord_of_outside (b : Bytes n) {a i : Nat} (v : UInt32)
    (h : i < a ∨ a + 4 ≤ i) : (b.setWord a v).mem i = b.mem i := by
  cases Nat.lt_or_ge i n with
  | inl hlt =>
      unfold setWord
      rw [mem_ofMem _ hlt, Memory.setWord_of_outside _ _ h]
  | inr hge =>
      unfold mem
      rw [dif_neg (by lia), dif_neg (by lia)]

@[simp] theorem word_setWord_self (b : Bytes n) {a : Nat} (v : UInt32) (h : a + 4 ≤ n) :
    (b.setWord a v).word a = v := by
  unfold word setWord
  rw [mem_word_ofMem _ h, Memory.word_setWord_self _ _ v.toNat_lt, UInt32.ofNat_toNat]

theorem word_setWord_of_apart (b : Bytes n) {a c : Nat} (v : UInt32)
    (h : c + 4 ≤ a ∨ a + 4 ≤ c) : (b.setWord a v).word c = b.word c := by
  apply word_congr
  intro i h1 h2
  exact mem_setWord_of_outside b v (by lia)

/-!
# Copied ranges
-/

def zero : Bytes n := fun _ => 0

theorem mem_zero (i : Nat) : (zero : Bytes n).mem i = 0 := by
  unfold mem zero
  split
  · rfl
  · rfl

theorem word_zero (a : Nat) : (zero : Bytes n).word a = 0 := by
  unfold word Memory.word
  rw [mem_zero, mem_zero, mem_zero, mem_zero]
  rfl

def copyIn (b : Bytes n) (a len : Nat) (src : Memory) : Bytes n :=
  ofMem (fun i => if a ≤ i ∧ i < a + len then src (i - a) else b.mem i)

theorem mem_copyIn_inside (b : Bytes n) {a len i : Nat} (src : Memory) (h1 : a ≤ i)
    (h2 : i < a + len) (hn : i < n) : (b.copyIn a len src).mem i = src (i - a) := by
  unfold copyIn
  rw [mem_ofMem _ hn]
  exact if_pos (And.intro h1 h2)

theorem mem_copyIn_outside (b : Bytes n) {a len i : Nat} (src : Memory)
    (h : i < a ∨ a + len ≤ i) : (b.copyIn a len src).mem i = b.mem i := by
  cases Nat.lt_or_ge i n with
  | inl hlt =>
      unfold copyIn
      rw [mem_ofMem _ hlt]
      exact if_neg (by lia)
  | inr hge =>
      unfold mem
      rw [dif_neg (by lia), dif_neg (by lia)]

theorem word_copyIn_inside (b : Bytes n) {a len k : Nat} (src : Memory)
    (h : k + 4 ≤ len) (hn : a + len ≤ n) :
    (b.copyIn a len src).word (a + k) = UInt32.ofNat (src.word k) := by
  unfold word Memory.word
  rw [mem_copyIn_inside b src (by lia) (by lia) (by lia),
    mem_copyIn_inside b src (by lia) (by lia) (by lia),
    mem_copyIn_inside b src (by lia) (by lia) (by lia),
    mem_copyIn_inside b src (by lia) (by lia) (by lia)]
  have h0 : a + k - a = k := by lia
  have h1 : a + k + 1 - a = k + 1 := by lia
  have h2 : a + k + 2 - a = k + 2 := by lia
  have h3 : a + k + 3 - a = k + 3 := by lia
  rw [h0, h1, h2, h3]

theorem word_copyIn_outside (b : Bytes n) {a len k : Nat} (src : Memory)
    (h : k + 4 ≤ a ∨ a + len ≤ k) : (b.copyIn a len src).word k = b.word k := by
  apply word_congr
  intro i h1 h2
  exact mem_copyIn_outside b src (by lia)

/-!
# Bits
-/

def mask (k : Nat) : UInt8 := 1 <<< UInt8.ofNat (k % 8)

theorem toNat_mask (k : Nat) : (mask k).toNat = 1 <<< (k % 8) := by
  have h : k % 8 < 8 := Nat.mod_lt _ (by decide)
  unfold mask
  generalize k % 8 = j at h
  revert j
  decide

theorem and_mask_ne_zero (x : UInt8) (k : Nat) :
    x &&& mask k ≠ 0 <-> x.toNat.testBit (k % 8) = true := by
  rw [ne_eq, ← UInt8.toNat_inj, UInt8.toNat_and, toNat_mask, Nat.one_shiftLeft, Nat.and_two_pow]
  cases h : x.toNat.testBit (k % 8) with
  | false => simp
  | true => simp

theorem testBit_or_mask (x : UInt8) (j k : Nat) :
    (x ||| mask j).toNat.testBit (k % 8) =
      (x.toNat.testBit (k % 8) || decide (j % 8 = k % 8)) := by
  rw [UInt8.toNat_or, Nat.testBit_or, toNat_mask, Nat.one_shiftLeft, Nat.testBit_two_pow]

theorem testBit_and_not_mask (x : UInt8) (j k : Nat) :
    (x &&& ~~~mask j).toNat.testBit (k % 8) =
      (x.toNat.testBit (k % 8) && !decide (j % 8 = k % 8)) := by
  have hj : j % 8 < 8 := Nat.mod_lt _ (by decide)
  have hk : k % 8 < 8 := Nat.mod_lt _ (by decide)
  rw [UInt8.toNat_and, Nat.testBit_and]
  congr 1
  unfold mask
  generalize j % 8 = j at hj
  generalize k % 8 = k at hk
  revert j k
  decide

def setByte (b : Bytes n) (a : Nat) (v : UInt8) : Bytes n :=
  ofMem (b.mem.setByte a v)

theorem mem_setByte (b : Bytes n) (a : Nat) (v : UInt8) {i : Nat} (h : i < n) :
    (b.setByte a v).mem i = if i = a then v else b.mem i := by
  unfold setByte
  rw [mem_ofMem _ h]
  rfl

/-- Bit `k` of an array, counted from the low bit of each byte. -/
def bit (b : Bytes n) (k : Nat) : Bool := b.mem (k / 8) &&& mask k != 0

def setBit (b : Bytes n) (k : Nat) : Bytes n := b.setByte (k / 8) (b.mem (k / 8) ||| mask k)

def clearBit (b : Bytes n) (k : Nat) : Bytes n :=
  b.setByte (k / 8) (b.mem (k / 8) &&& ~~~mask k)

theorem bit_eq_testBit (b : Bytes n) (k : Nat) :
    b.bit k = (b.mem (k / 8)).toNat.testBit (k % 8) := by
  unfold bit
  rw [Bool.eq_iff_iff, bne_iff_ne]
  exact and_mask_ne_zero _ k

theorem bit_zero (k : Nat) : (zero : Bytes n).bit k = false := by
  rw [bit_eq_testBit, mem_zero]
  exact Nat.zero_testBit _

theorem bit_setBit (b : Bytes n) (j : Nat) {k : Nat} (h : k / 8 < n) :
    (b.setBit j).bit k = (b.bit k || decide (j = k)) := by
  rw [bit_eq_testBit, bit_eq_testBit]
  unfold setBit
  rw [mem_setByte b _ _ h]
  split
  · rename_i heq
    rw [testBit_or_mask, heq]
    congr 1
    rw [decide_eq_decide]
    lia
  · rw [decide_eq_false (by lia), Bool.or_false]

theorem bit_clearBit (b : Bytes n) (j : Nat) {k : Nat} (h : k / 8 < n) :
    (b.clearBit j).bit k = (b.bit k && !decide (j = k)) := by
  rw [bit_eq_testBit, bit_eq_testBit]
  unfold clearBit
  rw [mem_setByte b _ _ h]
  split
  · rename_i heq
    rw [testBit_and_not_mask, heq]
    congr 2
    rw [decide_eq_decide]
    lia
  · rw [decide_eq_false (by lia), Bool.not_false, Bool.and_true]

theorem ext_bit {b c : Bytes n} (h : forall k, k / 8 < n -> b.bit k = c.bit k) : b = c := by
  funext i
  have hmem : forall x : Bytes n, x.mem i.val = x i := fun x => dif_pos i.isLt
  rw [<- hmem b, <- hmem c]
  apply UInt8.toNat_inj.mp
  apply Nat.eq_of_testBit_eq
  intro j
  cases Nat.lt_or_ge j 8 with
  | inl hlt =>
      have hdiv : (8 * i.val + j) / 8 = i.val := by lia
      have hmod : (8 * i.val + j) % 8 = j := by lia
      have hbit := h (8 * i.val + j) (by rw [hdiv]; exact i.isLt)
      rw [bit_eq_testBit, bit_eq_testBit, hdiv, hmod] at hbit
      exact hbit
  | inr hge =>
      have hpow : 2 ^ 8 ≤ 2 ^ j := Nat.pow_le_pow_right (by decide) hge
      have hb := (b.mem i.val).toNat_lt
      have hc := (c.mem i.val).toNat_lt
      rw [Nat.testBit_lt_two_pow (by lia), Nat.testBit_lt_two_pow (by lia)]

theorem clearBit_setBit {b : Bytes n} {k : Nat} (h : b.bit k = false) :
    (b.setBit k).clearBit k = b := by
  apply ext_bit
  intro j hj
  rw [bit_clearBit _ _ hj, bit_setBit _ _ hj]
  by_cases hkj : k = j
  · rw [<- hkj, h, decide_eq_true rfl]
    rfl
  · rw [decide_eq_false hkj, Bool.or_false, Bool.not_false, Bool.and_true]

end Bytes
end Lib
end NicoOS
