import Mathlib.Data.Nat.Digits.Lemmas
import NicoOS.Lib.Stored

/-!
# Numerals

`itoa` of `lib/src/stdlib.c`, which stores the digits from the last on and reverses them in
place.  The numeral reads back as the number.
-/

namespace NicoOS
namespace User
namespace Stdio

open Lib

abbrev Text := List UInt8

def digitChar (digit : Nat) : UInt8 :=
  if digit < 10 then 0x30 + UInt8.ofNat digit else 0x41 + UInt8.ofNat (digit - 10)

/-- The loop of `itoa` over the digits of `n`; `none` where it has no end. -/
def digitsFrom (radix : Nat) : Nat -> Nat -> Nat -> Memory -> Option (Nat × Memory)
  | 0, n, sp, mem => if n = 0 then some (sp, mem) else none
  | k + 1, n, sp, mem =>
      if n = 0 then
        some (sp, mem)
      else
        digitsFrom radix k (n / radix) (sp + 1) (mem.setByte sp (digitChar (n % radix)))

/-- The branch of `itoa` for a number other than 0, which is at `s` behind its sign. -/
def itoaFrom (n : BitVec 32) (s radix : Nat) (mem : Memory) : Option (Nat × Memory) := do
  let (sp, mem) <- digitsFrom radix 32 n.toNat s mem
  let len := sp - s
  let mem := mem.swapEnds s len (len / 2)
  some (sp, mem.setByte sp 0)

def itoa (num : BitVec 32) (s radix : Nat) (mem : Memory) : Option (Nat × Memory) :=
  if num = 0 then
    some (s + 1, (mem.setByte s 0x30).setByte (s + 1) 0)
  else if num.slt 0 ∧ radix = 10 then
    itoaFrom (0 - num) (s + 1) radix (mem.setByte s 0x2d)
  else
    itoaFrom num s radix mem

/-!
# What is stored
-/

def numeral (radix n : Nat) : Text :=
  if n = 0 then [0x30] else ((Nat.digits radix n).map digitChar).reverse

def itoaText (num : BitVec 32) (radix : Nat) : Text :=
  if num.slt 0 ∧ radix = 10 then 0x2d :: numeral radix (0 - num).toNat
  else numeral radix num.toNat

section Stored

variable {radix n k s sp : Nat} {mem : Memory} {num : BitVec 32}

theorem digitsFrom_put (hradix : 2 ≤ radix) (hn : n < radix ^ k) :
    digitsFrom radix k n sp mem =
      some (sp + (Nat.digits radix n).length, mem.put sp ((Nat.digits radix n).map digitChar)) := by
  induction k generalizing n sp mem with
  | zero =>
      have hzero : n = 0 := by
        rw [Nat.pow_zero] at hn
        lia
      rw [hzero, Nat.digits_zero, List.map_nil, Memory.put_nil]
      rfl
  | succ k ih =>
      rw [digitsFrom]
      cases Classical.em (n = 0) with
      | inl hzero =>
          rw [if_pos hzero, hzero, Nat.digits_zero, List.map_nil, Memory.put_nil]
          rfl
      | inr hne =>
          have hdiv : n / radix < radix ^ k := by
            apply Nat.div_lt_of_lt_mul
            rw [Nat.mul_comm, ← Nat.pow_succ]
            exact hn
          rw [if_neg hne, ih hdiv, Nat.digits_def' (by lia) (Nat.pos_of_ne_zero hne),
            List.map_cons, List.length_cons, Memory.setByte_put]
          congr 2
          lia

theorem numeral_of_pos (hn : n ≠ 0) :
    numeral radix n = ((Nat.digits radix n).map digitChar).reverse := if_neg hn

theorem length_numeral (hn : n ≠ 0) : (numeral radix n).length = (Nat.digits radix n).length := by
  rw [numeral_of_pos hn, List.length_reverse, List.length_map]

theorem itoaFrom_put {word : BitVec 32} (hradix : 2 ≤ radix) (hword : word.toNat ≠ 0) :
    itoaFrom word s radix mem = some (s + (numeral radix word.toNat).length,
      mem.put s (numeral radix word.toNat ++ [0])) := by
  have hlt : word.toNat < radix ^ 32 :=
    Nat.lt_of_lt_of_le word.isLt (Nat.pow_le_pow_left hradix 32)
  have hlen : ((Nat.digits radix word.toNat).map digitChar).length =
      (Nat.digits radix word.toNat).length := List.length_map _
  unfold itoaFrom
  rw [digitsFrom_put hradix hlt]
  dsimp only [Option.bind_eq_bind, Option.bind_some]
  rw [Nat.add_sub_cancel_left, ← hlen, Memory.swapEnds_put, ← numeral_of_pos hword, hlen,
    ← length_numeral hword, Memory.put_setByte]

/-- `itoa` stores the numeral and its end, and nothing else. -/
theorem itoa_put (num : BitVec 32) (s : Nat) (mem : Memory) (hradix : 2 ≤ radix) :
    itoa num s radix mem = some (s + (itoaText num radix).length,
      mem.put s (itoaText num radix ++ [0])) := by
  unfold itoa itoaText
  cases Classical.em (num = 0) with
  | inl hzero =>
      rw [hzero]
      have hnot : Not (((0 : BitVec 32).slt 0 = true) ∧ radix = 10) :=
        fun hboth => absurd hboth.left (by decide)
      rw [if_pos rfl, if_neg hnot]
      show some (s + 1, (mem.setByte s 0x30).setByte (s + 1) 0) =
        some (s + 1, mem.put s ([0x30] ++ [0]))
      have hstored : (mem.put s [0x30]).setByte (s + [(0x30 : UInt8)].length) 0 =
          mem.put s ([0x30] ++ [0]) := Memory.put_setByte
      rw [Memory.setByte_eq_put (a := s), ← hstored]
      rfl
  | inr hne =>
      have hnat : num.toNat ≠ 0 := fun heq => hne (BitVec.eq_of_toNat_eq heq)
      rw [if_neg hne]
      split
      · have hneg : (0 - num).toNat ≠ 0 := by
          have hlt := num.isLt
          rw [BitVec.toNat_sub]
          show (2 ^ 32 - num.toNat + 0) % 2 ^ 32 ≠ 0
          lia
        rw [itoaFrom_put hradix hneg, Memory.setByte_put, List.length_cons, List.cons_append]
        congr 2
        lia
      · exact itoaFrom_put hradix hnat

end Stored

/-!
# Reading back
-/

def digitValue (ch : UInt8) : Nat := if ch < 0x41 then ch.toNat - 0x30 else ch.toNat - 0x41 + 10

def readNat (radix : Nat) (text : Text) : Nat :=
  text.foldl (fun v ch => digitValue ch + radix * v) 0

/-- The number that a numeral with or without a sign stands for. -/
def readInt (radix : Nat) : Text -> Int
  | [] => 0
  | ch :: rest =>
      if ch = 0x2d then - (readNat radix rest : Int) else (readNat radix (ch :: rest) : Int)

section Reading

variable {radix n d : Nat} {num : BitVec 32}

theorem digitChar_spec : forall d, d < 36 ->
    digitValue (digitChar d) = d ∧ digitChar d ≠ 0x2d ∧ digitChar d ≠ 0 := by
  decide

theorem readNat_numeral (hradix : 2 ≤ radix) (hmax : radix ≤ 36) (n : Nat) :
    readNat radix (numeral radix n) = n := by
  cases Classical.em (n = 0) with
  | inl hzero =>
      rw [hzero]
      show 0 + radix * 0 = 0
      lia
  | inr hne =>
      have hvalue : ((Nat.digits radix n).map digitChar).map digitValue = Nat.digits radix n := by
        rw [List.map_map, List.map_congr_left (g := id), List.map_id]
        intro d hd
        have hlt := Nat.digits_lt_base (by lia) hd
        exact (digitChar_spec d (by lia)).left
      calc readNat radix (numeral radix n)
          = ((Nat.digits radix n).map digitChar).foldr
              (fun ch v => digitValue ch + radix * v) 0 := by
            rw [numeral_of_pos hne, readNat, List.foldl_reverse]
        _ = (Nat.digits radix n).foldr (fun d v => d + radix * v) 0 := by
            conv => rhs; rw [← hvalue]
            rw [List.foldr_map (f := digitValue)]
        _ = Nat.ofDigits radix (Nat.digits radix n) := by
            rw [Nat.ofDigits_eq_foldr]
            rfl
        _ = n := Nat.ofDigits_digits radix n

theorem mem_numeral (hradix : 2 ≤ radix) (hmax : radix ≤ 36) {ch : UInt8}
    (h : ch ∈ numeral radix n) : ch ≠ 0x2d ∧ ch ≠ 0 := by
  unfold numeral at h
  split at h
  · cases List.mem_singleton.mp h
    decide
  · rw [List.mem_reverse, List.mem_map] at h
    rcases h with ⟨d, hd, hch⟩
    have hlt := Nat.digits_lt_base (by lia) hd
    rw [← hch]
    exact (digitChar_spec d (by lia)).right

theorem readInt_numeral (hradix : 2 ≤ radix) (hmax : radix ≤ 36) (n : Nat) :
    readInt radix (numeral radix n) = n := by
  have hread := readNat_numeral hradix hmax n
  cases htext : numeral radix n with
  | nil =>
      rw [htext] at hread
      rw [← hread]
      rfl
  | cons ch rest =>
      have hmem : ch ∈ numeral radix n := by
        rw [htext]
        exact List.mem_cons_self
      rw [readInt, if_neg (mem_numeral hradix hmax hmem).left, ← htext, hread]

theorem length_numeral_le (hradix : 2 ≤ radix) {k : Nat} (hk : 1 ≤ k) (hn : n < radix ^ k) :
    (numeral radix n).length ≤ k := by
  cases Classical.em (n = 0) with
  | inl hzero =>
      rw [hzero]
      exact hk
  | inr hne =>
      rw [length_numeral hne]
      exact (Nat.digits_length_le_iff (by lia) n).mpr hn

theorem toInt_of_slt (h : num.slt 0 = true) : num.toInt = -((0 - num).toNat : Int) := by
  have hlt := num.isLt
  have hneg : num.toInt < 0 := by
    have hslt := BitVec.slt_iff_toInt_lt.mp h
    exact hslt
  rw [BitVec.toInt_eq_toNat_cond] at hneg ⊢
  have hsub : (0 - num).toNat = 2 ^ 32 - num.toNat := by
    rw [BitVec.toNat_sub]
    show (2 ^ 32 - num.toNat + 0) % 2 ^ 32 = _
    split at hneg
    · lia
    · lia
  rw [hsub]
  split at hneg
  · lia
  · rename_i hno
    rw [if_neg hno]
    lia

theorem toInt_of_not_slt (h : num.slt 0 ≠ true) : num.toInt = num.toNat := by
  have hge : 0 ≤ num.toInt := by
    by_contra hneg
    exact h (BitVec.slt_iff_toInt_lt.mpr (Int.not_le.mp hneg))
  have hlt := num.isLt
  rw [BitVec.toInt_eq_toNat_cond] at hge ⊢
  split
  · rfl
  · rename_i hno
    rw [if_neg hno] at hge
    lia

/--
`itoa` stores a text of at most 32 bytes and its end, and changes no other byte; to the base 10
the text reads as the number with its sign, to any other base up to 36 as the number without.
-/
theorem itoa_readsBack (num : BitVec 32) (s : Nat) (mem : Memory) (hradix : 2 ≤ radix)
    (hmax : radix ≤ 36) : exists text,
      itoa num s radix mem = some (s + text.length, mem.put s (text ++ [0])) ∧
        text.length ≤ 32 ∧ 0 ∉ text ∧
        readInt radix text = if radix = 10 then num.toInt else (num.toNat : Int) := by
  refine ⟨itoaText num radix, itoa_put num s mem hradix, ?_⟩
  have hpow : forall word : BitVec 32, word.toNat < radix ^ 32 :=
    fun word => Nat.lt_of_lt_of_le word.isLt (Nat.pow_le_pow_left hradix 32)
  unfold itoaText
  split
  · rename_i hneg
    have hten := hneg.right
    have hshort : (0 - num).toNat < radix ^ 10 := by
      have hlt := (0 - num).isLt
      rw [hten]
      lia
    have hlen := length_numeral_le hradix (by decide) hshort
    refine ⟨?_, ?_, ?_⟩
    · rw [List.length_cons]
      lia
    · intro hmem
      rcases List.mem_cons.mp hmem with heq | hin
      · exact absurd heq (by decide)
      · exact (mem_numeral hradix hmax hin).right rfl
    · rw [readInt, if_pos rfl, readNat_numeral hradix hmax, if_pos hten, toInt_of_slt hneg.left]
  · rename_i hpos
    refine ⟨length_numeral_le hradix (by decide) (hpow num), ?_, ?_⟩
    · exact fun hin => (mem_numeral hradix hmax hin).right rfl
    · rw [readInt_numeral hradix hmax]
      split
      · rename_i hten
        exact (toInt_of_not_slt (fun hslt => hpos ⟨hslt, hten⟩)).symm
      · rfl

/-- The least number, in a memory of zeros. -/
theorem itoa_readsBack_least : exists text,
    itoa 0x80000000#32 100 10 (fun _ => 0) =
        some (100 + text.length, Memory.put (fun _ => 0) 100 (text ++ [0])) ∧
      text.length ≤ 32 ∧ 0 ∉ text ∧ readInt 10 text = -2147483648 :=
  itoa_readsBack 0x80000000#32 100 (fun _ => 0) (by decide) (by decide)

end Reading

end Stdio
end User
end NicoOS
