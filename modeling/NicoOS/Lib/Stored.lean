import NicoOS.Lib.Memory

/-!
# Texts in memory

The memory behind the stores of a text, one byte behind the other, and its reversal in place.
-/

namespace NicoOS
namespace Lib
namespace Memory

/-- The bytes of the list are stored from `a` on. -/
def put (mem : Memory) (a : Nat) (bytes : List UInt8) : Memory :=
  fun x => if x < a then mem x else (bytes[x - a]?).getD (mem x)

def swap (mem : Memory) (a b : Nat) : Memory :=
  (mem.setByte a (mem b)).setByte b (mem a)

/-- The first `rounds` rounds that reverse `len` bytes in place. -/
def swapEnds (mem : Memory) (a len : Nat) : Nat -> Memory
  | 0 => mem
  | i + 1 => (swapEnds mem a len i).swap (a + i) (a + (len - i - 1))

section Put

variable {mem : Memory} {a b x i len : Nat} {bytes rest : List UInt8} {byte : UInt8}

theorem put_below (h : x < a) : mem.put a bytes x = mem x := if_pos h

theorem put_behind (h : a + bytes.length ≤ x) : mem.put a bytes x = mem x := by
  unfold put
  rw [if_neg (by lia), List.getElem?_eq_none (by lia)]
  rfl

theorem put_inside (h : i < bytes.length) : mem.put a bytes (a + i) = bytes[i] := by
  unfold put
  rw [if_neg (by lia), Nat.add_sub_cancel_left, List.getElem?_eq_getElem h]
  rfl

theorem put_nil : mem.put a [] = mem := by
  funext x
  unfold put
  split
  · rfl
  · rfl

theorem put_append :
    (mem.put a bytes).put (a + bytes.length) rest = mem.put a (bytes ++ rest) := by
  funext x
  cases Nat.lt_or_ge x a with
  | inl hlt => rw [put_below (by lia), put_below hlt, put_below hlt]
  | inr hge =>
      rcases Nat.exists_eq_add_of_le hge with ⟨i, hi⟩
      rw [hi]
      cases Nat.lt_or_ge i bytes.length with
      | inl hin =>
          have hboth : i < (bytes ++ rest).length := by
            rw [List.length_append]
            lia
          rw [put_below (by lia), put_inside hin, put_inside hboth, List.getElem_append_left hin]
      | inr hout =>
          rcases Nat.exists_eq_add_of_le hout with ⟨j, hj⟩
          cases Nat.lt_or_ge j rest.length with
          | inl hin =>
              have hboth : i < (bytes ++ rest).length := by
                rw [List.length_append]
                lia
              have hplace : a + i = a + bytes.length + j := by lia
              rw [put_inside hboth, hplace, put_inside hin, List.getElem_append_right hout]
              simp [hj]
          | inr hrest =>
              have hlen : (bytes ++ rest).length = bytes.length + rest.length :=
                List.length_append
              rw [put_behind (by lia), put_behind (by lia), put_behind (by lia)]

theorem put_put (h : bytes.length ≤ rest.length) :
    (mem.put a bytes).put a rest = mem.put a rest := by
  funext x
  cases Nat.lt_or_ge x a with
  | inl hlt => rw [put_below hlt, put_below hlt, put_below hlt]
  | inr hge =>
      cases Nat.lt_or_ge x (a + rest.length) with
      | inl hin =>
          rcases Nat.exists_eq_add_of_le hge with ⟨i, hi⟩
          have hlt : i < rest.length := by lia
          rw [hi, put_inside hlt, put_inside hlt]
      | inr hout => rw [put_behind hout, put_behind hout, put_behind (by lia)]

theorem put_over : (mem.put a (bytes ++ [byte])).put (a + bytes.length) (rest ++ [byte]) =
    mem.put a (bytes ++ (rest ++ [byte])) := by
  have hlen : [byte].length ≤ (rest ++ [byte]).length := by
    rw [List.length_append]
    exact Nat.le_add_left _ _
  have hsplit : mem.put a (bytes ++ [byte]) = (mem.put a bytes).put (a + bytes.length) [byte] :=
    put_append.symm
  rw [hsplit, put_put hlen, put_append]

theorem setByte_eq_put : mem.setByte a byte = mem.put a [byte] := by
  funext x
  unfold setByte put
  cases Nat.lt_trichotomy x a with
  | inl hlt => rw [if_neg (Nat.ne_of_lt hlt), if_pos hlt]
  | inr hge =>
      rw [if_neg (show Not (x < a) by lia)]
      cases hge with
      | inl heq =>
          rw [if_pos heq, heq, Nat.sub_self]
          rfl
      | inr hgt =>
          rw [if_neg (by lia), List.getElem?_eq_none (by simp only [List.length_singleton]; lia)]
          rfl

theorem put_setByte :
    (mem.put a bytes).setByte (a + bytes.length) byte = mem.put a (bytes ++ [byte]) := by
  rw [setByte_eq_put, put_append]

theorem setByte_put : (mem.setByte a byte).put (a + 1) bytes = mem.put a (byte :: bytes) := by
  rw [setByte_eq_put]
  exact put_append

/-!
# Reversal
-/

theorem swap_apply (mem : Memory) (a b x : Nat) :
    mem.swap a b x = if x = b then mem a else if x = a then mem b else mem x := rfl

/-- After `i` rounds the `i` bytes at each end are those of the other end. -/
theorem swapEnds_inside (hi : 2 * i ≤ len) : forall j, j < len ->
    swapEnds mem a len i (a + j) =
      if j < i ∨ len - i ≤ j then mem (a + (len - 1 - j)) else mem (a + j) := by
  induction i with
  | zero =>
      intro j hj
      rw [if_neg (by lia)]
      rfl
  | succ i ih =>
      intro j hj
      have hold := ih (by lia)
      rw [swapEnds, swap_apply]
      cases Classical.em (j = len - i - 1) with
      | inl heq =>
          rw [if_pos (by lia), hold i (by lia), if_neg (by lia), if_pos (by lia)]
          congr 1
          lia
      | inr hne =>
          rw [if_neg (by lia)]
          cases Classical.em (j = i) with
          | inl heq =>
              rw [if_pos (by lia), hold (len - i - 1) (by lia), if_neg (by lia),
                if_pos (by lia)]
              congr 1
              lia
          | inr hni =>
              rw [if_neg (by lia), hold j hj]
              cases Classical.em (j < i ∨ len - i ≤ j) with
              | inl hyes => rw [if_pos hyes, if_pos (by lia)]
              | inr hno => rw [if_neg hno, if_neg (by lia)]

theorem swapEnds_outside (hi : 2 * i ≤ len) (hx : x < a ∨ a + len ≤ x) :
    swapEnds mem a len i x = mem x := by
  induction i with
  | zero => rfl
  | succ i ih =>
      rw [swapEnds, swap_apply, if_neg (by lia), if_neg (by lia)]
      exact ih (by lia)

theorem swapEnds_put :
    swapEnds (mem.put a bytes) a bytes.length (bytes.length / 2) = mem.put a bytes.reverse := by
  have hhalf : 2 * (bytes.length / 2) ≤ bytes.length := by lia
  funext x
  cases Nat.lt_or_ge x a with
  | inl hlt => rw [swapEnds_outside hhalf (Or.inl hlt), put_below hlt, put_below hlt]
  | inr hge =>
      cases Nat.lt_or_ge x (a + bytes.length) with
      | inr hout =>
          have hlen := bytes.length_reverse
          rw [swapEnds_outside hhalf (Or.inr hout), put_behind hout, put_behind (by lia)]
      | inl hin =>
          rcases Nat.exists_eq_add_of_le hge with ⟨j, hj⟩
          have hjlt : j < bytes.length := by lia
          have hjrev : j < bytes.reverse.length := by
            rw [List.length_reverse]
            exact hjlt
          rw [hj, swapEnds_inside hhalf j hjlt, put_inside hjrev, List.getElem_reverse]
          cases Classical.em (j < bytes.length / 2 ∨ bytes.length - bytes.length / 2 ≤ j) with
          | inl hyes => rw [if_pos hyes, put_inside (by lia)]
          | inr hno =>
              -- The byte in the middle.
              have hmid : bytes.length - 1 - j = j := by lia
              rw [if_neg hno, put_inside hjlt]
              simp only [hmid]

end Put

end Memory
end Lib
end NicoOS
