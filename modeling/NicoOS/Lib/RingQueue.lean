import Mathlib.Tactic.Common

/-!
# Ring buffers

A ring stores its next element at `head` and takes the oldest one from `tail`.
The two positions alone do not tell a full ring from an empty one.
-/

namespace NicoOS
namespace Lib

universe u

structure RingQueue (α : Type u) where
  buf : Nat -> α
  size : Nat
  head : Nat
  tail : Nat

namespace RingQueue

variable {α : Type u}

def nextPos (size pos : Nat) : Nat := (pos + 1) % size

def push (r : RingQueue α) (x : α) : RingQueue α :=
  { r with
    buf := fun k => if k = r.head then x else r.buf k
    head := nextPos r.size r.head }

def front (r : RingQueue α) : α := r.buf r.tail

def pop (r : RingQueue α) : RingQueue α :=
  { r with tail := nextPos r.size r.tail }

/-- The elements between `tail` and `head`, oldest first. -/
structure Holds (r : RingQueue α) (xs : List α) : Prop where
  tail_lt : r.tail < r.size
  length_le : xs.length ≤ r.size
  head_eq : r.head = (r.tail + xs.length) % r.size
  elems : forall k (h : k < xs.length), r.buf ((r.tail + k) % r.size) = xs.get ⟨k, h⟩

variable {r : RingQueue α} {xs : List α}

theorem Holds.head_eq_tail_iff (h : Holds r xs) :
    r.head = r.tail <-> xs.length = 0 ∨ xs.length = r.size := by
  have htail := h.tail_lt
  have hle := h.length_le
  rw [h.head_eq]
  cases Nat.lt_or_ge (r.tail + xs.length) r.size with
  | inl hlt =>
      rw [Nat.mod_eq_of_lt hlt]
      lia
  | inr hge =>
      rw [Nat.mod_eq_sub_mod hge, Nat.mod_eq_of_lt (by lia)]
      lia

theorem pos_ne {size tail j k : Nat} (htail : tail < size) (hjk : j < k)
    (hk : k < size) : (tail + j) % size ≠ (tail + k) % size := by
  cases Nat.lt_or_ge (tail + k) size with
  | inl hlt =>
      rw [Nat.mod_eq_of_lt hlt, Nat.mod_eq_of_lt (by lia)]
      lia
  | inr hge =>
      rw [Nat.mod_eq_sub_mod hge, Nat.mod_eq_of_lt (a := tail + k - size) (by lia)]
      cases Nat.lt_or_ge (tail + j) size with
      | inl hlt =>
          rw [Nat.mod_eq_of_lt hlt]
          lia
      | inr hge' =>
          rw [Nat.mod_eq_sub_mod hge', Nat.mod_eq_of_lt (by lia)]
          lia

theorem Holds.push (h : Holds r xs) (hroom : xs.length < r.size) (x : α) :
    Holds (r.push x) (xs ++ [x]) := by
  have htail := h.tail_lt
  constructor
  · exact htail
  · rw [List.length_append]
    exact hroom
  · show (r.head + 1) % r.size = (r.tail + (xs ++ [x]).length) % r.size
    rw [h.head_eq, Nat.mod_add_mod, List.length_append]
    rfl
  · intro k hk
    rw [List.length_append] at hk
    show (if (r.tail + k) % r.size = r.head then x else r.buf ((r.tail + k) % r.size)) = _
    rw [h.head_eq]
    cases Nat.lt_or_ge k xs.length with
    | inl hlt =>
        rw [if_neg (pos_ne htail hlt hroom), h.elems k hlt]
        exact (List.getElem_append_left hlt).symm
    | inr hge =>
        have hkx : k = xs.length := Nat.le_antisymm (Nat.le_of_lt_succ hk) hge
        subst hkx
        rw [if_pos rfl]
        exact (List.getElem_concat_length rfl (by simp)).symm

theorem Holds.front {x : α} (h : Holds r (x :: xs)) : r.front = x := by
  have hfirst := h.elems 0 (Nat.succ_pos _)
  rw [Nat.add_zero, Nat.mod_eq_of_lt h.tail_lt] at hfirst
  exact hfirst

theorem Holds.pop {x : α} (h : Holds r (x :: xs)) : Holds r.pop xs := by
  have htail := h.tail_lt
  have hle := h.length_le
  rw [List.length_cons] at hle
  have hshift : forall k, (nextPos r.size r.tail + k) % r.size =
      (r.tail + (k + 1)) % r.size := by
    intro k
    unfold nextPos
    rw [Nat.mod_add_mod]
    congr 1
    lia
  constructor
  · exact Nat.mod_lt _ (Nat.lt_of_le_of_lt (Nat.zero_le _) htail)
  · exact Nat.le_of_succ_le hle
  · show r.head = (nextPos r.size r.tail + xs.length) % r.size
    rw [hshift, h.head_eq]
    rfl
  · intro k hk
    show r.buf ((nextPos r.size r.tail + k) % r.size) = _
    rw [hshift]
    exact h.elems (k + 1) (Nat.succ_lt_succ hk)

end RingQueue
end Lib
end NicoOS
