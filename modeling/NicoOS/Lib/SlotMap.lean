import Mathlib.Logic.Function.Basic
import Mathlib.Tactic.Common

/-!
# Tables of slots

A table has slots that are empty or bind a key to a value.  A table whose keys are
distinct is a finite map; storing into an empty slot or behind the last one adds a
binding, and clearing a slot removes one.
-/

namespace NicoOS
namespace Lib
namespace SlotMap

variable {κ β : Type} [DecidableEq κ]

/-- The first slot from `k` on that binds a key, among `n` slots. -/
def find (slots : Nat -> Option (κ × β)) (key : κ) : Nat -> Nat -> Option (Nat × β)
  | 0, _ => none
  | n + 1, k =>
      match slots k with
      | none => find slots key n (k + 1)
      | some (l, b) => if l = key then some (k, b) else find slots key n (k + 1)

/-- The first empty slot from `k` on, or the place behind the `n` slots. -/
def firstFree (slots : Nat -> Option (κ × β)) : Nat -> Nat -> Nat
  | 0, k => k
  | n + 1, k => if (slots k).isNone then k else firstFree slots n (k + 1)

def binding (slots : Nat -> Option (κ × β)) (n : Nat) (key : κ) : Option β :=
  (find slots key n 0).map Prod.snd

def Distinct (slots : Nat -> Option (κ × β)) (n : Nat) : Prop :=
  forall j k l b c, j < n -> k < n -> slots j = some (l, b) -> slots k = some (l, c) -> j = k

variable {slots slots' : Nat -> Option (κ × β)} {n n' : Nat} {key : κ}

theorem find_some {k i : Nat} {b : β} (h : find slots key n k = some (i, b)) :
    k ≤ i ∧ i < k + n ∧ slots i = some (key, b) := by
  induction n generalizing k with
  | zero => cases h
  | succ n ih =>
      unfold find at h
      cases hslot : slots k with
      | none =>
          rw [hslot] at h
          rcases ih h with ⟨h1, h2, h3⟩
          exact ⟨by lia, by lia, h3⟩
      | some p =>
          rcases p with ⟨l, c⟩
          rw [hslot] at h
          simp only at h
          cases Classical.em (l = key) with
          | inl heq =>
              rw [if_pos heq] at h
              cases h
              rw [heq] at hslot
              exact ⟨by lia, by lia, hslot⟩
          | inr hne =>
              rw [if_neg hne] at h
              rcases ih h with ⟨h1, h2, h3⟩
              exact ⟨by lia, by lia, h3⟩

theorem find_none {k : Nat} (h : find slots key n k = none) {i : Nat} (h1 : k ≤ i)
    (h2 : i < k + n) (b : β) : slots i ≠ some (key, b) := by
  induction n generalizing k with
  | zero => lia
  | succ n ih =>
      unfold find at h
      intro hi
      cases Nat.eq_or_lt_of_le h1 with
      | inl heq =>
          rw [heq, hi] at h
          simp at h
      | inr hlt =>
          cases hslot : slots k with
          | none =>
              rw [hslot] at h
              exact ih h hlt (by lia) hi
          | some p =>
              rcases p with ⟨l, c⟩
              rw [hslot] at h
              simp only at h
              cases Classical.em (l = key) with
              | inl heq =>
                  rw [if_pos heq] at h
                  cases h
              | inr hne =>
                  rw [if_neg hne] at h
                  exact ih h hlt (by lia) hi

theorem find_eq_some_iff (hd : Distinct slots n) {k : Nat} {b : β} :
    find slots key n 0 = some (k, b) <-> k < n ∧ slots k = some (key, b) := by
  constructor
  · intro h
    rcases find_some h with ⟨_, h2, h3⟩
    exact And.intro (by lia) h3
  · intro h
    cases hfind : find slots key n 0 with
    | none => exact absurd h.right (find_none hfind (Nat.zero_le k) (by lia) b)
    | some p =>
        rcases p with ⟨j, c⟩
        rcases find_some hfind with ⟨_, h2, h3⟩
        have hjk := hd j k key c b (by lia) h.left h3 h.right
        rw [hjk, h.right] at h3
        cases h3
        rw [hjk]

theorem binding_eq_some_iff (hd : Distinct slots n) {b : β} :
    binding slots n key = some b <-> exists k, k < n ∧ slots k = some (key, b) := by
  unfold binding
  constructor
  · intro h
    rcases Option.map_eq_some_iff.mp h with ⟨p, hp, hb⟩
    rcases p with ⟨k, c⟩
    cases hb
    exact ⟨k, (find_eq_some_iff hd).mp hp⟩
  · intro h
    rcases h with ⟨k, hk⟩
    rw [(find_eq_some_iff hd).mpr hk]
    rfl

theorem binding_eq_none_iff (hd : Distinct slots n) :
    binding slots n key = none <-> forall k b, k < n -> slots k ≠ some (key, b) := by
  constructor
  · intro h k b hk hslot
    have hsome := (binding_eq_some_iff hd).mpr ⟨k, hk, hslot⟩
    rw [h] at hsome
    cases hsome
  · intro h
    cases hb : binding slots n key with
    | none => rfl
    | some b =>
        rcases (binding_eq_some_iff hd).mp hb with ⟨k, hk, hslot⟩
        exact absurd hslot (h k b hk)

theorem binding_eq_none (h : find slots key n 0 = none) : binding slots n key = none := by
  unfold binding
  rw [h]
  rfl

theorem binding_eq_some {k : Nat} {b : β} (h : find slots key n 0 = some (k, b)) :
    binding slots n key = some b := by
  unfold binding
  rw [h]
  rfl

/-!
# Storing and clearing
-/

theorem firstFree_le (slots : Nat -> Option (κ × β)) (n k : Nat) :
    k ≤ firstFree slots n k ∧ firstFree slots n k ≤ k + n := by
  induction n generalizing k with
  | zero => exact And.intro (Nat.le_refl k) (Nat.le_refl k)
  | succ n ih =>
      unfold firstFree
      split
      · lia
      · have hrest := ih (k + 1)
        lia

theorem slots_firstFree (k : Nat) (h : firstFree slots n k < k + n) :
    slots (firstFree slots n k) = none := by
  induction n generalizing k with
  | zero =>
      unfold firstFree at h
      lia
  | succ n ih =>
      unfold firstFree at h ⊢
      split at h
      · rename_i hnone
        rw [if_pos hnone]
        exact Option.isNone_iff_eq_none.mp hnone
      · rename_i hsome
        rw [if_neg hsome]
        exact ih (k + 1) (by lia)

theorem ne_none_of_firstFree {k : Nat} (h : firstFree slots n k = k + n) (j : Nat) (h1 : k ≤ j)
    (h2 : j < k + n) : slots j ≠ none := by
  induction n generalizing k with
  | zero => lia
  | succ n ih =>
      unfold firstFree at h
      split at h
      · lia
      · rename_i hsome
        cases Nat.eq_or_lt_of_le h1 with
        | inl heq =>
            rw [← heq]
            exact fun hnone => hsome (Option.isNone_iff_eq_none.mpr hnone)
        | inr hlt => exact ih (by lia) hlt (by lia)

/-- Slot `k`, which may be the one behind the last, was given a new content. -/
structure Stored (slots : Nat -> Option (κ × β)) (n k : Nat) (x : Option (κ × β))
    (slots' : Nat -> Option (κ × β)) (n' : Nat) : Prop where
  inside : k < n'
  grown : forall j, j < n' -> j ≠ k -> j < n
  kept : n ≤ n'
  self : slots' k = x
  others : forall j, j < n -> j ≠ k -> slots' j = slots j

theorem Stored.distinct {k : Nat} {b : β} (h : Stored slots n k (some (key, b)) slots' n')
    (hd : Distinct slots n) (hnew : binding slots n key = none) : Distinct slots' n' := by
  have hmiss := (binding_eq_none_iff hd).mp hnew
  intro i j l c d hi hj hsi hsj
  cases Classical.em (i = k) with
  | inl hik =>
      cases Classical.em (j = k) with
      | inl hjk => rw [hik, hjk]
      | inr hjk =>
          have hjn := h.grown j hj hjk
          rw [hik, h.self] at hsi
          cases hsi
          rw [h.others j hjn hjk] at hsj
          exact absurd hsj (hmiss j d hjn)
  | inr hik =>
      have hin := h.grown i hi hik
      rw [h.others i hin hik] at hsi
      cases Classical.em (j = k) with
      | inl hjk =>
          rw [hjk, h.self] at hsj
          cases hsj
          exact absurd hsi (hmiss i c hin)
      | inr hjk =>
          have hjn := h.grown j hj hjk
          rw [h.others j hjn hjk] at hsj
          exact hd i j l c d hin hjn hsi hsj

/-- Storing a new key where nothing was bound adds exactly its binding. -/
theorem Stored.binding_eq {k : Nat} {b : β} (h : Stored slots n k (some (key, b)) slots' n')
    (hd : Distinct slots n) (hnew : binding slots n key = none)
    (hfree : k < n -> slots k = none) :
    binding slots' n' = Function.update (binding slots n) key (some b) := by
  have hd' := h.distinct hd hnew
  funext l
  cases Classical.em (l = key) with
  | inl heq =>
      rw [heq, Function.update_self]
      exact (binding_eq_some_iff hd').mpr ⟨k, h.inside, h.self⟩
  | inr hne =>
      rw [Function.update_of_ne hne]
      cases hb : binding slots n l with
      | none =>
          apply (binding_eq_none_iff hd').mpr
          intro j c hj hslot
          cases Classical.em (j = k) with
          | inl hjk =>
              rw [hjk, h.self] at hslot
              cases hslot
              exact hne rfl
          | inr hjk =>
              have hjn := h.grown j hj hjk
              rw [h.others j hjn hjk] at hslot
              exact (binding_eq_none_iff hd).mp hb j c hjn hslot
      | some c =>
          rcases (binding_eq_some_iff hd).mp hb with ⟨j, hj, hslot⟩
          apply (binding_eq_some_iff hd').mpr
          have hjk : j ≠ k := by
            intro hjk
            rw [hjk] at hj hslot
            rw [hfree hj] at hslot
            cases hslot
          refine ⟨j, by have hle := h.kept; lia, ?_⟩
          rw [h.others j hj hjk]
          exact hslot

theorem Stored.distinct_clear {k : Nat} (h : Stored slots n k none slots' n')
    (hd : Distinct slots n) : Distinct slots' n' := by
  intro i j l c d hi hj hsi hsj
  have hik : i ≠ k := by
    intro hik
    rw [hik, h.self] at hsi
    cases hsi
  have hjk : j ≠ k := by
    intro hjk
    rw [hjk, h.self] at hsj
    cases hsj
  have hin := h.grown i hi hik
  have hjn := h.grown j hj hjk
  rw [h.others i hin hik] at hsi
  rw [h.others j hjn hjk] at hsj
  exact hd i j l c d hin hjn hsi hsj

/-- Clearing the slot of a key removes exactly its binding. -/
theorem Stored.binding_clear {k : Nat} {b : β} (h : Stored slots n k none slots' n')
    (hd : Distinct slots n) (hk : k < n) (hslot : slots k = some (key, b)) :
    binding slots' n' = Function.update (binding slots n) key none := by
  have hd' := h.distinct_clear hd
  funext l
  cases Classical.em (l = key) with
  | inl heq =>
      rw [heq, Function.update_self]
      apply (binding_eq_none_iff hd').mpr
      intro j c hj hjslot
      cases Classical.em (j = k) with
      | inl hjk =>
          rw [hjk, h.self] at hjslot
          cases hjslot
      | inr hjk =>
          have hjn := h.grown j hj hjk
          rw [h.others j hjn hjk] at hjslot
          exact hjk (hd j k key c b hjn hk hjslot hslot)
  | inr hne =>
      rw [Function.update_of_ne hne]
      cases hb : binding slots n l with
      | none =>
          apply (binding_eq_none_iff hd').mpr
          intro j c hj hjslot
          have hjk : j ≠ k := by
            intro hjk
            rw [hjk, h.self] at hjslot
            cases hjslot
          have hjn := h.grown j hj hjk
          rw [h.others j hjn hjk] at hjslot
          exact (binding_eq_none_iff hd).mp hb j c hjn hjslot
      | some c =>
          rcases (binding_eq_some_iff hd).mp hb with ⟨j, hj, hjslot⟩
          apply (binding_eq_some_iff hd').mpr
          have hjk : j ≠ k := by
            intro hjk
            rw [hjk, hslot] at hjslot
            cases hjslot
            exact hne rfl
          refine ⟨j, by have hle := h.kept; lia, ?_⟩
          rw [h.others j hj hjk]
          exact hjslot

end SlotMap
end Lib
end NicoOS
