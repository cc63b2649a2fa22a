import Mathlib.Logic.Function.Basic
import Mathlib.Data.List.Nodup

/-!
# Doubly linked lists between two ends

A segment of links leads from one place through others to an end, which need not be linked
itself.  A list that hangs between two ends is a segment in both directions.
-/

namespace NicoOS
namespace Lib

universe u

variable {α : Type u}

def Segment (next : α -> Option α) : α -> List α -> α -> Prop
  | a, [], e => next a = some e
  | a, x :: xs, e => next a = some x ∧ Segment next x xs e

namespace Segment

variable {next next' : α -> Option α} {a b e : α} {xs ys : List α}

theorem append (a : α) (xs : List α) (b : α) (ys : List α) (e : α) :
    Segment next a (xs ++ b :: ys) e <-> Segment next a xs b ∧ Segment next b ys e := by
  induction xs generalizing a with
  | nil => exact Iff.rfl
  | cons x xs ih =>
      show next a = some x ∧ Segment next x (xs ++ b :: ys) e <->
        (next a = some x ∧ Segment next x xs b) ∧ Segment next b ys e
      rw [ih x, and_assoc]

theorem congr (h : Segment next a xs e) (hsame : forall p, p ∈ a :: xs -> next' p = next p) :
    Segment next' a xs e := by
  induction xs generalizing a with
  | nil => exact (hsame a List.mem_cons_self).trans h
  | cons x xs ih =>
      constructor
      · exact (hsame a List.mem_cons_self).trans h.left
      · exact ih h.right (fun p hp => hsame p (List.mem_cons_of_mem a hp))

theorem first (h : Segment next a xs e) : next a = some (xs.headD e) := by
  cases xs with
  | nil => exact h
  | cons x xs => exact h.left

theorem redirect [DecidableEq α] (h : Segment next a xs b) (hnodup : (a :: xs).Nodup) (e : α) :
    Segment (Function.update next (xs.getLastD a) (some e)) a xs e := by
  induction xs generalizing a with
  | nil => exact Function.update_self a (some e) next
  | cons x xs ih =>
      have hne : a ≠ (x :: xs).getLastD a := by
        intro heq
        apply (List.nodup_cons.mp hnodup).left
        rw [List.getLastD_cons] at heq
        rw [heq]
        exact List.getLastD_mem_cons
      constructor
      · rw [Function.update_of_ne hne]
        exact h.left
      · rw [List.getLastD_cons]
        exact ih h.right (List.nodup_cons.mp hnodup).right

theorem behind (h : Segment next a (xs ++ ys) e) : Segment next a xs (ys.headD e) := by
  cases ys with
  | nil =>
      rw [List.append_nil] at h
      exact h
  | cons y ys => exact ((append a xs y ys e).mp h).left

variable [DecidableEq α]

theorem remove (h : Segment next a (xs ++ b :: ys) e) (hnodup : (a :: (xs ++ b :: ys)).Nodup) :
    Segment (Function.update next (xs.getLastD a) (some (ys.headD e))) a (xs ++ ys) e := by
  rcases (append a xs b ys e).mp h with ⟨hfront, hback⟩
  rw [<- List.cons_append] at hnodup
  rcases List.nodup_append.mp hnodup with ⟨hfresh, -, hapart⟩
  cases ys with
  | nil =>
      rw [List.append_nil]
      exact hfront.redirect hfresh e
  | cons y ys =>
      apply (append a xs y ys e).mpr
      constructor
      · exact hfront.redirect hfresh y
      · apply hback.right.congr
        intro p hp
        apply Function.update_of_ne
        exact (hapart _ List.getLastD_mem_cons p (List.mem_cons_of_mem b hp)).symm

theorem insert (h : Segment next a (xs ++ ys) e) (hnodup : (a :: (xs ++ ys)).Nodup)
    (hb : b ∉ a :: (xs ++ ys)) :
    Segment (Function.update (Function.update next b (some (ys.headD e))) (xs.getLastD a) (some b))
      a (xs ++ b :: ys) e := by
  rw [<- List.cons_append] at hnodup hb
  rcases List.nodup_append.mp hnodup with ⟨hfresh, -, hapart⟩
  rw [List.mem_append, not_or] at hb
  rcases hb with ⟨hbfront, hbback⟩
  have hlast : xs.getLastD a ∈ a :: xs := List.getLastD_mem_cons
  have hne : b ≠ xs.getLastD a := fun heq => hbfront (heq ▸ hlast)
  apply (append a xs b ys e).mpr
  constructor
  · apply redirect _ hfresh b
    · exact ys.headD e
    · apply h.behind.congr
      intro p hp
      apply Function.update_of_ne
      intro heq
      subst heq
      exact hbfront hp
  · cases ys with
    | nil =>
        unfold Segment
        rw [Function.update_of_ne hne, Function.update_self]
        rfl
    | cons y ys =>
        constructor
        · rw [Function.update_of_ne hne, Function.update_self]
          rfl
        · apply ((append a xs y ys e).mp h).right.congr
          intro p hp
          rw [Function.update_of_ne (hapart _ hlast p hp).symm]
          apply Function.update_of_ne
          intro heq
          subst heq
          exact hbback hp

end Segment

/-!
# Both directions
-/

/-- The list `xs` hangs between `front` and `back`. -/
structure Hung (next prev : α -> Option α) (front back : α) (xs : List α) : Prop where
  nodup : (front :: (xs ++ [back])).Nodup
  forwards : Segment next front xs back
  backwards : Segment prev back xs.reverse front

namespace Hung

variable {next prev : α -> Option α} {front back b : α} {xs ys : List α}

theorem getLastD_reverse (xs : List α) (a : α) : xs.reverse.getLastD a = xs.headD a := by
  simp [List.getLastD_eq_getLast?, List.headD_eq_head?_getD]

theorem headD_reverse (xs : List α) (a : α) : xs.reverse.headD a = xs.getLastD a := by
  simp [List.getLastD_eq_getLast?, List.headD_eq_head?_getD]

theorem reverse (h : Hung next prev front back xs) : Hung prev next back front xs.reverse where
  nodup := by
    have hreverse : back :: (xs.reverse ++ [front]) = (front :: (xs ++ [back])).reverse := by simp
    rw [hreverse]
    exact List.nodup_reverse.mpr h.nodup
  forwards := h.backwards
  backwards := by
    rw [List.reverse_reverse]
    exact h.forwards

theorem nodup_front (h : Hung next prev front back xs) : (front :: xs).Nodup := by
  have hnodup := h.nodup
  rw [<- List.cons_append] at hnodup
  exact (List.nodup_append.mp hnodup).left

theorem neighbours (h : Hung next prev front back (xs ++ b :: ys)) :
    prev b = some (xs.getLastD front) ∧ next b = some (ys.headD back) := by
  have hbackwards := h.backwards
  have hreverse : (xs ++ b :: ys).reverse = ys.reverse ++ b :: xs.reverse := by simp
  rw [hreverse] at hbackwards
  constructor
  · have hprev := ((Segment.append _ _ _ _ _).mp hbackwards).right.first
    rw [headD_reverse] at hprev
    exact hprev
  · exact ((Segment.append _ _ _ _ _).mp h.forwards).right.first

theorem congr {next' prev' : α -> Option α} (h : Hung next prev front back xs)
    (hnext : forall p, p ∈ front :: xs -> next' p = next p)
    (hprev : forall p, p ∈ back :: xs -> prev' p = prev p) :
    Hung next' prev' front back xs where
  nodup := h.nodup
  forwards := h.forwards.congr hnext
  backwards := by
    apply h.backwards.congr
    intro p hp
    rw [List.mem_cons, List.mem_reverse] at hp
    exact hprev p (List.mem_cons.mpr hp)

variable [DecidableEq α]

theorem unlink (h : Hung next prev front back (xs ++ b :: ys)) :
    Hung (Function.update next (xs.getLastD front) (some (ys.headD back)))
      (Function.update prev (ys.headD back) (some (xs.getLastD front))) front back (xs ++ ys) where
  nodup := by
    have hsub : (xs ++ ys).Sublist (xs ++ b :: ys) :=
      List.Sublist.append_left (List.sublist_cons_self b ys) xs
    exact List.Nodup.sublist ((hsub.append_right [back]).cons_cons front) h.nodup
  forwards := h.forwards.remove h.nodup_front
  backwards := by
    have hreverse : (xs ++ b :: ys).reverse = ys.reverse ++ b :: xs.reverse := by simp
    have hback := h.reverse
    rw [hreverse] at hback
    have hremove := hback.forwards.remove hback.nodup_front
    rw [getLastD_reverse, headD_reverse] at hremove
    rw [List.reverse_append]
    exact hremove

theorem link (h : Hung next prev front back (xs ++ ys)) (hb : b ∉ front :: (xs ++ ys ++ [back])) :
    Hung (Function.update (Function.update next b (some (ys.headD back))) (xs.getLastD front)
        (some b))
      (Function.update (Function.update prev b (some (xs.getLastD front))) (ys.headD back)
        (some b)) front back (xs ++ b :: ys) where
  nodup := by
    have hperm : (front :: (xs ++ b :: ys ++ [back])).Perm
        (b :: front :: (xs ++ ys ++ [back])) := by
      apply List.Perm.trans _ (List.Perm.swap b front _)
      apply List.Perm.cons
      rw [List.append_assoc, List.append_assoc]
      exact List.perm_middle
    exact hperm.nodup_iff.mpr (List.nodup_cons.mpr ⟨hb, h.nodup⟩)
  forwards := by
    apply h.forwards.insert h.nodup_front
    intro hin
    apply hb
    rw [<- List.cons_append]
    exact List.mem_append_left _ hin
  backwards := by
    have hreverse : (xs ++ ys).reverse = ys.reverse ++ xs.reverse := by simp
    have hback := h.reverse
    rw [hreverse] at hback
    have hfresh : b ∉ back :: (ys.reverse ++ xs.reverse) := by
      intro hin
      apply hb
      simp only [List.mem_cons, List.mem_append, List.mem_reverse] at hin ⊢
      rcases hin with hend | hys | hxs
      · exact Or.inr (Or.inr (Or.inl hend))
      · exact Or.inr (Or.inl (Or.inr hys))
      · exact Or.inr (Or.inl (Or.inl hxs))
    have hinsert := hback.forwards.insert hback.nodup_front hfresh
    rw [getLastD_reverse, headD_reverse] at hinsert
    rw [List.reverse_append, List.reverse_cons, List.append_assoc]
    exact hinsert

end Hung
end Lib
end NicoOS
