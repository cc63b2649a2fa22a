import Mathlib.Logic.Function.Basic
import Mathlib.Data.List.Nodup

/-!
# Circular doubly linked lists

The nodes of a list hang between a head node, written `none`, and itself.  The
links backwards run through the same nodes in reverse, so what holds of a chain of
links forwards holds of the links backwards as well.
-/

namespace NicoOS
namespace Lib

universe u

variable {α : Type u}

/-- The links lead from `a` through `xs` and back to the head. -/
def Chained (next : Option α -> Option α) : Option α -> List α -> Prop
  | a, [] => next a = none
  | a, x :: xs => next a = some x ∧ Chained next (some x) xs

def lastNode : Option α -> List α -> Option α
  | a, [] => a
  | _, x :: xs => lastNode (some x) xs

theorem lastNode_mem (a : Option α) (xs : List α) :
    lastNode a xs = a ∨ exists x, x ∈ xs ∧ lastNode a xs = some x := by
  induction xs generalizing a with
  | nil => exact Or.inl rfl
  | cons x xs ih =>
      right
      rcases ih (some x) with heq | ⟨y, hy, heq⟩
      · exact ⟨x, List.mem_cons_self, heq⟩
      · exact ⟨y, List.mem_cons_of_mem x hy, heq⟩

theorem Chained.congr {next next' : Option α -> Option α} {a : Option α} {xs : List α}
    (h : Chained next a xs) (ha : next' a = next a)
    (hxs : forall x, x ∈ xs -> next' (some x) = next (some x)) : Chained next' a xs := by
  induction xs generalizing a with
  | nil => exact ha.trans h
  | cons x xs ih =>
      constructor
      · exact ha.trans h.left
      · exact ih h.right (hxs x List.mem_cons_self)
          (fun y hy => hxs y (List.mem_cons_of_mem x hy))

theorem Chained.behind {next : Option α -> Option α} {a : Option α} {xs ys : List α}
    (h : Chained next a (xs ++ ys)) : Chained next (lastNode a xs) ys := by
  induction xs generalizing a with
  | nil => exact h
  | cons x xs ih => exact ih h.right

/-- Behind a node comes the first of the nodes that the links lead through. -/
theorem Chained.next_eq {next : Option α -> Option α} {a : Option α} {xs : List α}
    (h : Chained next a xs) : next a = lastNode none xs.reverse := by
  have hlast : forall (c : Option α) (ys : List α) (y : α), lastNode c (ys ++ [y]) = some y := by
    intro c ys y
    induction ys generalizing c with
    | nil => rfl
    | cons z zs ih => exact ih (some z)
  cases xs with
  | nil => exact h
  | cons x xs =>
      rw [List.reverse_cons, hlast]
      exact h.left

/-- A walk along the links that stops at the first node with the property. -/
def walk (next : Option α -> Option α) (p : α -> Bool) : Nat -> Option α -> Option α
  | 0, _ => none
  | _ + 1, none => none
  | fuel + 1, some x => if p x then some x else walk next p fuel (next (some x))

/-- A walk finds a node with the property, whatever the links. -/
theorem walk_property {next : Option α -> Option α} {p : α -> Bool} {fuel : Nat} {a : Option α}
    {x : α} (h : walk next p fuel a = some x) : p x = true := by
  induction fuel generalizing a with
  | zero => cases h
  | succ fuel ih =>
      cases a with
      | none => cases h
      | some y =>
          rw [walk] at h
          cases hp : p y with
          | true =>
              rw [hp, if_pos rfl] at h
              cases h
              exact hp
          | false =>
              rw [hp, if_neg Bool.false_ne_true] at h
              exact ih h

theorem Chained.walk_eq {next : Option α -> Option α} {a : Option α} {xs : List α}
    (h : Chained next a xs) (p : α -> Bool) {fuel : Nat} (hfuel : xs.length < fuel) :
    walk next p fuel (next a) = xs.find? p := by
  induction xs generalizing a fuel with
  | nil =>
      rw [h]
      cases fuel with
      | zero => cases hfuel
      | succ fuel => rfl
  | cons x xs ih =>
      rw [h.left]
      cases fuel with
      | zero => cases hfuel
      | succ fuel =>
          rw [walk, List.find?_cons]
          cases hp : p x with
          | true => rfl
          | false => exact ih h.right (Nat.lt_of_succ_lt_succ hfuel)

variable [DecidableEq α]

theorem Chained.unlink {next : Option α -> Option α} {a : Option α} {b : α} {xs ys : List α}
    (h : Chained next a (xs ++ b :: ys)) (hnodup : (xs ++ b :: ys).Nodup)
    (ha : forall x, x ∈ xs ++ b :: ys -> a ≠ some x) :
    Chained (Function.update next (lastNode a xs) (next (some b))) a (xs ++ ys) := by
  induction xs generalizing a with
  | nil =>
      rcases h with ⟨_, hys⟩
      cases ys with
      | nil =>
          show Function.update next a (next (some b)) a = none
          rw [Function.update_self]
          exact hys
      | cons y ys =>
          constructor
          · show Function.update next a (next (some b)) a = some y
            rw [Function.update_self]
            exact hys.left
          · apply hys.right.congr
            · exact Function.update_of_ne (Ne.symm (ha y (by simp))) _ _
            · intro x hx
              exact Function.update_of_ne (Ne.symm (ha x (by simp [hx]))) _ _
  | cons x xs ih =>
      have hrest : (xs ++ b :: ys).Nodup := (List.nodup_cons.mp hnodup).right
      have hnew : Not (x ∈ xs ++ b :: ys) := (List.nodup_cons.mp hnodup).left
      have hx : forall y, y ∈ xs ++ b :: ys -> some x ≠ some y := by
        intro y hy heq
        rw [Option.some.inj heq] at hnew
        exact hnew hy
      have hlast : a ≠ lastNode (some x) xs := by
        rcases lastNode_mem (some x) xs with heq | ⟨y, hy, heq⟩
        · rw [heq]
          exact ha x List.mem_cons_self
        · rw [heq]
          exact ha y (by simp [hy])
      constructor
      · show Function.update next (lastNode (some x) xs) (next (some b)) a = some x
        rw [Function.update_of_ne hlast]
        exact h.left
      · exact ih h.right hrest hx

theorem Chained.insert {next : Option α -> Option α} {a : Option α} {b : α} {xs ys : List α}
    (h : Chained next a (xs ++ ys)) (hnodup : (xs ++ ys).Nodup)
    (ha : forall x, x ∈ xs ++ ys -> a ≠ some x) (hab : a ≠ some b)
    (hb : Not (b ∈ xs ++ ys)) :
    Chained (Function.update (Function.update next (lastNode a xs) (some b)) (some b)
      (next (lastNode a xs))) a (xs ++ b :: ys) := by
  induction xs generalizing a with
  | nil =>
      have hbs : forall x, x ∈ ys -> some x ≠ some b := by
        intro x hx heq
        rw [Option.some.inj heq] at hx
        exact hb hx
      constructor
      · show Function.update (Function.update next a (some b)) (some b) (next a) a = some b
        rw [Function.update_of_ne hab, Function.update_self]
      · cases ys with
        | nil =>
            show Function.update (Function.update next a (some b)) (some b) (next a) (some b) = _
            rw [Function.update_self]
            exact h
        | cons y ys =>
            constructor
            · show Function.update (Function.update next a (some b)) (some b) (next a) (some b) = _
              rw [Function.update_self]
              exact h.left
            · apply h.right.congr
              · rw [Function.update_of_ne (hbs y List.mem_cons_self)]
                exact Function.update_of_ne (Ne.symm (ha y List.mem_cons_self)) _ _
              · intro x hx
                have hmem := List.mem_cons_of_mem y hx
                rw [Function.update_of_ne (hbs x hmem)]
                exact Function.update_of_ne (Ne.symm (ha x hmem)) _ _
  | cons x xs ih =>
      have hrest : (xs ++ ys).Nodup := (List.nodup_cons.mp hnodup).right
      have hnew : Not (x ∈ xs ++ ys) := (List.nodup_cons.mp hnodup).left
      have hx : forall y, y ∈ xs ++ ys -> some x ≠ some y := by
        intro y hy heq
        rw [Option.some.inj heq] at hnew
        exact hnew hy
      have hxb : some x ≠ some b := by
        intro heq
        rw [Option.some.inj heq] at hb
        exact hb List.mem_cons_self
      have hlast : a ≠ lastNode (some x) xs := by
        rcases lastNode_mem (some x) xs with heq | ⟨y, hy, heq⟩
        · rw [heq]
          exact ha x List.mem_cons_self
        · rw [heq]
          exact ha y (by simp [hy])
      constructor
      · show Function.update (Function.update next (lastNode (some x) xs) (some b)) (some b)
          (next (lastNode (some x) xs)) a = some x
        rw [Function.update_of_ne hab, Function.update_of_ne hlast]
        exact h.left
      · exact ih h.right hrest hx hxb (fun hmem => hb (List.mem_cons_of_mem x hmem))

/-!
# Both directions
-/

structure Links (α : Type u) where
  next : Option α -> Option α
  prev : Option α -> Option α

namespace Links

def unlink (l : Links α) (b : α) : Links α :=
  { next := Function.update l.next (l.prev (some b)) (l.next (some b))
    prev := Function.update l.prev (l.next (some b)) (l.prev (some b)) }

def insertHead (l : Links α) (b : α) : Links α :=
  { next := Function.update (Function.update l.next none (some b)) (some b) (l.next none)
    prev := Function.update (Function.update l.prev (l.next none) (some b)) (some b) none }

/-- The links in both directions form a circle through the nodes of the list. -/
structure Circle (l : Links α) (xs : List α) : Prop where
  nodup : xs.Nodup
  forwards : Chained l.next none xs
  backwards : Chained l.prev none xs.reverse

omit [DecidableEq α] in
theorem none_ne_some {xs : List α} : forall x, x ∈ xs -> (none : Option α) ≠ some x :=
  fun x _ => (Option.some_ne_none x).symm

variable {l : Links α} {xs ys : List α} {b : α}

omit [DecidableEq α] in
theorem Circle.neighbours (h : l.Circle (xs ++ b :: ys)) :
    l.prev (some b) = lastNode none xs ∧ l.next (some b) = lastNode none ys.reverse := by
  have hbackwards := h.backwards
  have hreverse : (xs ++ b :: ys).reverse = ys.reverse ++ b :: xs.reverse := by simp
  rw [hreverse] at hbackwards
  constructor
  · have hprev := (hbackwards.behind.right).next_eq
    rw [List.reverse_reverse] at hprev
    exact hprev
  · exact (h.forwards.behind.right).next_eq

theorem Circle.unlink (h : l.Circle (xs ++ b :: ys)) : (l.unlink b).Circle (xs ++ ys) := by
  rcases h.neighbours with ⟨hprev, hnext⟩
  have hreverse : (xs ++ b :: ys).reverse = ys.reverse ++ b :: xs.reverse := by simp
  have hnodup := h.nodup
  have hbackwards := h.backwards
  have hback : (xs ++ b :: ys).reverse.Nodup := List.nodup_reverse.mpr hnodup
  rw [hreverse] at hbackwards hback
  constructor
  · exact hnodup.sublist (List.Sublist.append_left (List.sublist_cons_self b ys) xs)
  · unfold Links.unlink
    rw [hprev]
    exact h.forwards.unlink hnodup none_ne_some
  · unfold Links.unlink
    rw [hnext, List.reverse_append]
    exact hbackwards.unlink hback none_ne_some

theorem Circle.insertHead (h : l.Circle xs) (hb : Not (b ∈ xs)) :
    (l.insertHead b).Circle (b :: xs) := by
  have hnext : l.next none = lastNode none xs.reverse := h.forwards.next_eq
  have hend : l.prev (lastNode none xs.reverse) = none := by
    have hchain := h.backwards
    rw [← List.append_nil xs.reverse] at hchain
    exact hchain.behind
  have hback : Chained l.prev none (xs.reverse ++ []) := by
    rw [List.append_nil]
    exact h.backwards
  constructor
  · exact List.nodup_cons.mpr ⟨hb, h.nodup⟩
  · have hfront : Chained l.next none ([] ++ xs) := h.forwards
    exact hfront.insert h.nodup none_ne_some (Option.some_ne_none b).symm hb
  · have hinsert := hback.insert (b := b) (by simp [h.nodup]) none_ne_some
      (Option.some_ne_none b).symm (by simp [hb])
    rw [hend] at hinsert
    unfold Links.insertHead
    rw [hnext, List.reverse_cons]
    exact hinsert

end Links
end Lib
end NicoOS
