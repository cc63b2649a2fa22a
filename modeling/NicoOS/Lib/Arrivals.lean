import Mathlib.Data.List.Induction
import Mathlib.Data.List.Nodup
import Mathlib.Tactic.Common

/-!
# Orders of arrival

A queue is seen through what happens at it.  If every pick takes the member that has waited
longest, a member that joins is not picked before those that it has found there.
-/

namespace NicoOS
namespace Lib

universe u

inductive Event (α : Type u) where
  | enqueued (x : α)
  | dequeued (x : α)
  | picked (x : α)
  deriving DecidableEq, Repr

namespace Event

variable {α : Type u} [DecidableEq α]

/-- The members behind an event, in the order of their arrival. -/
def apply (members : List α) : Event α -> List α
  | enqueued x => members ++ [x]
  | dequeued x => members.erase x
  | picked x => members.erase x

def waiting (history : List (Event α)) : List α := history.foldl apply []

/-- Only those join that are not there. -/
def Valid (history : List (Event α)) : Prop :=
  forall before x, before ++ [enqueued x] <+: history -> x ∉ waiting before

/-- A pick takes the member that has waited longest. -/
def FirstInFirstOut (history : List (Event α)) : Prop :=
  forall before x, before ++ [picked x] <+: history -> waiting before ≠ [] ->
    (waiting before).head? = some x

/-- Nobody is picked before all that were there when it joined are picked or have left. -/
def Fair (history : List (Event α)) : Prop :=
  forall before x between, before ++ enqueued x :: between ++ [picked x] <+: history ->
    forall y, y ∈ waiting before -> picked y ∈ between ∨ dequeued y ∈ between

section Histories

variable {history before between : List (Event α)} {members : List α} {x y : α} {e : Event α}

theorem waiting_concat (before : List (Event α)) (e : Event α) :
    waiting (before ++ [e]) = apply (waiting before) e := by
  simp [waiting, List.foldl_append]

theorem Valid.nodup (h : Valid history) (before : List (Event α)) :
    before <+: history -> (waiting before).Nodup := by
  induction before using List.reverseRecOn with
  | nil => exact fun _ => List.nodup_nil
  | append_singleton before e ih =>
      intro hbefore
      have hnodup := ih ((List.prefix_append before [e]).trans hbefore)
      rw [waiting_concat]
      cases e with
      | enqueued x =>
          rw [apply, List.nodup_append_comm]
          exact List.nodup_cons.mpr ⟨h before x hbefore, hnodup⟩
      | dequeued x => exact hnodup.erase x
      | picked x => exact hnodup.erase x

/-- `y` is there, and `x` only behind it. -/
def Ahead (y x : α) (members : List α) : Prop :=
  y ∈ members ∧ (x ∈ members -> [y, x].Sublist members)

omit [DecidableEq α] in
theorem Ahead.join (h : Ahead y x members) (u : α) :
    Ahead y x (members ++ [u]) := by
  refine ⟨List.mem_append_left _ h.left, ?_⟩
  intro hx
  rcases List.mem_append.mp hx with hin | hnew
  · exact (h.right hin).trans (List.sublist_append_left members [u])
  · rw [List.mem_singleton.mp hnew]
    exact (List.singleton_sublist.mpr h.left).append (List.Sublist.refl [u])

theorem Ahead.leave (h : Ahead y x members) (hnodup : members.Nodup) {u : α} (hu : u ≠ y) :
    Ahead y x (members.erase u) := by
  refine ⟨(List.mem_erase_of_ne hu.symm).mpr h.left, ?_⟩
  intro hx
  rcases hnodup.mem_erase_iff.mp hx with ⟨hne, hin⟩
  have hout : u ∉ [y, x] := by
    simp [hu, hne.symm]
  have hsub := (h.right hin).erase u
  rw [List.erase_of_not_mem hout] at hsub
  exact hsub

/-- A member that neither is picked nor leaves stays ahead of those that join later. -/
theorem Valid.ahead (h : Valid history) (hy : y ∈ waiting before) (between : List (Event α)) :
    before ++ enqueued x :: between <+: history -> picked y ∉ between -> dequeued y ∉ between ->
    Ahead y x (waiting (before ++ enqueued x :: between)) := by
  induction between using List.reverseRecOn with
  | nil =>
      intro hhistory _ _
      rw [waiting_concat]
      refine ⟨List.mem_append_left _ hy, fun _ => ?_⟩
      exact (List.singleton_sublist.mpr hy).append (List.Sublist.refl [x])
  | append_singleton between e ih =>
      intro hhistory hpicked hleft
      rw [List.mem_append, not_or, List.mem_singleton] at hpicked hleft
      have hsplit : before ++ enqueued x :: (between ++ [e]) =
          (before ++ enqueued x :: between) ++ [e] := by simp
      rw [hsplit] at hhistory ⊢
      have hearlier := (List.prefix_append _ [e]).trans hhistory
      have hahead := ih hearlier hpicked.left hleft.left
      have hnodup := h.nodup _ hearlier
      rw [waiting_concat]
      cases e with
      | enqueued u => exact hahead.join u
      | dequeued u =>
          apply hahead.leave hnodup
          intro heq
          subst heq
          exact hleft.right rfl
      | picked u =>
          apply hahead.leave hnodup
          intro heq
          subst heq
          exact hpicked.right rfl

theorem Valid.fair (h : Valid history) (horder : FirstInFirstOut history) : Fair history := by
  intro before x between hhistory y hy
  by_contra hneither
  rw [not_or] at hneither
  have hearlier := (List.prefix_append _ [picked x]).trans hhistory
  have hjoin : before ++ [enqueued x] <+: history := by
    apply List.IsPrefix.trans _ hearlier
    exact ⟨between, by simp⟩
  have hahead := h.ahead hy between hearlier hneither.left hneither.right
  have hne : waiting (before ++ enqueued x :: between) ≠ [] := List.ne_nil_of_mem hahead.left
  have hhead := horder _ x hhistory hne
  rcases List.head?_eq_some_iff.mp hhead with ⟨rest, hrest⟩
  have hnodup := h.nodup _ hearlier
  rw [hrest] at hnodup hahead
  have hout : x ∉ rest := (List.nodup_cons.mp hnodup).left
  cases hahead.right List.mem_cons_self with
  | cons _ hsub => exact hout (hsub.subset (by simp))
  | cons_cons _ hsub => exact h before x hjoin hy

end Histories

end Event
end Lib
end NicoOS
