import NicoOS.Lib.Segments

/-!
# Intrusive lists

`kernel/list.h`: a list with two sentinels, and the nodes that hang between them.  `none` is a
null pointer; an operation that follows one has no result.
-/

namespace NicoOS
namespace Kernel
namespace LinkedList

open Lib

universe u

/-- `struct list_node *`: the sentinels of the list, and the nodes in other structures. -/
inductive Ptr (α : Type u) where
  | head
  | tail
  | node (x : α)
  deriving DecidableEq, Repr

/-- The fields of all `struct list_node`. -/
structure Links (α : Type u) where
  next : Ptr α -> Option (Ptr α)
  prev : Ptr α -> Option (Ptr α)

variable {α : Type u} [DecidableEq α]

namespace Links

def setNext (l : Links α) (n : Ptr α) (p : Option (Ptr α)) : Links α :=
  { l with next := Function.update l.next n p }

def setPrev (l : Links α) (n : Ptr α) (p : Option (Ptr α)) : Links α :=
  { l with prev := Function.update l.prev n p }

end Links

def listInit (l : Links α) : Links α :=
  (l.setNext Ptr.head (some Ptr.tail)).setPrev Ptr.tail (some Ptr.head)

def listLinkedBefore (n newNode : Ptr α) (l : Links α) : Option (Links α) := do
  let l := l.setNext newNode (some n)
  let l := l.setPrev newNode (l.prev n)
  let p <- l.prev n
  let l := l.setNext p (some newNode)
  some (l.setPrev n (some newNode))

def listLinkedAfter (n newNode : Ptr α) (l : Links α) : Option (Links α) := do
  let l := l.setPrev newNode (some n)
  let l := l.setNext newNode (l.next n)
  let p <- l.next n
  let l := l.setPrev p (some newNode)
  some (l.setNext n (some newNode))

def listUnlinked (node : Ptr α) (l : Links α) : Option (Links α) := do
  let p <- l.prev node
  let l := l.setNext p (l.next node)
  let n <- l.next node
  let l := l.setPrev n (l.prev node)
  let l := l.setNext node none
  some (l.setPrev node none)

def listEmpty (l : Links α) : Bool := l.next Ptr.head = some Ptr.tail

def listOffer (n : Ptr α) (l : Links α) : Option (Links α) := listLinkedAfter Ptr.head n l

/-- `list_poll`; no result if the assertion fails. -/
def listPoll (l : Links α) : Option (Ptr α × Links α) :=
  if listEmpty l then none
  else do
    let n <- l.prev Ptr.tail
    let l <- listUnlinked n l
    some (n, l)

def listPush (n : Ptr α) (l : Links α) : Option (Links α) := listLinkedBefore Ptr.tail n l

/-- `list_pop`; it takes its node from the same end as `list_poll`. -/
def listPop (l : Links α) : Option (Ptr α × Links α) :=
  if listEmpty l then none
  else do
    let n <- l.prev Ptr.tail
    let l <- listUnlinked n l
    some (n, l)

def listClear (l : Links α) : Links α :=
  (l.setNext Ptr.head (some Ptr.tail)).setPrev Ptr.tail (some Ptr.head)

def isUnlinkedNode (n : Ptr α) (l : Links α) : Bool := l.prev n = none && l.next n = none

def findFrom (target : Ptr α) (l : Links α) : Nat -> Option (Ptr α) -> Option Bool
  | 0, _ => none
  | _ + 1, none => none
  | k + 1, some n =>
      if n = Ptr.tail then some false
      else if n = target then some true
      else findFrom target l k (l.next n)

def listFind (k : Nat) (target : Ptr α) (l : Links α) : Option Bool :=
  findFrom target l k (l.next Ptr.head)

def sizeFrom (l : Links α) : Nat -> Option (Ptr α) -> UInt32 -> Option UInt32
  | 0, _, _ => none
  | _ + 1, none, _ => none
  | k + 1, some n, size =>
      if n = Ptr.tail then some size else sizeFrom l k (l.next n) (size + 1)

def listSize (k : Nat) (l : Links α) : Option UInt32 := sizeFrom l k (l.next Ptr.head) 0

def getFrom (idx : UInt32) (l : Links α) : Nat -> UInt32 -> Option (Ptr α) -> Option (Ptr α)
  | 0, _, _ => none
  | _ + 1, _, none => none
  | k + 1, i, some n =>
      if i ≠ idx ∧ n ≠ Ptr.tail then getFrom idx l k (i + 1) (l.next n) else some n

/-- `list_get`; the inner `none` is its `NULL`, the outer one a failed assertion. -/
def listGet (k : Nat) (idx : UInt32) (l : Links α) : Option (Option (Ptr α)) :=
  (listSize k l).bind fun size =>
    if idx < size then
      (getFrom idx l k 0 (l.next Ptr.head)).map fun n => if n = Ptr.tail then none else some n
    else none

/-- The nodes that `LIST_FOREACH` visits from a pointer on; `k` bounds its rounds. -/
def foreachFrom (l : Links α) : Nat -> Option (Ptr α) -> Option (List α)
  | 0, _ => none
  | _ + 1, none => none
  | _ + 1, some Ptr.head => none
  | _ + 1, some Ptr.tail => some []
  | k + 1, some (Ptr.node x) => do
      let items <- foreachFrom l k (l.next (Ptr.node x))
      some (x :: items)

def listForeach (k : Nat) (l : Links α) : Option (List α) := foreachFrom l k (l.next Ptr.head)

/-!
# The sequence of a list
-/

/-- The nodes `xs` hang between the sentinels in this order, and no others are linked. -/
structure Represents (l : Links α) (xs : List α) : Prop where
  hung : Hung l.next l.prev Ptr.head Ptr.tail (xs.map Ptr.node)
  unlinked : forall x, x ∉ xs -> isUnlinkedNode (Ptr.node x) l = true

section Refinement

variable {l : Links α} {xs ys : List α} {x : α}

omit [DecidableEq α] in
theorem node_injective : Function.Injective (Ptr.node : α -> Ptr α) := by
  intro a b h
  cases h
  rfl

omit [DecidableEq α] in
theorem mem_between {p : Ptr α} :
    p ∈ Ptr.head :: (xs.map Ptr.node ++ [Ptr.tail]) <->
      p = Ptr.head ∨ p = Ptr.tail ∨ exists x, x ∈ xs ∧ p = Ptr.node x := by
  simp only [List.mem_cons, List.mem_append, List.mem_map, List.not_mem_nil, or_false]
  constructor
  · intro hor
    rcases hor with h | ⟨x, hx, h⟩ | h
    · exact Or.inl h
    · exact Or.inr (Or.inr ⟨x, hx, h.symm⟩)
    · exact Or.inr (Or.inl h)
  · intro hor
    rcases hor with h | h | ⟨x, hx, h⟩
    · exact Or.inl h
    · exact Or.inr (Or.inr h)
    · exact Or.inr (Or.inl ⟨x, hx, h.symm⟩)

theorem Represents.nodup (h : Represents l xs) : xs.Nodup :=
  List.Nodup.of_map Ptr.node (List.nodup_cons.mp h.hung.nodup_front).right

theorem isUnlinkedNode_iff {n : Ptr α} :
    isUnlinkedNode n l = true <-> l.prev n = none ∧ l.next n = none := by
  simp [isUnlinkedNode]

theorem Represents.isUnlinkedNode (h : Represents l xs) (x : α) :
    isUnlinkedNode (Ptr.node x) l = true <-> x ∉ xs := by
  constructor
  · intro hfree hin
    rcases List.append_of_mem hin with ⟨front, rest, hxs⟩
    have hhung := h.hung
    rw [hxs, List.map_append, List.map_cons] at hhung
    rw [isUnlinkedNode_iff, hhung.neighbours.left] at hfree
    cases hfree.left
  · exact h.unlinked x

omit [DecidableEq α] in
theorem last_ne (h : x ∉ xs) : (xs.map Ptr.node).getLastD Ptr.head ≠ Ptr.node x := by
  intro heq
  have hmem : Ptr.node x ∈ Ptr.head :: xs.map Ptr.node := by
    rw [<- heq]
    exact List.getLastD_mem_cons
  simp only [List.mem_cons, List.mem_map] at hmem
  rcases hmem with hp | ⟨y, hy, hp⟩
  · cases hp
  · cases hp
    exact h hy

omit [DecidableEq α] in
theorem first_ne (h : x ∉ xs) : (xs.map Ptr.node).headD Ptr.tail ≠ Ptr.node x := by
  cases xs with
  | nil => exact fun heq => nomatch heq
  | cons y ys =>
      intro heq
      cases heq
      exact h List.mem_cons_self

/-!
# What the operations do to the links
-/

/-- The nodes hang between the sentinels in this order, whatever the links of the others. -/
def Strung (l : Links α) (xs : List α) : Prop :=
  Hung l.next l.prev Ptr.head Ptr.tail (xs.map Ptr.node)

def Spares (l l' : Links α) (zs : List α) : Prop :=
  forall y, y ∉ zs -> l'.next (Ptr.node y) = l.next (Ptr.node y) ∧
    l'.prev (Ptr.node y) = l.prev (Ptr.node y)

theorem Represents.of_spares {l' : Links α} (h : Represents l xs) (hstrung : Strung l' ys)
    (hspares : Spares l l' ys) (hsub : forall y, y ∉ ys -> y ∉ xs) : Represents l' ys where
  hung := hstrung
  unlinked y hy := by
    rcases hspares y hy with ⟨hnext, hprev⟩
    have hold := isUnlinkedNode_iff.mp (h.unlinked y (hsub y hy))
    rw [isUnlinkedNode_iff, hnext, hprev]
    exact hold

omit [DecidableEq α] in
theorem Strung.nodup (h : Strung l xs) : xs.Nodup :=
  List.Nodup.of_map Ptr.node (List.nodup_cons.mp h.nodup_front).right

theorem listEmpty_strung (h : Strung l xs) : listEmpty l = true <-> xs = [] := by
  unfold listEmpty
  rw [decide_eq_true_eq, h.forwards.first]
  cases xs with
  | nil => simp
  | cons x xs => simp

theorem listInit_strung (l : Links α) : Strung (listInit l) [] where
  nodup := by simp
  forwards := by
    show (listInit l).next Ptr.head = some Ptr.tail
    simp [listInit, Links.setNext, Links.setPrev]
  backwards := by
    show (listInit l).prev Ptr.tail = some Ptr.head
    simp [listInit, Links.setNext, Links.setPrev]

theorem linked_strung {l' : Links α} (h : Strung l (xs ++ ys)) (hx : x ∉ xs ++ ys)
    (hnext : l'.next = Function.update (Function.update l.next (Ptr.node x)
      (some ((ys.map Ptr.node).headD Ptr.tail)))
        ((xs.map Ptr.node).getLastD Ptr.head) (some (Ptr.node x)))
    (hprev : l'.prev = Function.update (Function.update l.prev (Ptr.node x)
      (some ((xs.map Ptr.node).getLastD Ptr.head)))
        ((ys.map Ptr.node).headD Ptr.tail) (some (Ptr.node x))) :
    Strung l' (xs ++ x :: ys) ∧ Spares l l' (xs ++ x :: ys) := by
  constructor
  · have hhung := h
    unfold Strung at hhung ⊢
    rw [List.map_append] at hhung
    have hfresh : Ptr.node x ∉
        Ptr.head :: (xs.map Ptr.node ++ ys.map Ptr.node ++ [Ptr.tail]) := by
      rw [<- List.map_append, mem_between]
      intro hor
      rcases hor with hp | hp | ⟨y, hy, hp⟩
      · cases hp
      · cases hp
      · cases hp
        exact hx hy
    rw [hnext, hprev, List.map_append, List.map_cons]
    exact hhung.link hfresh
  · intro y hy
    rw [List.mem_append, List.mem_cons, not_or, not_or] at hy
    rcases hy with ⟨hxs, hne, hys⟩
    have hnode : Ptr.node y ≠ Ptr.node x := fun heq => hne (node_injective heq)
    rw [hnext, hprev, Function.update_of_ne (first_ne hys).symm,
      Function.update_of_ne (last_ne hxs).symm, Function.update_of_ne hnode,
      Function.update_of_ne hnode]
    exact ⟨rfl, rfl⟩

theorem listOffer_strung (h : Strung l xs) (hx : x ∉ xs) :
    exists l', listOffer (Ptr.node x) l = some l' ∧ Strung l' (x :: xs) ∧
      Spares l l' (x :: xs) := by
  have hfirst := h.forwards.first
  have hlist : Strung l ([] ++ xs) := h
  have hrun : listOffer (Ptr.node x) l = some
      { next := Function.update (Function.update l.next (Ptr.node x)
          (some ((xs.map Ptr.node).headD Ptr.tail))) Ptr.head (some (Ptr.node x))
        prev := Function.update (Function.update l.prev (Ptr.node x) (some Ptr.head))
          ((xs.map Ptr.node).headD Ptr.tail) (some (Ptr.node x)) } := by
    simp [listOffer, listLinkedAfter, Links.setNext, Links.setPrev, hfirst]
  exact ⟨_, hrun, linked_strung hlist hx rfl rfl⟩

theorem listPush_strung (h : Strung l xs) (hx : x ∉ xs) :
    exists l', listPush (Ptr.node x) l = some l' ∧ Strung l' (xs ++ [x]) ∧
      Spares l l' (xs ++ [x]) := by
  have hlast := h.backwards.first
  rw [Hung.headD_reverse] at hlast
  have hlist : Strung l (xs ++ []) := by
    rw [List.append_nil]
    exact h
  have hrun : listPush (Ptr.node x) l = some
      { next := Function.update (Function.update l.next (Ptr.node x) (some Ptr.tail))
          ((xs.map Ptr.node).getLastD Ptr.head) (some (Ptr.node x))
        prev := Function.update (Function.update l.prev (Ptr.node x)
          (some ((xs.map Ptr.node).getLastD Ptr.head))) Ptr.tail (some (Ptr.node x)) } := by
    simp [listPush, listLinkedBefore, Links.setNext, Links.setPrev, hlast]
  exact ⟨_, hrun, linked_strung hlist (by simpa using hx) rfl rfl⟩

/-- `list_unlinked` takes the node out, wherever it is, and clears its links. -/
theorem listUnlinked_strung (h : Strung l (xs ++ x :: ys)) :
    exists l', listUnlinked (Ptr.node x) l = some l' ∧ Strung l' (xs ++ ys) ∧
      isUnlinkedNode (Ptr.node x) l' = true ∧ Spares l l' (xs ++ x :: ys) := by
  have hnodup := h.nodup
  have hhung := h
  unfold Strung at hhung
  rw [List.map_append, List.map_cons] at hhung
  rcases hhung.neighbours with ⟨hprev, hnext⟩
  have hxs : x ∉ xs := by
    intro hin
    exact List.disjoint_of_nodup_append hnodup hin List.mem_cons_self
  have hys : x ∉ ys := (List.nodup_cons.mp (List.nodup_append.mp hnodup).right.left).left
  have hrun : listUnlinked (Ptr.node x) l = some
      { next := Function.update (Function.update l.next ((xs.map Ptr.node).getLastD Ptr.head)
          (some ((ys.map Ptr.node).headD Ptr.tail))) (Ptr.node x) none
        prev := Function.update (Function.update l.prev ((ys.map Ptr.node).headD Ptr.tail)
          (some ((xs.map Ptr.node).getLastD Ptr.head))) (Ptr.node x) none } := by
    simp only [listUnlinked, Links.setNext, Links.setPrev, hprev, hnext, Option.bind_eq_bind,
      Option.bind_some, Function.update_of_ne (last_ne hxs).symm]
  refine ⟨_, hrun, ?_, ?_, ?_⟩
  · unfold Strung
    rw [List.map_append]
    have hout : Ptr.node x ∉ xs.map Ptr.node ++ ys.map Ptr.node := by
      rw [<- List.map_append, List.mem_map]
      intro hex
      rcases hex with ⟨y, hy, heq⟩
      cases heq
      rcases List.mem_append.mp hy with hin | hin
      · exact hxs hin
      · exact hys hin
    apply hhung.unlink.congr
    · intro p hp
      apply Function.update_of_ne
      intro heq
      subst heq
      rcases List.mem_cons.mp hp with heq | hin
      · cases heq
      · exact hout hin
    · intro p hp
      apply Function.update_of_ne
      intro heq
      subst heq
      rcases List.mem_cons.mp hp with heq | hin
      · cases heq
      · exact hout hin
  · rw [isUnlinkedNode_iff]
    exact ⟨Function.update_self _ _ _, Function.update_self _ _ _⟩
  · intro y hy
    rw [List.mem_append, List.mem_cons, not_or, not_or] at hy
    rcases hy with ⟨hyxs, hne, hyys⟩
    have hnode : Ptr.node y ≠ Ptr.node x := fun heq => hne (node_injective heq)
    dsimp only
    rw [Function.update_of_ne hnode, Function.update_of_ne hnode,
      Function.update_of_ne (first_ne hyys).symm, Function.update_of_ne (last_ne hyxs).symm]
    exact ⟨rfl, rfl⟩

theorem listPoll_strung (h : Strung l (xs ++ [x])) :
    exists l', listPoll l = some (Ptr.node x, l') ∧ Strung l' xs ∧
      isUnlinkedNode (Ptr.node x) l' = true ∧ Spares l l' (xs ++ [x]) := by
  rcases listUnlinked_strung h with ⟨l', hrun, hstrung, hnull, hspares⟩
  rw [List.append_nil] at hstrung
  have hlast := h.backwards.first
  rw [Hung.headD_reverse] at hlast
  have hfull : Not (listEmpty l = true) := by
    rw [listEmpty_strung h]
    exact List.append_ne_nil_of_right_ne_nil xs (List.cons_ne_nil x [])
  refine ⟨l', ?_, hstrung, hnull, hspares⟩
  unfold listPoll
  rw [if_neg hfull, hlast, List.map_append, List.map_singleton, List.getLastD_concat]
  simp [hrun]

/-!
# The sequence
-/

theorem listEmpty_iff (h : Represents l xs) : listEmpty l = true <-> xs = [] :=
  listEmpty_strung h.hung

theorem listInit_represents (h : forall x, isUnlinkedNode (Ptr.node x) l = true) :
    Represents (listInit l) [] where
  hung := listInit_strung l
  unlinked x _ := h x

theorem listOffer_represents (h : Represents l xs) (hx : x ∉ xs) :
    exists l', listOffer (Ptr.node x) l = some l' ∧ Represents l' (x :: xs) := by
  rcases listOffer_strung h.hung hx with ⟨l', hrun, hstrung, hspares⟩
  exact ⟨l', hrun, h.of_spares hstrung hspares
    (fun y hy hin => hy (List.mem_cons_of_mem x hin))⟩

theorem listPush_represents (h : Represents l xs) (hx : x ∉ xs) :
    exists l', listPush (Ptr.node x) l = some l' ∧ Represents l' (xs ++ [x]) := by
  rcases listPush_strung h.hung hx with ⟨l', hrun, hstrung, hspares⟩
  exact ⟨l', hrun, h.of_spares hstrung hspares
    (fun y hy hin => hy (List.mem_append_left [x] hin))⟩

theorem Represents.taken {l' : Links α} (h : Represents l (xs ++ x :: ys))
    (hstrung : Strung l' (xs ++ ys)) (hnull : LinkedList.isUnlinkedNode (Ptr.node x) l' = true)
    (hspares : Spares l l' (xs ++ x :: ys)) : Represents l' (xs ++ ys) where
  hung := hstrung
  unlinked y hy := by
    cases Classical.em (y = x) with
    | inl heq =>
        rw [heq]
        exact hnull
    | inr hne =>
        have hout : y ∉ xs ++ x :: ys := by
          simp only [List.mem_append, List.mem_cons, not_or] at hy ⊢
          exact ⟨hy.left, hne, hy.right⟩
        rcases hspares y hout with ⟨hnext, hprev⟩
        have hold := isUnlinkedNode_iff.mp (h.unlinked y hout)
        rw [isUnlinkedNode_iff, hnext, hprev]
        exact hold

theorem listUnlinked_represents (h : Represents l (xs ++ x :: ys)) :
    exists l', listUnlinked (Ptr.node x) l = some l' ∧ Represents l' (xs ++ ys) := by
  rcases listUnlinked_strung h.hung with ⟨l', hrun, hstrung, hnull, hspares⟩
  exact ⟨l', hrun, h.taken hstrung hnull hspares⟩

theorem listPoll_represents (h : Represents l (xs ++ [x])) :
    exists l', listPoll l = some (Ptr.node x, l') ∧ Represents l' xs := by
  rcases listPoll_strung h.hung with ⟨l', hrun, hstrung, hnull, hspares⟩
  have hxs : Strung l' (xs ++ []) := by
    rw [List.append_nil]
    exact hstrung
  have htaken := h.taken hxs hnull hspares
  rw [List.append_nil] at htaken
  exact ⟨l', hrun, htaken⟩

omit [DecidableEq α] in
theorem foreachFrom_segment {a : Ptr α} {k : Nat}
    (h : Segment l.next a (xs.map Ptr.node) Ptr.tail) (hk : xs.length < k) :
    foreachFrom l k (l.next a) = some xs := by
  induction xs generalizing a k with
  | nil =>
      cases k with
      | zero => exact absurd hk (Nat.not_lt_zero _)
      | succ k =>
          have hend : l.next a = some Ptr.tail := h
          rw [hend]
          rfl
  | cons x xs ih =>
      cases k with
      | zero => exact absurd hk (Nat.not_lt_zero _)
      | succ k =>
          rcases h with ⟨hnode, hrest⟩
          rw [hnode, foreachFrom, ih hrest (Nat.lt_of_succ_lt_succ hk)]
          rfl

theorem listForeach_eq {k : Nat} (h : Represents l xs) (hk : xs.length < k) :
    listForeach k l = some xs :=
  foreachFrom_segment h.hung.forwards hk

end Refinement

end LinkedList
end Kernel
end NicoOS
