import NicoOS.Kernel.LinkedList
import Mathlib.Data.List.GetD
import Mathlib.Data.List.Perm.Subperm

/-!
# An intrusive list is a sequence

Every run of the operations of `kernel/list.h` on one list, of which each inserts a node that
is not in the list or removes one that is, does to the links what the operations on a sequence
do.  The nodes may begin with any links, and those that `list_clear` drops keep theirs.
-/

namespace NicoOS
namespace Kernel
namespace LinkedList

open Lib

universe u

/-!
# Loops along the links
-/

section Loops

variable {α : Type u} [DecidableEq α] {l : Links α} {a : Ptr α} {xs : List α} {k : Nat}

/-- The pointers along the links up to the sentinel `stop`; `k` bounds their number. -/
def nodesTo (link : Ptr α -> Option (Ptr α)) (stop : Ptr α) :
    Nat -> Option (Ptr α) -> Option (List (Ptr α))
  | 0, _ => none
  | _ + 1, none => none
  | k + 1, some n =>
      if n = stop then some [] else (nodesTo link stop k (link n)).map (fun ns => n :: ns)

theorem nodesTo_segment {link : Ptr α -> Option (Ptr α)} {stop : Ptr α} {ns : List (Ptr α)}
    (h : Segment link a ns stop) (hstop : stop ∉ ns) (hk : ns.length < k) :
    nodesTo link stop k (link a) = some ns := by
  induction ns generalizing a k with
  | nil =>
      cases k with
      | zero => exact absurd hk (Nat.not_lt_zero _)
      | succ k =>
          have hend : link a = some stop := h
          rw [hend, nodesTo, if_pos rfl]
  | cons n ns ih =>
      cases k with
      | zero => exact absurd hk (Nat.not_lt_zero _)
      | succ k =>
          rcases h with ⟨hnext, hrest⟩
          rw [List.mem_cons, not_or] at hstop
          rw [hnext, nodesTo, if_neg (Ne.symm hstop.left),
            ih hrest hstop.right (Nat.lt_of_succ_lt_succ hk)]
          rfl

theorem findFrom_segment {target : Ptr α} (h : Segment l.next a (xs.map Ptr.node) Ptr.tail)
    (hk : xs.length < k) :
    findFrom target l k (l.next a) = some (decide (target ∈ xs.map Ptr.node)) := by
  induction xs generalizing a k with
  | nil =>
      cases k with
      | zero => exact absurd hk (Nat.not_lt_zero _)
      | succ k =>
          have hend : l.next a = some Ptr.tail := h
          rw [hend, findFrom, if_pos rfl]
          rfl
  | cons x xs ih =>
      cases k with
      | zero => exact absurd hk (Nat.not_lt_zero _)
      | succ k =>
          rcases h with ⟨hnext, hrest⟩
          have htail : Ptr.node x ≠ Ptr.tail := fun heq => nomatch heq
          rw [hnext, findFrom, if_neg htail, List.map_cons]
          cases Decidable.em (Ptr.node x = target) with
          | inl heq =>
              rw [if_pos heq, heq]
              simp
          | inr hne =>
              rw [if_neg hne, ih hrest (Nat.lt_of_succ_lt_succ hk)]
              simp only [List.mem_cons, Ne.symm hne, false_or]

theorem sizeFrom_segment (size : UInt32) (h : Segment l.next a (xs.map Ptr.node) Ptr.tail)
    (hk : xs.length < k) :
    sizeFrom l k (l.next a) size = some (size + UInt32.ofNat xs.length) := by
  induction xs generalizing a k size with
  | nil =>
      cases k with
      | zero => exact absurd hk (Nat.not_lt_zero _)
      | succ k =>
          have hend : l.next a = some Ptr.tail := h
          rw [hend, sizeFrom, if_pos rfl, List.length_nil]
          simp
  | cons x xs ih =>
      cases k with
      | zero => exact absurd hk (Nat.not_lt_zero _)
      | succ k =>
          rcases h with ⟨hnext, hrest⟩
          have htail : Ptr.node x ≠ Ptr.tail := fun heq => nomatch heq
          rw [hnext, sizeFrom, if_neg htail, ih _ hrest (Nat.lt_of_succ_lt_succ hk),
            List.length_cons, Nat.add_comm, UInt32.ofNat_add, UInt32.add_assoc]
          rfl

/-- The loop of `list_get` goes as many links as the index is ahead of its counter. -/
theorem getFrom_segment (idx i : UInt32) (h : Segment l.next a (xs.map Ptr.node) Ptr.tail)
    (hk : xs.length < k) :
    getFrom idx l k i (l.next a) = some ((xs.map Ptr.node).getD (idx - i).toNat Ptr.tail) := by
  induction xs generalizing a k i with
  | nil =>
      cases k with
      | zero => exact absurd hk (Nat.not_lt_zero _)
      | succ k =>
          have hend : l.next a = some Ptr.tail := h
          rw [hend, getFrom, if_neg (fun hgo => hgo.right rfl)]
          rfl
  | cons x xs ih =>
      cases k with
      | zero => exact absurd hk (Nat.not_lt_zero _)
      | succ k =>
          rcases h with ⟨hnext, hrest⟩
          have htail : Ptr.node x ≠ Ptr.tail := fun heq => nomatch heq
          rw [hnext, getFrom, List.map_cons]
          cases Decidable.em (i = idx) with
          | inl heq =>
              rw [if_neg (fun hgo => hgo.left heq), heq, UInt32.sub_self]
              rfl
          | inr hne =>
              have hstep : (idx - i).toNat = (idx - (i + 1)).toNat + 1 := by
                have hnat : i.toNat ≠ idx.toNat := fun hsame => hne (UInt32.toNat_inj.mp hsame)
                have hi := i.toNat_lt
                have hidx := idx.toNat_lt
                rw [UInt32.toNat_sub, UInt32.toNat_sub, UInt32.toNat_add]
                have hone : (1 : UInt32).toNat = 1 := rfl
                rw [hone]
                omega
              rw [if_pos ⟨hne, htail⟩, ih _ hrest (Nat.lt_of_succ_lt_succ hk), hstep,
                List.getD_cons_succ]

end Loops

/-!
# Calls and runs
-/

/-- The calls on a list. -/
inductive Op (α : Type u) where
  | init
  | offer (x : α)
  | push (x : α)
  | poll
  | pop
  | unlinked (x : α)
  | clear

namespace Op

variable {α : Type u} [DecidableEq α]

/-- What a call does to the links, with the node that it returns. -/
def exec : Op α -> Links α -> Option (Option (Ptr α) × Links α)
  | init, l => some (none, listInit l)
  | offer x, l => (listOffer (Ptr.node x) l).map (fun l => (none, l))
  | push x, l => (listPush (Ptr.node x) l).map (fun l => (none, l))
  | poll, l => (listPoll l).map (fun r => (some r.1, r.2))
  | pop, l => (listPop l).map (fun r => (some r.1, r.2))
  | unlinked x, l => (listUnlinked (Ptr.node x) l).map (fun l => (none, l))
  | clear, l => some (none, listClear l)

/-- Only nodes that are not in the list are put in, and only nodes in it are taken out. -/
def Allowed (xs : List α) : Op α -> Prop
  | offer x | push x => x ∉ xs
  | poll | pop => xs ≠ []
  | unlinked x => x ∈ xs
  | init | clear => True

instance (xs : List α) : (op : Op α) -> Decidable (op.Allowed xs)
  | offer x => inferInstanceAs (Decidable (x ∉ xs))
  | push x => inferInstanceAs (Decidable (x ∉ xs))
  | poll => inferInstanceAs (Decidable (xs ≠ []))
  | pop => inferInstanceAs (Decidable (xs ≠ []))
  | unlinked x => inferInstanceAs (Decidable (x ∈ xs))
  | init => inferInstanceAs (Decidable True)
  | clear => inferInstanceAs (Decidable True)

def after (xs : List α) : Op α -> List α
  | offer x => x :: xs
  | push x => xs ++ [x]
  | poll | pop => xs.dropLast
  | unlinked x => xs.erase x
  | init | clear => []

/-- The node that a call returns. -/
def answer (xs : List α) : Op α -> Option α
  | poll | pop => xs.getLast?
  | _ => none

/-- The node that a call takes out. -/
def removed (xs : List α) : Op α -> Option α
  | poll | pop => xs.getLast?
  | unlinked x => some x
  | _ => none

end Op

section Runs

variable {α : Type u} [DecidableEq α]

/-- The calls one behind the other, with the nodes that they return. -/
def run : List (Op α) -> Links α -> Option (List (Option (Ptr α)) × Links α)
  | [], l => some ([], l)
  | op :: ops, l => do
      let (r, l) <- op.exec l
      let (rs, l) <- run ops l
      some (r :: rs, l)

def AllAllowed : List (Op α) -> List α -> Prop
  | [], _ => True
  | op :: ops, xs => op.Allowed xs ∧ AllAllowed ops (op.after xs)

def afterAll (ops : List (Op α)) (xs : List α) : List α := ops.foldl Op.after xs

def answers : List (Op α) -> List α -> List (Option α)
  | [], _ => []
  | op :: ops, xs => op.answer xs :: answers ops (op.after xs)

end Runs

/-!
# What the list shows
-/

section Steps

variable {α : Type u} [DecidableEq α] {l : Links α} {xs : List α}

/-- A call does to the links what it does to the sequence, and clears what it takes out. -/
structure Served (op : Op α) (l : Links α) (xs : List α) (l' : Links α) : Prop where
  exec : op.exec l = some ((op.answer xs).map Ptr.node, l')
  strung : Strung l' (op.after xs)
  cleared : forall x, op.removed xs = some x -> isUnlinkedNode (Ptr.node x) l' = true

theorem last_split (h : xs ≠ []) : exists front x, xs = front ++ [x] := by
  rcases List.eq_nil_or_concat xs with hnil | ⟨front, x, hxs⟩
  · exact absurd hnil h
  · exact ⟨front, x, hxs.trans List.concat_eq_append⟩

theorem listPop_eq : listPop l = listPoll l := rfl

theorem served (op : Op α) (h : Strung l xs) (hallowed : op.Allowed xs) :
    exists l', Served op l xs l' := by
  cases op with
  | init => exact ⟨listInit l, rfl, listInit_strung l, fun x hx => nomatch hx⟩
  | clear => exact ⟨listClear l, rfl, listInit_strung l, fun x hx => nomatch hx⟩
  | offer x =>
      rcases listOffer_strung h hallowed with ⟨l', hrun, hstrung, -⟩
      refine ⟨l', ?_, hstrung, fun x hx => nomatch hx⟩
      rw [Op.exec, hrun]
      rfl
  | push x =>
      rcases listPush_strung h hallowed with ⟨l', hrun, hstrung, -⟩
      refine ⟨l', ?_, hstrung, fun x hx => nomatch hx⟩
      rw [Op.exec, hrun]
      rfl
  | poll =>
      rcases last_split hallowed with ⟨front, x, rfl⟩
      rcases listPoll_strung h with ⟨l', hrun, hstrung, hnull, -⟩
      refine ⟨l', ?_, ?_, ?_⟩
      · rw [Op.exec, hrun, Op.answer, List.getLast?_concat]
        rfl
      · rw [Op.after, List.dropLast_concat]
        exact hstrung
      · intro y hy
        rw [Op.removed, List.getLast?_concat] at hy
        cases hy
        exact hnull
  | pop =>
      rcases last_split hallowed with ⟨front, x, rfl⟩
      rcases listPoll_strung h with ⟨l', hrun, hstrung, hnull, -⟩
      refine ⟨l', ?_, ?_, ?_⟩
      · rw [Op.exec, listPop_eq, hrun, Op.answer, List.getLast?_concat]
        rfl
      · rw [Op.after, List.dropLast_concat]
        exact hstrung
      · intro y hy
        rw [Op.removed, List.getLast?_concat] at hy
        cases hy
        exact hnull
  | unlinked x =>
      rcases List.append_of_mem hallowed with ⟨front, rest, rfl⟩
      rcases listUnlinked_strung h with ⟨l', hrun, hstrung, hnull, -⟩
      have hfront : x ∉ front := by
        intro hin
        exact List.disjoint_of_nodup_append h.nodup hin List.mem_cons_self
      refine ⟨l', ?_, ?_, ?_⟩
      · rw [Op.exec, hrun]
        rfl
      · rw [Op.after, List.erase_append_right _ hfront, List.erase_cons_head]
        exact hstrung
      · intro y hy
        cases hy
        exact hnull

/-- What a run does to the links it does to the sequence. -/
theorem run_strung (ops : List (Op α)) (h : Strung l xs) (hallowed : AllAllowed ops xs) :
    exists l', run ops l = some ((answers ops xs).map (fun r => r.map Ptr.node), l') ∧
      Strung l' (afterAll ops xs) := by
  induction ops generalizing l xs with
  | nil => exact ⟨l, rfl, h⟩
  | cons op ops ih =>
      rcases served op h hallowed.left with ⟨l1, hserved⟩
      rcases ih hserved.strung hallowed.right with ⟨l2, hrun, hstrung⟩
      refine ⟨l2, ?_, hstrung⟩
      rw [run, hserved.exec]
      simp only [Option.bind_eq_bind, Option.bind_some, hrun]
      rfl

end Steps

/-!
# Nodes with addresses
-/

structure ListNode where
  address : UInt32
  nonNull : address ≠ 0
  deriving DecidableEq

theorem ListNode.address_injective : Function.Injective (fun x : ListNode => x.address.toNat) := by
  intro x y h
  have haddress : x.address = y.address := UInt32.toNat_inj.mp h
  cases x
  cases y
  cases haddress
  rfl

/-- There are fewer nodes than addresses, so `size` does not run over. -/
theorem length_lt {xs : List ListNode} (h : xs.Nodup) : xs.length < 4294967296 := by
  have hmap : (xs.map (fun x => x.address.toNat)).Nodup := h.map ListNode.address_injective
  have hzero : 0 ∉ xs.map (fun x => x.address.toNat) := by
    rw [List.mem_map]
    intro hex
    rcases hex with ⟨x, -, hx⟩
    exact x.nonNull (UInt32.toNat_inj.mp hx)
  have hsub : 0 :: xs.map (fun x => x.address.toNat) ⊆ List.range 4294967296 := by
    intro a ha
    rw [List.mem_range]
    rcases List.mem_cons.mp ha with ha | ha
    · lia
    · rcases List.mem_map.mp ha with ⟨x, -, rfl⟩
      exact x.address.toNat_lt
  have hle := (List.subperm_of_subset (List.nodup_cons.mpr ⟨hzero, hmap⟩) hsub).length_le
  rw [List.length_cons, List.length_map, List.length_range] at hle
  exact hle

/-- The functions that read the list, and walks along its links, agree with the sequence. -/
structure Agrees (l : Links ListNode) (xs : List ListNode) : Prop where
  nodup : xs.Nodup
  forwards : forall k, xs.length < k ->
    nodesTo l.next Ptr.tail k (l.next Ptr.head) = some (xs.map Ptr.node)
  backwards : forall k, xs.length < k ->
    nodesTo l.prev Ptr.head k (l.prev Ptr.tail) = some (xs.reverse.map Ptr.node)
  empty : listEmpty l = true <-> xs = []
  size : forall k, xs.length < k ->
    exists size, listSize k l = some size ∧ size.toNat = xs.length
  find : forall k x, xs.length < k -> listFind k (Ptr.node x) l = some (decide (x ∈ xs))
  get : forall k (idx : UInt32), xs.length < k ->
    listGet k idx l = xs[idx.toNat]?.map (fun x => some (Ptr.node x))
  foreach : forall k, xs.length < k -> listForeach k l = some xs

theorem Strung.agrees {l : Links ListNode} {xs : List ListNode} (h : Strung l xs) :
    Agrees l xs := by
  have hlength := length_lt h.nodup
  have hofNat : (UInt32.ofNat xs.length).toNat = xs.length := UInt32.toNat_ofNat_of_lt' hlength
  have hsize : forall k, xs.length < k -> listSize k l = some (UInt32.ofNat xs.length) := by
    intro k hk
    have hrun := sizeFrom_segment 0 h.forwards hk
    rw [UInt32.zero_add] at hrun
    exact hrun
  constructor
  · exact h.nodup
  · intro k hk
    apply nodesTo_segment h.forwards
    · simp
    · rw [List.length_map]
      exact hk
  · intro k hk
    have hback := h.backwards
    rw [<- List.map_reverse] at hback
    apply nodesTo_segment hback
    · simp
    · rw [List.length_map, List.length_reverse]
      exact hk
  · exact listEmpty_strung h
  · intro k hk
    exact ⟨_, hsize k hk, hofNat⟩
  · intro k x hk
    rw [listFind, findFrom_segment h.forwards hk]
    congr 2
    rw [List.mem_map_of_injective node_injective]
  · intro k idx hk
    rw [listGet, hsize k hk, Option.bind_some]
    cases Nat.lt_or_ge idx.toNat xs.length with
    | inl hlt =>
        have hidx : idx < UInt32.ofNat xs.length := by
          rw [UInt32.lt_iff_toNat_lt, hofNat]
          exact hlt
        have hin : idx.toNat < (xs.map Ptr.node).length := by
          rw [List.length_map]
          exact hlt
        rw [if_pos hidx, getFrom_segment idx 0 h.forwards hk, UInt32.sub_zero,
          List.getD_eq_getElem _ _ hin, List.getElem_map, List.getElem?_eq_getElem hlt]
        rfl
    | inr hge =>
        have hidx : Not (idx < UInt32.ofNat xs.length) := by
          rw [UInt32.lt_iff_toNat_lt, hofNat]
          exact Nat.not_lt.mpr hge
        rw [if_neg hidx, List.getElem?_eq_none hge]
        rfl
  · intro k hk
    exact foreachFrom_segment h.forwards hk

/--
After every run of allowed calls on a list that `list_init` has made, the links forwards and
backwards are those of the sequence that the calls make, the calls have returned its nodes, and
each further call does to the list what it does to the sequence.
-/
theorem list_refines_sequence (l : Links ListNode) (ops : List (Op ListNode))
    (hallowed : AllAllowed ops []) :
    exists l', run ops (listInit l) =
        some ((answers ops []).map (fun r => r.map Ptr.node), l') ∧
      Agrees l' (afterAll ops []) ∧
      forall op : Op ListNode, op.Allowed (afterAll ops []) ->
        exists l'', op.exec l' = some ((op.answer (afterAll ops [])).map Ptr.node, l'') ∧
          Agrees l'' (op.after (afterAll ops [])) ∧
          forall x, op.removed (afterAll ops []) = some x ->
            isUnlinkedNode (Ptr.node x) l'' = true := by
  rcases run_strung ops (listInit_strung l) hallowed with ⟨l', hrun, hstrung⟩
  refine ⟨l', hrun, hstrung.agrees, ?_⟩
  intro op hop
  rcases served op hstrung hop with ⟨l'', hserved⟩
  exact ⟨l'', hserved.exec, hserved.strung.agrees, hserved.cleared⟩

theorem list_refines_sequence_mixed :
    exists l' : Links ListNode,
      run [Op.push ⟨16, by decide⟩, Op.offer ⟨32, by decide⟩, Op.push ⟨48, by decide⟩,
          Op.unlinked ⟨16, by decide⟩, Op.poll]
        (listInit { next := fun _ => none, prev := fun _ => some Ptr.head }) =
          some ([none, none, none, none, some (Ptr.node ⟨48, by decide⟩)], l') ∧
        Agrees l' [⟨32, by decide⟩] := by
  rcases list_refines_sequence { next := fun _ => none, prev := fun _ => some Ptr.head }
    [Op.push ⟨16, by decide⟩, Op.offer ⟨32, by decide⟩, Op.push ⟨48, by decide⟩,
      Op.unlinked ⟨16, by decide⟩, Op.poll]
    ⟨by decide, by decide, by decide, by decide, by decide, trivial⟩ with ⟨l', hrun, hagrees, -⟩
  exact ⟨l', hrun, hagrees⟩

end LinkedList
end Kernel
end NicoOS
