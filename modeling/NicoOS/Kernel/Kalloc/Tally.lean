import NicoOS.Kernel.Kalloc.Safety

/-!
# The counters of the size classes

Every class counts its free objects, its objects in use and their sum.  The
counters agree with the free list and with the live objects as long as `kfree`
is not called by a killed task and not given a page: a killed task's call
returns before the object goes back, and a page has no descriptor that could
send it to the page allocator.
-/

namespace NicoOS
namespace Kernel
namespace Kalloc

open Lib

variable {s : State} {fl : Fin nblock -> List Nat}

/-- The live objects whose descriptor names class `i`. -/
def classLive (s : State) (i : Fin nblock) : List (Nat × Nat) :=
  s.live.filter (fun x => x.2 ≤ maxObjSize ∧ s.mem.word (x.1 - descSize) = i.val)

structure Balanced (s : State) : Prop where
  free : forall i, exists os,
    s.mem.Chain (s.blocks i).head os ∧ os.length = (s.blocks i).free.toNat
  num : forall i, (s.blocks i).free.toNat + (s.blocks i).inuse.toNat =
    (s.blocks i).num.toNat
  inuse : forall i, (classLive s i).length = (s.blocks i).inuse.toNat
  whole : forall ptr n, (ptr, n) ∈ s.live -> maxObjSize < n -> (ptr, none) ∈ s.pages
  returned : forall page, (page, none) ∈ s.pages ->
    exists n, (page, n) ∈ s.live ∧ maxObjSize < n

/-- Once nothing is live, no object is in use and no page is held whole. -/
theorem Balanced.all_freed (h : Balanced s) (hlive : s.live = []) :
    (forall i, (s.blocks i).inuse = 0) ∧
      forall page, Not ((page, none) ∈ s.pages) := by
  constructor
  · intro i
    have hcount := h.inuse i
    unfold classLive at hcount
    rw [hlive] at hcount
    exact UInt32.toNat_inj.mp hcount.symm
  · intro page hpage
    rcases h.returned page hpage with ⟨n, hmem, _⟩
    rw [hlive] at hmem
    cases hmem

/-- A call of `kalloc` with a size below a page, or of `kfree` with a live pointer. -/
def Request (s : State) : Op -> Prop
  | Op.kalloc nbytes _ => 0 < nbytes ∧ nbytes < pgSize
  | Op.kfree ptr _ => exists n, (ptr, n) ∈ s.live
  | _ => False

/-- The task that frees is not killed, and the object is not a page. -/
def Undoes (s : State) : Op -> Prop
  | Op.kfree ptr killed =>
      killed = false ∧ forall n, (ptr, n) ∈ s.live -> n ≤ maxObjSize
  | _ => True

theorem setBlock_self (s : State) (i : Fin nblock) (b : MemBlock) :
    (s.setBlock i b).blocks i = b := if_pos rfl

theorem setBlock_of_ne (s : State) (b : MemBlock) {i j : Fin nblock} (h : j ≠ i) :
    (s.setBlock i b).blocks j = s.blocks j := if_neg h

theorem toNat_add_one {x : UInt32} (h : x.toNat + 1 < 0x100000000) :
    (x + 1).toNat = x.toNat + 1 := by
  have hone : (1 : UInt32).toNat = 1 := rfl
  rw [UInt32.toNat_add, hone]
  lia

theorem toNat_sub_one {x : UInt32} (h : 0 < x.toNat) : (x - 1).toNat = x.toNat - 1 := by
  have hone : (1 : UInt32).toNat = 1 := rfl
  have hlt := x.toNat_lt
  rw [UInt32.toNat_sub, hone]
  lia

/-!
# Where the live objects sit

Unlike the invariant of the heap, this one does not ask that an object ends
inside its page.
-/

/-- The object behind `x` occupies a slot that is on no free list. -/
def Seat (s : State) (fl : Fin nblock -> List Nat) (x : Nat × Nat) : Prop :=
  exists i obj, x.1 = obj + descSize ∧ Slot s.pages i obj ∧ Not (obj ∈ fl i) ∧
    s.mem.word obj = i.val

structure Seated (s : State) (fl : Fin nblock -> List Nat) : Prop where
  heap : Inv { s with live := [] } fl
  small : forall x, x ∈ s.live -> x.2 ≤ maxObjSize -> Seat s fl x
  large : forall x, x ∈ s.live -> maxObjSize < x.2 -> (x.1, none) ∈ s.pages
  returned : forall page, (page, none) ∈ s.pages ->
    exists n, (page, n) ∈ s.live ∧ maxObjSize < n
  distinct : s.live.Pairwise
    (fun x y => x.2 ≤ maxObjSize -> y.2 ≤ maxObjSize -> x.1 ≠ y.1)

structure Tally (s : State) (fl : Fin nblock -> List Nat) : Prop where
  seated : Seated s fl
  inuse : forall i, (classLive s i).length = (s.blocks i).inuse.toNat
  total : forall i, (s.blocks i).free.toNat + (s.blocks i).inuse.toNat =
    (s.blocks i).num.toNat

theorem Seated.free (h : Seated s fl) : FreeSound s fl :=
  ⟨h.heap.free.config, h.heap.free.chain, h.heap.free.count, h.heap.free.slot,
    h.heap.free.nodup⟩

theorem Tally.balanced (h : Tally s fl) : Balanced s := by
  constructor
  · intro i
    exact ⟨fl i, h.seated.free.chain i, h.seated.free.count i⟩
  · exact h.total
  · exact h.inuse
  · intro ptr n hmem hbig
    exact h.seated.large (ptr, n) hmem hbig
  · exact h.seated.returned

theorem Seat.keep {t : State} {fl' : Fin nblock -> List Nat} {x : Nat × Nat}
    (h : Seat s fl x) (hslot : forall i obj, Slot s.pages i obj -> Slot t.pages i obj)
    (hfl : forall i obj, Slot s.pages i obj -> obj ∈ fl' i -> obj ∈ fl i)
    (hword : forall i obj, Slot s.pages i obj -> t.mem.word obj = s.mem.word obj) :
    Seat t fl' x := by
  rcases h with ⟨i, obj, hptr, hs, hnot, hidx⟩
  refine ⟨i, obj, hptr, hslot i obj hs, ?_, ?_⟩
  · intro hmem
    exact hnot (hfl i obj hs hmem)
  · rw [hword i obj hs]
    exact hidx

theorem Seated.class_slot (h : Seated s fl) {i : Fin nblock} {x : Nat × Nat}
    (hx : x ∈ classLive s i) :
    exists obj, x.1 = obj + descSize ∧ Slot s.pages i obj ∧ Not (obj ∈ fl i) := by
  rcases List.mem_filter.mp hx with ⟨hlive, hclass⟩
  rcases of_decide_eq_true hclass with ⟨hn, hword⟩
  rcases h.small x hlive hn with ⟨j, obj, hptr, hs, hnot, hidx⟩
  have hobj : x.1 - descSize = obj := by
    rw [hptr]
    exact Nat.add_sub_cancel obj descSize
  rw [hobj, hidx] at hword
  have hij : j = i := Fin.ext hword
  subst hij
  exact ⟨obj, hptr, hs, hnot⟩

theorem Seated.class_distinct (h : Seated s fl) (i : Fin nblock) :
    (classLive s i).Pairwise (fun x y => x.1 ≠ y.1) := by
  refine (h.distinct.filter _).imp_of_mem ?_
  intro x y hx hy hne
  have hxs := of_decide_eq_true (List.mem_filter.mp hx).right
  have hys := of_decide_eq_true (List.mem_filter.mp hy).right
  exact hne hxs.left hys.left

/-- The objects of a class, free or live, are fewer than its counters can count. -/
theorem Seated.bound (h : Seated s fl) (i : Fin nblock) :
    (classLive s i).length + (fl i).length < 0x100000000 := by
  have hslots : forall obj,
      obj ∈ (classLive s i).map (fun x => x.1 - descSize) ++ fl i ->
        Slot s.pages i obj := by
    intro obj hobj
    rcases List.mem_append.mp hobj with hlive | hfree
    · rcases List.mem_map.mp hlive with ⟨x, hx, rfl⟩
      rcases h.class_slot hx with ⟨obj, hptr, hs, _⟩
      rw [hptr, Nat.add_sub_cancel]
      exact hs
    · exact h.heap.free.slot i obj hfree
  have hnodup : ((classLive s i).map (fun x => x.1 - descSize) ++ fl i).Nodup := by
    refine List.nodup_append.mpr ⟨?_, h.heap.free.nodup i, ?_⟩
    · refine List.pairwise_map.mpr ((h.class_distinct i).imp_of_mem ?_)
      intro x y hx hy hne
      rcases h.class_slot hx with ⟨obj, hptr, _⟩
      rcases h.class_slot hy with ⟨obj', hptr', _⟩
      rw [hptr, hptr'] at hne ⊢
      rw [Nat.add_sub_cancel, Nat.add_sub_cancel]
      intro heq
      exact hne (congrArg (fun a => a + descSize) heq)
    · intro a ha b hb heq
      rcases List.mem_map.mp ha with ⟨x, hx, hxa⟩
      rcases h.class_slot hx with ⟨obj, hptr, _, hnot⟩
      rw [hptr, Nat.add_sub_cancel] at hxa
      rw [hxa, heq] at hnot
      exact hnot hb
  have hlen := length_lt_of_nodup hnodup (fun obj hobj => by
    have htop := (h.heap.pages.slot_pos (hslots obj hobj)).right
    unfold descSize at htop
    lia)
  rw [List.length_append, List.length_map] at hlen
  exact hlen

/-- The live objects keep their class while the words of the slots stay. -/
theorem Seated.classLive_eq (h : Seated s fl) {t : State} (hlive : t.live = s.live)
    (hword : forall i obj, Slot s.pages i obj -> t.mem.word obj = s.mem.word obj)
    (i : Fin nblock) : classLive t i = classLive s i := by
  unfold classLive
  rw [hlive]
  refine List.filter_congr ?_
  intro x hx
  refine decide_eq_decide.mpr (and_congr_right ?_)
  intro hn
  rcases h.small x hx hn with ⟨j, obj, hptr, hs, _⟩
  rw [hptr, Nat.add_sub_cancel, hword j obj hs]

/-!
# Taking pages
-/

theorem Tally.clearNull (h : Tally s fl) :
    Tally { s with mem := s.mem.fill 0 0 pgSize } fl := by
  have hword : forall i obj, Slot s.pages i obj ->
      (s.mem.fill 0 0 pgSize).word obj = s.mem.word obj := by
    intro i obj hs
    have hpos := h.seated.heap.pages.slot_pos hs
    exact Memory.word_fill_of_apart s.mem 0 (Or.inr (by lia))
  refine ⟨⟨h.seated.heap.clearNull, ?_, h.seated.large, h.seated.returned,
    h.seated.distinct⟩, ?_, h.total⟩
  · intro x hx hn
    exact (h.seated.small x hx hn).keep (fun _ _ hs => hs) (fun _ _ _ hobj => hobj) hword
  · intro i
    rw [h.seated.classLive_eq (t := { s with mem := s.mem.fill 0 0 pgSize }) rfl hword]
    exact h.inuse i

theorem Tally.grow_word (h : Tally s fl) {page : Nat} {rest : List Nat} {mem : Memory}
    (hpool : s.pool = page :: rest)
    (hframe : forall a, a < page ∨ page + pgSize ≤ a -> mem a = s.mem a) :
    forall i obj, Slot s.pages i obj -> mem.word obj = s.mem.word obj := by
  intro i obj hs
  exact h.seated.heap.grow_word hpool hframe hs

/-- A large request takes a page and is recorded with it. -/
theorem Tally.takeWhole (h : Tally s fl) {page n : Nat} {rest : List Nat} {mem : Memory}
    (hpool : s.pool = page :: rest) (hbig : maxObjSize < n)
    (hframe : forall a, a < page ∨ page + pgSize ≤ a -> mem a = s.mem a) :
    Tally { s.grow page rest none mem with live := (page, n) :: s.live } fl := by
  have hword := h.grow_word hpool hframe
  constructor
  · constructor
    · exact h.seated.heap.grow (k := none) hpool hframe
    · intro x hx hn
      rcases List.mem_cons.mp hx with rfl | hold
      · exact absurd hbig (Nat.not_lt_of_le hn)
      · exact (h.seated.small x hold hn).keep (fun _ _ hs => hs.weaken _)
          (fun _ _ _ hobj => hobj) hword
    · intro x hx hn
      rcases List.mem_cons.mp hx with rfl | hold
      · exact List.mem_cons_self
      · exact List.mem_cons_of_mem _ (h.seated.large x hold hn)
    · intro page' hpage'
      rcases List.mem_cons.mp hpage' with heq | hold
      · cases heq
        exact ⟨n, List.mem_cons_self, hbig⟩
      · rcases h.seated.returned page' hold with ⟨m, hmem, hm⟩
        exact ⟨m, List.mem_cons_of_mem _ hmem, hm⟩
    · refine List.pairwise_cons.mpr ⟨?_, h.seated.distinct⟩
      intro x _ hn
      exact absurd hbig (Nat.not_lt_of_le hn)
  · intro i
    have hkept : classLive (s.grow page rest none mem) i = classLive s i :=
      h.seated.classLive_eq (t := s.grow page rest none mem) rfl hword i
    have hskip : classLive { s.grow page rest none mem with
        live := (page, n) :: s.live } i = classLive (s.grow page rest none mem) i := by
      unfold classLive
      refine List.filter_cons_of_neg ?_
      intro hclass
      exact absurd hbig (Nat.not_lt_of_le (of_decide_eq_true hclass).left)
    rw [hskip, hkept]
    exact h.inuse i
  · exact h.total

theorem Tally.num_inuse (h : Tally s fl) {i : Fin nblock}
    (hfree : (s.blocks i).free = 0) :
    (s.blocks i).num.toNat = (classLive s i).length := by
  have htotal := h.total i
  rw [hfree] at htotal
  rw [h.inuse i, ← htotal]
  exact Nat.zero_add _

theorem Tally.refill (h : Tally s fl) {i : Fin nblock}
    (hfree : (s.blocks i).free = 0) {page : Nat} {rest : List Nat}
    (hpool : s.pool = page :: rest) :
    Tally (refilled s i page rest) (setList fl i (pageSlots i page)) := by
  have hheap := h.seated.heap.refill hfree hpool
  have hcarve : (carved s i page).cnt = (slotsFrom page (slotSize i) pgSize 0).length ∧
      (forall a, a < page ∨ page + pgSize ≤ a -> (carved s i page).mem a = s.mem a) :=
    h.seated.heap.carved_page i hpool
  have hword := h.grow_word hpool hcarve.right
  have hseated : Seated (refilled s i page rest) (setList fl i (pageSlots i page)) := by
    constructor
    · exact hheap
    · intro x hx hn
      refine (h.seated.small x hx hn).keep (fun _ _ hs => hs.weaken _) ?_ hword
      intro j obj hs hobj
      cases decEq j i with
      | isTrue heq =>
          rw [heq, setList_self, ← slotsFrom_page] at hobj
          have hapart := h.seated.heap.grow_slot_apart hpool hs
          have hlow := slotsFrom_low hobj
          have hhigh := (mem_slotsFrom (Nat.zero_mod _) hobj).left
          lia
      | isFalse hne =>
          rw [setList_of_ne _ hne] at hobj
          exact hobj
    · intro x hx hn
      exact List.mem_cons_of_mem _ (h.seated.large x hx hn)
    · intro page' hpage'
      rcases List.mem_cons.mp hpage' with heq | hold
      · cases heq
      · exact h.seated.returned page' hold
    · exact h.seated.distinct
  have hclass : forall j, classLive (refilled s i page rest) j = classLive s j :=
    h.seated.classLive_eq (t := refilled s i page rest) rfl hword
  refine ⟨hseated, ?_, ?_⟩
  · intro j
    rw [hclass j, h.inuse j]
    cases decEq j i with
    | isTrue heq =>
        rw [heq]
        unfold refilled
        rw [setBlock_self]
    | isFalse hne =>
        unfold refilled
        rw [setBlock_of_ne _ _ hne]
        rfl
  · intro j
    cases decEq j i with
    | isTrue heq =>
        have hbound := hseated.bound i
        have hcount := hheap.free.count i
        have hnum := h.num_inuse hfree
        have hinuse := h.inuse i
        rw [hclass i, setList_self] at hbound
        rw [setList_self, ← slotsFrom_page] at hcount
        rw [← slotsFrom_page] at hbound
        rw [heq]
        change _ = ((refilled s i page rest).blocks i).free.toNat at hcount
        rw [← hcount]
        unfold refilled
        rw [setBlock_self]
        dsimp only
        rw [UInt32.toNat_add, hcarve.left, hnum, ← hinuse,
          UInt32.toNat_ofNat_of_lt' (by lia), Nat.mod_eq_of_lt (by lia)]
        exact Nat.add_comm _ _
    | isFalse hne =>
        unfold refilled
        rw [setBlock_of_ne _ _ hne]
        exact h.total j

/-!
# Objects that come and go
-/

section Pop

variable {i : Fin nblock} {obj n : Nat} {os : List Nat}

theorem Seated.head (h : Seated s fl) (hlist : fl i = obj :: os) : (s.blocks i).head = obj := by
  have hchain := h.heap.free.chain i
  rw [hlist] at hchain
  exact hchain.left

/-- The descriptor of the object that is taken names its class. -/
theorem Seated.popped_word_self (h : Seated s fl) (hlist : fl i = obj :: os) :
    (popObj s i).2.mem.word obj = i.val := by
  have hidx : (s.blocks i).blockIdx = i.val := (h.heap.free.config i).left
  show (s.mem.setWord (s.blocks i).head (s.blocks i).blockIdx).word obj = _
  rw [h.head hlist, hidx]
  exact Memory.word_setWord_self s.mem obj (by have := i.isLt; unfold nblock at this; lia)

theorem Seated.popped_word_other (h : Seated s fl) (hlist : fl i = obj :: os) {j : Fin nblock}
    {obj' : Nat} (hslot : Slot s.pages j obj') (hne : obj' ≠ obj) :
    (popObj s i).2.mem.word obj' = s.mem.word obj' := by
  have hmem : obj ∈ fl i := by
    rw [hlist]
    exact List.mem_cons_self
  show (s.mem.setWord (s.blocks i).head _).word obj' = _
  rw [h.head hlist]
  exact h.heap.word_other (h.heap.free.slot i obj hmem) hslot hne _

theorem Seated.free_not_live (h : Seated s fl) (hmem : obj ∈ fl i) {x : Nat × Nat}
    (hx : x ∈ s.live) (hxn : x.2 ≤ maxObjSize) : x.1 ≠ obj + descSize := by
  intro heq
  rcases h.small x hx hxn with ⟨j, obj', hptr, hslot, hnot, _⟩
  have hobj : obj' = obj := Nat.add_right_cancel (hptr.symm.trans heq)
  subst hobj
  have hji := Slot.class_unique h.heap.pages hslot (h.heap.free.slot i obj' hmem)
  subst hji
  exact hnot hmem

theorem Seated.pop (h : Seated s fl) (hlist : fl i = obj :: os) (hn : n ≤ maxObjSize) :
    Seated { (popObj s i).2 with live := (obj + descSize, n) :: s.live } (setList fl i os) := by
  have hmem : obj ∈ fl i := by
    rw [hlist]
    exact List.mem_cons_self
  constructor
  · exact h.heap.popped hlist
  · intro x hx hxn
    rcases List.mem_cons.mp hx with rfl | hold
    · refine ⟨i, obj, rfl, h.heap.free.slot i obj hmem, ?_, h.popped_word_self hlist⟩
      have hnodup := h.heap.free.nodup i
      rw [hlist] at hnodup
      rw [setList_self]
      exact (List.nodup_cons.mp hnodup).left
    · rcases h.small x hold hxn with ⟨j, obj', hptr, hslot, hnot, hword⟩
      have hne : obj' ≠ obj := by
        intro heq
        exact h.free_not_live hmem hold hxn (by rw [hptr, heq])
      refine ⟨j, obj', hptr, hslot, ?_, (h.popped_word_other hlist hslot hne).trans hword⟩
      intro hin
      apply hnot
      cases decEq j i with
      | isTrue heq =>
          rw [heq, setList_self] at hin
          rw [heq, hlist]
          exact List.mem_cons_of_mem obj hin
      | isFalse hji =>
          rw [setList_of_ne os hji] at hin
          exact hin
  · intro x hx hxn
    rcases List.mem_cons.mp hx with rfl | hold
    · exact absurd hxn (Nat.not_lt_of_le hn)
    · exact h.large x hold hxn
  · intro page hpage
    rcases h.returned page hpage with ⟨m, hlive, hm⟩
    exact ⟨m, List.mem_cons_of_mem _ hlive, hm⟩
  · refine List.pairwise_cons.mpr ⟨?_, h.distinct⟩
    intro x hx _ hxn heq
    exact h.free_not_live hmem hx hxn heq.symm

theorem Seated.classLive_kept (h : Seated s fl) (hlist : fl i = obj :: os) (j : Fin nblock) :
    s.live.filter (fun x => x.2 ≤ maxObjSize ∧
      (popObj s i).2.mem.word (x.1 - descSize) = j.val) = classLive s j := by
  have hmem : obj ∈ fl i := by
    rw [hlist]
    exact List.mem_cons_self
  refine List.filter_congr ?_
  intro x hx
  refine decide_eq_decide.mpr (and_congr_right ?_)
  intro hxn
  rcases h.small x hx hxn with ⟨k, obj', hptr, hslot, _⟩
  have hne : obj' ≠ obj := by
    intro heq
    exact h.free_not_live hmem hx hxn (by rw [hptr, heq])
  rw [hptr, Nat.add_sub_cancel, h.popped_word_other hlist hslot hne]

theorem Seated.classLive_self (h : Seated s fl) (hlist : fl i = obj :: os)
    (hn : n ≤ maxObjSize) :
    classLive { (popObj s i).2 with live := (obj + descSize, n) :: s.live } i =
      (obj + descSize, n) :: classLive s i := by
  rw [← h.classLive_kept hlist i]
  refine List.filter_cons_of_pos (decide_eq_true ⟨hn, ?_⟩)
  show (popObj s i).2.mem.word (obj + descSize - descSize) = _
  rw [Nat.add_sub_cancel]
  exact h.popped_word_self hlist

theorem Seated.classLive_other (h : Seated s fl) (hlist : fl i = obj :: os) {j : Fin nblock}
    (hne : j ≠ i) :
    classLive { (popObj s i).2 with live := (obj + descSize, n) :: s.live } j =
      classLive s j := by
  rw [← h.classLive_kept hlist j]
  refine List.filter_cons_of_neg ?_
  intro hclass
  have hword := (of_decide_eq_true hclass).right
  change (popObj s i).2.mem.word (obj + descSize - descSize) = _ at hword
  rw [Nat.add_sub_cancel, h.popped_word_self hlist] at hword
  exact hne (Fin.ext hword.symm)

/-- A change of one class that keeps the sum keeps all sums. -/
theorem Tally.total_setBlock (h : Tally s fl) {b : MemBlock}
    (hsum : b.free.toNat + b.inuse.toNat = b.num.toNat) (j : Fin nblock) :
    ((s.setBlock i b).blocks j).free.toNat + ((s.setBlock i b).blocks j).inuse.toNat =
      ((s.setBlock i b).blocks j).num.toNat := by
  cases decEq j i with
  | isTrue heq =>
      rw [heq, setBlock_self]
      exact hsum
  | isFalse hne =>
      rw [setBlock_of_ne _ _ hne]
      exact h.total j

theorem Tally.pop (h : Tally s fl) (hlist : fl i = obj :: os) (hn : n ≤ maxObjSize) :
    (popObj s i).1 = obj + descSize ∧
      Tally { (popObj s i).2 with live := (obj + descSize, n) :: s.live }
        (setList fl i os) := by
  have hroom : 0 < (s.blocks i).free.toNat ∧
      (s.blocks i).inuse.toNat + 1 < 0x100000000 := by
    have hbound := h.seated.bound i
    have hcount := h.seated.heap.free.count i
    change (fl i).length = (s.blocks i).free.toNat at hcount
    rw [h.inuse i] at hbound
    rw [hlist, List.length_cons] at hbound hcount
    lia
  refine ⟨congrArg (fun a => a + descSize) (h.seated.head hlist), ?_, ?_, ?_⟩
  · exact h.seated.pop hlist hn
  · intro j
    cases decEq j i with
    | isTrue heq =>
        rw [heq, h.seated.classLive_self hlist hn, List.length_cons]
        show _ = (((s.setBlock i _).blocks i).inuse).toNat
        rw [setBlock_self, h.inuse i]
        exact (toNat_add_one hroom.right).symm
    | isFalse hne =>
        rw [h.seated.classLive_other hlist hne, h.inuse j]
        show _ = (((s.setBlock i _).blocks j).inuse).toNat
        rw [setBlock_of_ne _ _ hne]
  · apply h.total_setBlock
    have htotal := h.total i
    dsimp only
    rw [toNat_add_one hroom.right, toNat_sub_one hroom.left, ← htotal]
    lia

end Pop

/-- Of entries with distinct pointers, one has the pointer that is dropped. -/
theorem length_drop {live : List (Nat × Nat)} {x : Nat × Nat}
    (hdistinct : live.Pairwise (fun x y => x.1 ≠ y.1)) (hx : x ∈ live) :
    (live.filter (fun y => y.1 ≠ x.1)).length + 1 = live.length := by
  have hnodup : (live.map Prod.fst).Nodup := List.pairwise_map.mpr hdistinct
  have hmem : x.1 ∈ live.map Prod.fst := List.mem_map.mpr ⟨x, hx, rfl⟩
  have herase := List.length_erase_of_mem hmem
  rw [hnodup.erase_eq_filter, List.filter_map, List.length_map, List.length_map] at herase
  have hpos : 0 < live.length := List.length_pos_of_mem hx
  have hsame : live.filter ((fun a => a != x.1) ∘ Prod.fst) =
      live.filter (fun y => y.1 ≠ x.1) := by
    refine List.filter_congr ?_
    intro y _
    exact Bool.eq_iff_iff.mpr (bne_iff_ne.trans decide_eq_true_iff.symm)
  rw [hsame] at herase
  lia

theorem classLive_drop (s : State) (ptr : Nat) (i : Fin nblock) :
    classLive { s with live := s.live.filter (fun x => x.1 ≠ ptr) } i =
      (classLive s i).filter (fun x => x.1 ≠ ptr) := by
  unfold classLive
  rw [List.filter_filter, List.filter_filter]
  refine List.filter_congr ?_
  intro x _
  exact Bool.and_comm _ _

section Push

variable {x : Nat × Nat} {i : Fin nblock} {obj : Nat}

/-- The state behind `kfree` of the object: it is on its list, and its owner has let go. -/
def freed (s : State) (i : Fin nblock) (obj ptr : Nat) : State :=
  { pushed s i obj with live := (pushed s i obj).live.filter (fun y => y.1 ≠ ptr) }

/-- The other small objects keep their place and their header. -/
theorem Seated.kept (h : Seated s fl) (hptr : x.1 = obj + descSize) (hs : Slot s.pages i obj)
    {y : Nat × Nat} (hy : y ∈ s.live) (hyn : y.2 ≤ maxObjSize) (hne : y.1 ≠ x.1) :
    exists j obj', y.1 = obj' + descSize ∧ Slot s.pages j obj' ∧ obj' ≠ obj ∧
      Not (obj' ∈ fl j) ∧ s.mem.word obj' = j.val ∧
      (pushed s i obj).mem.word obj' = s.mem.word obj' := by
  rcases h.small y hy hyn with ⟨j, obj', hptr', hs', hnot', hidx'⟩
  have hobj : obj' ≠ obj := by
    intro heq
    exact hne (by rw [hptr', hptr, heq])
  exact ⟨j, obj', hptr', hs', hobj, hnot', hidx', h.heap.word_other hs hs' hobj _⟩

theorem Seated.classLive_freed (h : Seated s fl) (hptr : x.1 = obj + descSize)
    (hs : Slot s.pages i obj) (j : Fin nblock) :
    classLive (freed s i obj x.1) j = (classLive s j).filter (fun y => y.1 ≠ x.1) := by
  rw [← classLive_drop]
  refine List.filter_congr ?_
  intro y hy
  rcases List.mem_filter.mp hy with ⟨hlive, hne⟩
  refine decide_eq_decide.mpr (and_congr_right ?_)
  intro hyn
  rcases h.kept hptr hs hlive hyn (of_decide_eq_true hne) with
    ⟨k, obj', hptr', -, -, -, -, hword⟩
  rw [hptr', Nat.add_sub_cancel]
  exact Eq.congr_left hword

theorem Seated.classLive_apart (h : Seated s fl) (hptr : x.1 = obj + descSize)
    (hs : Slot s.pages i obj) {j : Fin nblock} (hne : j ≠ i) :
    (classLive s j).filter (fun y => y.1 ≠ x.1) = classLive s j := by
  refine List.filter_eq_self.mpr ?_
  intro y hy
  refine decide_eq_true ?_
  intro heq
  rcases h.class_slot hy with ⟨obj', hptr', hs', _⟩
  have hobj : obj' = obj := Nat.add_right_cancel (hptr'.symm.trans (heq.trans hptr))
  subst hobj
  exact hne (Slot.class_unique h.heap.pages hs' hs)

theorem Seated.push (h : Seated s fl) (hptr : x.1 = obj + descSize) (hs : Slot s.pages i obj)
    (hnot : Not (obj ∈ fl i)) (hsmall : forall n, (x.1, n) ∈ s.live -> n ≤ maxObjSize) :
    Seated (freed s i obj x.1) (setList fl i (obj :: fl i)) := by
  constructor
  · exact h.heap.push hs hnot
  · intro y hy hyn
    rcases List.mem_filter.mp hy with ⟨hlive, hne⟩
    rcases h.kept hptr hs hlive hyn (of_decide_eq_true hne) with
      ⟨j, obj', hptr', hs', hobj, hnot', hidx', hword⟩
    refine ⟨j, obj', hptr', hs', ?_, hword.trans hidx'⟩
    intro hin
    cases decEq j i with
    | isTrue heq =>
        rw [heq, setList_self] at hin
        rw [heq] at hnot'
        rcases List.mem_cons.mp hin with heq' | hold
        · exact hobj heq'
        · exact hnot' hold
    | isFalse hji =>
        rw [setList_of_ne _ hji] at hin
        exact hnot' hin
  · exact fun y hy hyn => h.large y (List.mem_filter.mp hy).left hyn
  · intro page hpage
    rcases h.returned page hpage with ⟨n, hmem, hbig⟩
    refine ⟨n, List.mem_filter.mpr ⟨hmem, decide_eq_true ?_⟩, hbig⟩
    intro heq
    change page = x.1 at heq
    rw [heq] at hmem
    exact Nat.not_lt_of_le (hsmall n hmem) hbig
  · exact h.distinct.filter _

/-- A small object that is freed goes back to its class. -/
theorem Tally.push (h : Tally s fl) (hx : x ∈ s.live)
    (hsmall : forall n, (x.1, n) ∈ s.live -> n ≤ maxObjSize) :
    exists t fl', kfree x.1 false s = some t ∧
      Tally { t with live := t.live.filter (fun y => y.1 ≠ x.1) } fl' := by
  rcases h.seated.small x hx (hsmall x.2 hx) with ⟨i, obj, hptr, hs, hnot, hidx⟩
  have hclass : x ∈ classLive s i := by
    refine List.mem_filter.mpr ⟨hx, decide_eq_true ⟨hsmall x.2 hx, ?_⟩⟩
    rw [hptr, Nat.add_sub_cancel]
    exact hidx
  have hdrop := length_drop (h.seated.class_distinct i) hclass
  rw [h.inuse i] at hdrop
  refine ⟨_, setList fl i (obj :: fl i), kfree_eq hptr hidx, ?_⟩
  change Tally (freed s i obj x.1) _
  constructor
  · exact h.seated.push hptr hs hnot hsmall
  · intro j
    rw [h.seated.classLive_freed hptr hs j]
    show _ = ((s.setBlock i _).blocks j).inuse.toNat
    cases decEq j i with
    | isTrue heq =>
        rw [heq, setBlock_self]
        dsimp only
        rw [toNat_sub_one (by lia)]
        lia
    | isFalse hne =>
        rw [setBlock_of_ne _ _ hne, ← h.inuse j, h.seated.classLive_apart hptr hs hne]
  · apply h.total_setBlock
    have htotal := h.total i
    have hlt := (s.blocks i).num.toNat_lt
    dsimp only
    rw [toNat_sub_one (by lia), toNat_add_one (by lia), ← htotal]
    lia

end Push

/-!
# Runs
-/

/-- What a call of `kalloc` leaves behind, whether it is served or not. -/
def Tallied (nbytes : Nat) (r : Nat × State) : Prop :=
  (r.1 = 0 ∧ exists fl, Tally r.2 fl) ∨
    (r.1 ≠ 0 ∧ exists fl, Tally { r.2 with live := (r.1, nbytes) :: r.2.live } fl)

theorem Tally.tallied_pop (h : Tally s fl) {i : Fin nblock} {n : Nat}
    (hlist : fl i ≠ []) (hn : n ≤ maxObjSize) : Tallied n (popObj s i) := by
  cases hos : fl i with
  | nil => exact absurd hos hlist
  | cons obj os =>
      rcases h.pop hos hn with ⟨hptr, htally⟩
      refine Or.inr ⟨Nat.succ_ne_zero _, setList fl i os, ?_⟩
      rw [hptr]
      exact htally

theorem Tally.fetchObjFromBlock (h : Tally s fl) (i : Fin nblock) {n : Nat}
    (hn : n ≤ maxObjSize) :
    exists r, fetchObjFromBlock s i = some r ∧ Tallied n r := by
  unfold Kalloc.fetchObjFromBlock
  cases decEq (s.blocks i).free 0 with
  | isFalse hfree =>
      rw [if_neg hfree]
      refine ⟨_, rfl, h.tallied_pop ?_ hn⟩
      intro hnil
      have hcount := h.seated.heap.free.count i
      rw [hnil] at hcount
      exact hfree (UInt32.toNat_inj.mp hcount.symm)
  | isTrue hfree =>
      rw [if_pos hfree]
      cases hpool : s.pool with
      | nil =>
          rw [h.seated.free.allocNewObjs_empty hfree hpool]
          exact ⟨_, rfl, Or.inl ⟨rfl, fl, h.clearNull⟩⟩
      | cons page rest =>
          have hne := Nat.ne_of_gt (h.seated.heap.pool_page hpool).right.left
          rw [h.seated.free.allocNewObjs_page hfree hpool hne]
          refine ⟨_, rfl, (h.refill hfree hpool).tallied_pop ?_ hn⟩
          rw [setList_self]
          exact List.cons_ne_nil _ _

theorem Tally.fetchFrom (h : Tally s fl) {n : Nat} (hn : n ≤ maxObjSize)
    (is : List (Fin nblock)) : exists r, fetchFrom n is s = some r ∧ Tallied n r := by
  induction is generalizing s fl with
  | nil => exact ⟨(0, s), rfl, Or.inl ⟨rfl, fl, h⟩⟩
  | cons i rest ih =>
      unfold Kalloc.fetchFrom
      split
      · rcases h.fetchObjFromBlock i hn with ⟨⟨r, t⟩, hr, hcase⟩
        rw [hr]
        dsimp only
        rcases hcase with ⟨hzero, fl', htally⟩ | ⟨hne, hserved⟩
        · rw [if_pos hzero]
          exact ih htally
        · rw [if_neg hne]
          exact ⟨_, rfl, Or.inr ⟨hne, hserved⟩⟩
      · exact ih h

theorem Tally.kalloc (h : Tally s fl) {n : Nat} (hpos : 0 < n) (hlt : n < pgSize)
    (killed : Bool) : exists r, kalloc n killed s = some r ∧ Tallied n r := by
  unfold Kalloc.kalloc
  rw [if_neg (Nat.ne_of_gt hpos), if_neg (not_not_intro hlt)]
  cases killed with
  | true => exact ⟨(0, s), rfl, Or.inl ⟨rfl, fl, h⟩⟩
  | false =>
      rw [if_neg Bool.false_ne_true]
      split
      · rename_i hbig
        cases hpool : s.pool with
        | nil =>
            refine ⟨(0, { s with mem := s.mem.fill 0 0 pgSize }), ?_,
              Or.inl ⟨rfl, fl, h.clearNull⟩⟩
            unfold getZeroedFreePage
            rw [hpool]
            rfl
        | cons page rest =>
            have hpage := (h.seated.heap.pool_page hpool).right.left
            refine ⟨(page, s.grow page rest none (s.mem.fill page 0 pgSize)), ?_, ?_⟩
            · unfold getZeroedFreePage
              rw [hpool]
              exact if_neg (Nat.ne_of_gt hpage)
            · exact Or.inr ⟨Nat.ne_of_gt hpage, fl,
                h.takeWhole hpool hbig (fun a => fill_outside s.mem 0)⟩
      · rename_i hsmall
        exact h.fetchFrom (by lia) _

theorem Tally.step (h : Tally s fl) (op : Op) (hrequest : Request s op)
    (hundoes : Undoes s op) :
    exists t fl', Kalloc.step s op = some t ∧ Tally t fl' := by
  cases op with
  | kalloc nbytes killed =>
      rcases h.kalloc hrequest.left hrequest.right killed with ⟨⟨r, t⟩, hr, hcase⟩
      unfold Kalloc.step
      simp only [hr]
      rcases hcase with ⟨hzero, fl', htally⟩ | ⟨hne, fl', htally⟩
      · exact ⟨t, fl', if_pos hzero, htally⟩
      · exact ⟨_, fl', if_neg hne, htally⟩
  | kfree ptr killed =>
      rcases hrequest with ⟨n, hlive⟩
      rcases hundoes with ⟨rfl, hsmall⟩
      rcases h.push hlive hsmall with ⟨t, fl', hfree, htally⟩
      exact ⟨_, fl', step_kfree hfree, htally⟩
  | store a v => exact absurd hrequest id
  | takePage => exact absurd hrequest id
  | returnPage page => exact absurd hrequest id

theorem kfree_keeps {ptr : Nat} {killed : Bool} {t : State}
    (h : kfree ptr killed s = some t) : t.pages = s.pages ∧ t.live = s.live := by
  unfold kfree at h
  split at h
  · cases h
    exact ⟨rfl, rfl⟩
  · split at h
    · cases h
      exact ⟨rfl, rfl⟩
    · dsimp only at h
      split at h
      · cases h
        exact ⟨rfl, rfl⟩
      · cases h

/-- A `kfree` that undoes nothing leaves a counter or a page behind. -/
theorem Tally.not_balanced (h : Tally s fl) {op : Op} (hrequest : Request s op)
    (hnot : Not (Undoes s op)) {t : State} (hstep : Kalloc.step s op = some t) :
    Not (Balanced t) := by
  intro hbalanced
  cases op with
  | kalloc nbytes killed => exact hnot trivial
  | kfree ptr killed =>
      unfold Kalloc.step at hstep
      cases hfree : kfree ptr killed s with
      | none =>
          simp only [hfree] at hstep
          cases hstep
      | some u =>
          rcases kfree_keeps hfree with ⟨hpages, hlive⟩
          simp only [hfree, hlive] at hstep
          cases hstep
          have hlarge : forall n, (ptr, n) ∈ s.live -> n ≤ maxObjSize := by
            intro n hmem
            by_contra hbig
            have hpage := h.seated.large (ptr, n) hmem (by lia)
            rw [← hpages] at hpage
            rcases hbalanced.returned ptr hpage with ⟨m, hdropped, _⟩
            have hne := of_decide_eq_true (List.mem_filter.mp hdropped).right
            exact hne rfl
          cases killed with
          | false => exact hnot ⟨rfl, hlarge⟩
          | true =>
              rw [kfree_killed] at hfree
              cases hfree
              rcases hrequest with ⟨n, hmem⟩
              rcases h.seated.small _ hmem (hlarge n hmem) with ⟨i, obj, hptr, _, _, hidx⟩
              have hclass : (ptr, n) ∈ classLive s i := by
                refine List.mem_filter.mpr ⟨hmem, decide_eq_true ⟨hlarge n hmem, ?_⟩⟩
                rw [hptr, Nat.add_sub_cancel]
                exact hidx
              have hdrop := length_drop (h.seated.class_distinct i) hclass
              have hinuse := hbalanced.inuse i
              rw [classLive_drop, ← h.inuse i] at hinuse
              lia
  | store a v => exact hrequest
  | takePage => exact hrequest
  | returnPage page => exact hrequest

theorem kallocInit_tally (mem : Memory) {pool : List Nat} (hpool : PoolSound pool) :
    Tally (kallocInit mem pool) (fun _ => []) := by
  refine ⟨⟨kallocInit_inv mem hpool, ?_, ?_, ?_, List.Pairwise.nil⟩, ?_, ?_⟩
  · intro x hx
    cases hx
  · intro x hx
    cases hx
  · intro page hpage
    cases hpage
  · intro i
    rfl
  · intro i
    rfl

/--
In every run whose calls of `kfree` undo the allocation the counters are right, and
the next request keeps them right exactly if it does the same.
-/
theorem kalloc_balanced_iff (mem : Memory) {pool : List Nat} (hpool : PoolSound pool)
    {s : State}
    (h : Reaches step (fun s op => Request s op ∧ Undoes s op) (kallocInit mem pool) s) :
    Balanced s ∧
      (s.live = [] -> (forall i, (s.blocks i).inuse = 0) ∧
        forall page, Not ((page, none) ∈ s.pages)) ∧
      forall op, Request s op ->
        ((exists t, step s op = some t ∧ Balanced t) <-> Undoes s op) := by
  have htally : exists fl, Tally s fl := by
    refine h.invariant (P := fun s => exists fl, Tally s fl)
      ⟨_, kallocInit_tally mem hpool⟩ ?_
    intro r t op hex hboth hstep
    rcases hex with ⟨fl, hr⟩
    rcases hboth with ⟨hrequest, hundoes⟩
    rcases hr.step op hrequest hundoes with ⟨t', fl', hstep', htally⟩
    rw [hstep] at hstep'
    cases hstep'
    exact ⟨fl', htally⟩
  rcases htally with ⟨fl, htally⟩
  refine ⟨htally.balanced, htally.balanced.all_freed, ?_⟩
  intro op hrequest
  constructor
  · intro hex
    rcases hex with ⟨t, hstep, hbalanced⟩
    by_contra hnot
    exact htally.not_balanced hrequest hnot hstep hbalanced
  · intro hundoes
    rcases htally.step op hrequest hundoes with ⟨t, _, hstep, ht⟩
    exact ⟨t, hstep, ht.balanced⟩

theorem undoes_of_requestTest (s : State) (op : Op) (h : requestTest s op = true) :
    Request s op ∧ Undoes s op := by
  have hlegal := (legal_of_requestTest s op h).left
  cases op with
  | kalloc nbytes killed => exact ⟨hlegal, trivial⟩
  | kfree ptr killed =>
      rcases Bool.and_eq_true_iff.mp h with ⟨hboth, hsmall⟩
      have hkilled := (Bool.and_eq_true_iff.mp hboth).left
      refine ⟨hlegal, ?_, fun n hmem => small_of_test hsmall hmem⟩
      cases killed with
      | false => rfl
      | true => cases hkilled
  | store a v => cases h
  | takePage => cases h
  | returnPage page => cases h

/-- The second object is freed as well. -/
theorem kalloc_balanced_iff_threeRequests :
    exists s, runFrom step (kallocInit (fun _ => 0) [0x200000]) threeRequests = some s ∧
      Balanced s ∧ exists t, step s (Op.kfree 0x200088 false) = some t ∧ Balanced t := by
  rcases Option.map_eq_some_iff.mp threeRequests_live with ⟨s, hrun, hlive⟩
  have hreach := runFrom_reaches (runMeets_of_runCheck undoes_of_requestTest threeRequests_check)
    hrun
  rcases kalloc_balanced_iff (fun _ => 0) poolSound_one hreach with ⟨hbalanced, -, hnext⟩
  have htest : requestTest s (Op.kfree 0x200088 false) = true := by
    show (true && s.live.any _ && s.live.all _) = true
    rw [hlive]
    rfl
  rcases undoes_of_requestTest s _ htest with ⟨hrequest, hundoes⟩
  exact ⟨s, hrun, hbalanced, (hnext _ hrequest).mpr hundoes⟩

/-- A page is taken for a large object, and the object is freed. -/
def largeRequest : List Op := [Op.kalloc 2000 false, Op.kfree 0x200000 false]

theorem largeRequest_leaves :
    (runFrom step (kallocInit (fun _ => 0) [0x200000]) largeRequest).map
        (fun s => (s.live, s.pages, s.pool)) =
      some ([], [(0x200000, none)], []) := by
  rfl

theorem runMeets_largeRequest :
    RunMeets step Request (kallocInit (fun _ => 0) [0x200000]) largeRequest := by
  refine ⟨⟨by decide, by decide⟩, ?_⟩
  intro t ht
  have hlive : t.live = [(0x200000, 2000)] := by
    have hrun : (step (kallocInit (fun _ => 0) [0x200000]) (Op.kalloc 2000 false)).map
        State.live = some [(0x200000, 2000)] := rfl
    rw [ht] at hrun
    exact Option.some.inj hrun
  refine ⟨⟨2000, ?_⟩, fun _ _ => trivial⟩
  rw [hlive]
  exact List.mem_cons_self

/-- The page of the large object is neither live nor back in the pool. -/
theorem kalloc_not_balanced :
    Not (forall mem pool, PoolSound pool -> forall s,
      Reaches step Request (kallocInit mem pool) s -> Balanced s) := by
  intro hall
  cases hrun : runFrom step (kallocInit (fun _ => 0) [0x200000]) largeRequest with
  | none =>
      have hleaves := largeRequest_leaves
      rw [hrun] at hleaves
      cases hleaves
  | some s =>
      have hleaves := largeRequest_leaves
      rw [hrun] at hleaves
      rcases Prod.mk.inj (Option.some.inj hleaves) with ⟨hlive, hrest⟩
      rcases Prod.mk.inj hrest with ⟨hpages, _⟩
      have hreach := runFrom_reaches runMeets_largeRequest hrun
      have hbalanced := hall _ _ poolSound_one s hreach
      refine (hbalanced.all_freed hlive).right 0x200000 ?_
      rw [hpages]
      exact List.mem_cons_self

end Kalloc
end Kernel
end NicoOS
