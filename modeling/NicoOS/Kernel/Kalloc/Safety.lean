import NicoOS.Kernel.Kalloc.Invariant
import Mathlib.Data.Finset.Card
import Mathlib.Data.Finset.Range

/-!
# Histories that keep the heap sound

The last object of every page crosses the end of the page, and an object of a
whole page has no descriptor for `kfree` to read.  A history that never hands
out the former beyond the page and never frees the latter keeps the invariant.
-/

namespace NicoOS
namespace Kernel
namespace Kalloc

open Lib

variable {s : State} {fl : Fin nblock -> List Nat}

/-!
# Changes outside the slots
-/

theorem PagesSound.of_perm {t : State} (h : PagesSound s)
    (hperm : t.allPages.Perm s.allPages) : PagesSound t := by
  constructor
  · exact hperm.nodup_iff.mpr h.nodup
  · intro page hpage
    exact h.proper page (hperm.mem_iff.mp hpage)

theorem Inv.setMem (h : Inv s fl) (mem : Memory)
    (hword : forall i obj, Slot s.pages i obj -> mem.word obj = s.mem.word obj) :
    Inv { s with mem := mem } fl := by
  constructor
  · exact ⟨h.pages.nodup, h.pages.proper⟩
  · refine ⟨h.free.config, ?_, h.free.count, h.free.slot, h.free.nodup⟩
    intro i
    exact (h.free.chain i).congr (fun obj hobj => hword i obj (h.free.slot i obj hobj))
  · intro x hx
    rcases h.live x hx with ⟨i, obj, hptr, hs, hfree, hidx, hpos, hn, hfit⟩ | hlarge
    · refine Or.inl ⟨i, obj, hptr, hs, hfree, ?_, hpos, hn, hfit⟩
      rw [hword i obj hs]
      exact hidx
    · exact Or.inr hlarge
  · exact h.distinct

/-- A page that is not the allocator's own holds no descriptor. -/
theorem PagesSound.slot_not_in_page (h : PagesSound s) {page obj : Nat}
    {i : Fin nblock} (hs : Slot s.pages i obj) (hpage : page ∈ s.pool ++ s.outside) :
    RangesApart (obj, descSize) (page, pgSize) := by
  have hin := h.slot_inside hs
  refine h.slot_apart_page hs hin (List.mem_append_right _ hpage) ?_ (Nat.le_refl _)
  intro hcut
  have hdisj := (List.nodup_append.mp h.nodup).right.right
  exact hdisj page (List.mem_map.mpr ⟨_, hcut, rfl⟩) page hpage rfl

theorem Inv.store (h : Inv s fl) {a : Nat} (v : UInt8)
    (hlegal : Legal s (Op.store a v)) : Inv { s with mem := s.mem.setByte a v } fl := by
  apply h.setMem
  intro i obj hs
  apply Memory.word_setByte_of_outside
  rcases hlegal with ⟨ptr, n, hlive, hlow, hhigh⟩ | ⟨page, hpage, hlow, hhigh⟩
  · cases Nat.decEq ptr (obj + descSize) with
    | isTrue heq =>
        right
        unfold descSize at heq
        lia
    | isFalse hne =>
        have hapart := h.live_slot_apart hlive hs (fun heq => absurd heq hne)
        rcases h.live_in_page hlive with ⟨page, hmem, hpl, _⟩
        have hproper := h.pages.proper page (List.mem_append_left _ hmem)
        unfold RangesApart extent descSize at hapart
        unfold pgSize at hproper
        simp only at hapart hpl
        split at hapart <;> lia
  · have hapart := h.pages.slot_not_in_page hs (List.mem_append_right _ hpage)
    unfold RangesApart descSize at hapart
    simp only at hapart
    lia

theorem Inv.clearNull (h : Inv s fl) :
    Inv { s with mem := s.mem.fill 0 0 pgSize } fl := by
  apply h.setMem
  intro i obj hs
  have hpos := h.pages.slot_pos hs
  exact Memory.word_fill_of_apart s.mem 0 (Or.inr (by lia))

theorem Inv.takePage (h : Inv s fl) {page : Nat} {rest : List Nat}
    (hpool : s.pool = page :: rest) :
    Inv { s with pool := rest, outside := page :: s.outside } fl := by
  refine ⟨h.pages.of_perm ?_, ⟨h.free.config, h.free.chain, h.free.count, h.free.slot,
    h.free.nodup⟩, h.live, h.distinct⟩
  show (s.pages.map Prod.fst ++ (rest ++ page :: s.outside)).Perm
    (s.pages.map Prod.fst ++ (s.pool ++ s.outside))
  rw [hpool]
  exact List.Perm.append_left _ List.perm_middle

theorem Inv.returnPage (h : Inv s fl) {page : Nat} (hpage : page ∈ s.outside) :
    Inv { s with pool := page :: s.pool, outside := s.outside.erase page } fl := by
  refine ⟨h.pages.of_perm ?_, ⟨h.free.config, h.free.chain, h.free.count, h.free.slot,
    h.free.nodup⟩, h.live, h.distinct⟩
  show (s.pages.map Prod.fst ++ (page :: s.pool ++ s.outside.erase page)).Perm
    (s.pages.map Prod.fst ++ (s.pool ++ s.outside))
  apply List.Perm.append_left
  have hmid : (page :: s.pool ++ s.outside.erase page).Perm
      (s.pool ++ page :: s.outside.erase page) := List.perm_middle.symm
  exact hmid.trans (List.Perm.append_left _ (List.perm_cons_erase hpage).symm)

/-!
# Taking a page
-/

theorem Slot.weaken {pages : List (Nat × Option (Fin nblock))} {i : Fin nblock}
    {obj : Nat} (x : Nat × Option (Fin nblock)) (h : Slot pages i obj) :
    Slot (x :: pages) i obj := by
  rcases h with ⟨page, hpage, hrest⟩
  exact ⟨page, List.mem_cons_of_mem x hpage, hrest⟩

/-- The state after a page of the pool was cleared, cut and recorded. -/
def State.grow (s : State) (page : Nat) (rest : List Nat) (k : Option (Fin nblock))
    (mem : Memory) : State :=
  { s with mem := mem, pool := rest, pages := (page, k) :: s.pages }

section Grow

variable {page : Nat} {rest : List Nat} {k : Option (Fin nblock)} {mem : Memory}

theorem Inv.grow_pages (h : Inv s fl) (hpool : s.pool = page :: rest)
    (k : Option (Fin nblock)) (mem : Memory) :
    PagesSound (s.grow page rest k mem) := by
  apply h.pages.of_perm
  show (page :: s.pages.map Prod.fst ++ (rest ++ s.outside)).Perm
    (s.pages.map Prod.fst ++ (s.pool ++ s.outside))
  rw [hpool]
  exact List.perm_middle.symm

theorem Inv.pool_page (h : Inv s fl) (hpool : s.pool = page :: rest) :
    page % pgSize = 0 ∧ 0 < page ∧ page + pgSize ≤ 0x100000000 := by
  apply h.pages.proper page
  unfold State.allPages
  rw [hpool]
  exact List.mem_append_right _ List.mem_cons_self

theorem Inv.grow_slot_apart (h : Inv s fl) (hpool : s.pool = page :: rest)
    {i : Fin nblock} {obj : Nat} (hs : Slot s.pages i obj) :
    obj + 4 ≤ page ∨ page + pgSize ≤ obj := by
  have hmem : page ∈ s.pool ++ s.outside := by
    rw [hpool]
    exact List.mem_cons_self
  have hapart := h.pages.slot_not_in_page hs hmem
  unfold RangesApart descSize at hapart
  exact hapart

theorem Inv.grow_word (h : Inv s fl) (hpool : s.pool = page :: rest)
    (hframe : forall a, a < page ∨ page + pgSize ≤ a -> mem a = s.mem a)
    {i : Fin nblock} {obj : Nat} (hs : Slot s.pages i obj) :
    mem.word obj = s.mem.word obj := by
  have hapart := h.grow_slot_apart hpool hs
  apply Memory.word_congr
  intro a ha ha'
  exact hframe a (by lia)

/-- Live objects stay placed when the free lists gain slots of the new page only. -/
theorem Inv.grow_live (h : Inv s fl) (hpool : s.pool = page :: rest)
    (hframe : forall a, a < page ∨ page + pgSize ≤ a -> mem a = s.mem a)
    {fl' : Fin nblock -> List Nat}
    (hfl : forall i obj, obj ∈ fl' i ->
      obj ∈ fl i ∨ (page ≤ obj ∧ obj < page + pgSize))
    {t : State} (hmem : t.mem = mem) (hpages : t.pages = (page, k) :: s.pages)
    {x : Nat × Nat} (hx : x ∈ s.live) : Placed t fl' x := by
  rcases h.live x hx with ⟨i, obj, hptr, hs, hfree, hidx, hpos, hn, hfit⟩ | ⟨hbig, hlt, hpage⟩
  · refine Or.inl ⟨i, obj, hptr, ?_, ?_, ?_, hpos, hn, hfit⟩
    · rw [hpages]
      exact hs.weaken _
    · intro hmem'
      have hapart := h.grow_slot_apart hpool hs
      rcases hfl i obj hmem' with hold | hnew
      · exact hfree hold
      · lia
    · rw [hmem, h.grow_word hpool hframe hs]
      exact hidx
  · refine Or.inr ⟨hbig, hlt, ?_⟩
    rw [hpages]
    exact List.mem_cons_of_mem _ hpage

theorem Inv.grow (h : Inv s fl) (hpool : s.pool = page :: rest)
    (hframe : forall a, a < page ∨ page + pgSize ≤ a -> mem a = s.mem a) :
    Inv (s.grow page rest k mem) fl := by
  constructor
  · exact h.grow_pages hpool k mem
  · refine ⟨h.free.config, ?_, h.free.count, ?_, h.free.nodup⟩
    · intro i
      exact (h.free.chain i).congr
        (fun obj hobj => h.grow_word hpool hframe (h.free.slot i obj hobj))
    · intro i obj hobj
      exact (h.free.slot i obj hobj).weaken _
  · intro x hx
    exact h.grow_live hpool hframe (fun i obj hobj => Or.inl hobj) rfl rfl hx
  · exact h.distinct

end Grow

theorem fill_outside (mem : Memory) {page a : Nat} (v : UInt8)
    (h : a < page ∨ page + pgSize ≤ a) : mem.fill page v pgSize a = mem a := by
  unfold Memory.fill
  rw [if_neg (by lia)]

theorem Inv.addLive {t : State} {ptr n : Nat} (h : Inv t fl)
    (hplaced : Placed t fl (ptr, n)) (hnew : forall x, x ∈ t.live -> ptr ≠ x.1) :
    Inv { t with live := (ptr, n) :: t.live } fl := by
  refine ⟨⟨h.pages.nodup, h.pages.proper⟩, ⟨h.free.config, h.free.chain, h.free.count,
    h.free.slot, h.free.nodup⟩, ?_, List.pairwise_cons.mpr ⟨hnew, h.distinct⟩⟩
  intro x hx
  rcases List.mem_cons.mp hx with rfl | hold
  · exact hplaced
  · exact h.live x hold

/-!
# One class changes

Refilling, taking and giving back an object replace the record and the free list
of a single class.
-/

def setList (fl : Fin nblock -> List Nat) (i : Fin nblock) (os : List Nat) :
    Fin nblock -> List Nat :=
  fun j => if j = i then os else fl j

@[simp] theorem setList_self (i : Fin nblock) (os : List Nat) :
    setList fl i os i = os := if_pos rfl

theorem setList_of_ne {i j : Fin nblock} (os : List Nat) (h : j ≠ i) :
    setList fl i os j = fl j := if_neg h

/-- The new class record, when words of the other classes' slots are kept. -/
theorem FreeSound.update {t : State} (h : FreeSound s fl) (i : Fin nblock)
    {os : List Nat} {b : MemBlock}
    (hblocks : t.blocks = fun j => if j = i then b else s.blocks j)
    (hconfig : b.blockIdx = i.val ∧ b.objSize = objSizeOf i)
    (hchain : t.mem.Chain b.head os) (hcount : os.length = b.free.toNat)
    (hslot : forall obj, obj ∈ os -> Slot t.pages i obj) (hnodup : os.Nodup)
    (hmono : forall j obj, Slot s.pages j obj -> Slot t.pages j obj)
    (hword : forall j obj, j ≠ i -> obj ∈ fl j -> t.mem.word obj = s.mem.word obj) :
    FreeSound t (setList fl i os) := by
  have hself : t.blocks i = b := by
    rw [hblocks]
    exact if_pos rfl
  have hother : forall j, j ≠ i -> t.blocks j = s.blocks j := by
    intro j hj
    rw [hblocks]
    exact if_neg hj
  constructor
  · intro j
    cases decEq j i with
    | isTrue heq =>
        rw [heq, hself]
        exact hconfig
    | isFalse hne =>
        rw [hother j hne]
        exact h.config j
  · intro j
    cases decEq j i with
    | isTrue heq =>
        rw [heq, hself, setList_self]
        exact hchain
    | isFalse hne =>
        rw [hother j hne, setList_of_ne os hne]
        exact (h.chain j).congr (fun obj hobj => hword j obj hne hobj)
  · intro j
    cases decEq j i with
    | isTrue heq =>
        rw [heq, hself, setList_self]
        exact hcount
    | isFalse hne =>
        rw [hother j hne, setList_of_ne os hne]
        exact h.count j
  · intro j obj hobj
    cases decEq j i with
    | isTrue heq =>
        rw [heq, setList_self] at hobj
        rw [heq]
        exact hslot obj hobj
    | isFalse hne =>
        rw [setList_of_ne os hne] at hobj
        exact hmono j obj (h.slot j obj hobj)
  · intro j
    cases decEq j i with
    | isTrue heq =>
        rw [heq, setList_self]
        exact hnodup
    | isFalse hne =>
        rw [setList_of_ne os hne]
        exact h.nodup j

theorem FreeSound.list_eq_nil (h : FreeSound s fl) {i : Fin nblock}
    (hfree : (s.blocks i).free = 0) : fl i = [] := by
  have hcount := h.count i
  rw [hfree] at hcount
  exact List.length_eq_zero_iff.mp hcount

theorem FreeSound.head_eq_zero (h : FreeSound s fl) {i : Fin nblock}
    (hfree : (s.blocks i).free = 0) : (s.blocks i).head = 0 := by
  have hchain := h.chain i
  rw [h.list_eq_nil hfree] at hchain
  exact hchain

/-- With an empty pool a refill fails and clears the page at address 0. -/
theorem FreeSound.allocNewObjs_empty (h : FreeSound s fl) {i : Fin nblock}
    (hfree : (s.blocks i).free = 0) (hpool : s.pool = []) :
    allocNewObjs s i = some (false, { s with mem := s.mem.fill 0 0 pgSize }) := by
  have hhead := h.head_eq_zero hfree
  unfold allocNewObjs getZeroedFreePage
  simp only [hhead, hpool, ne_eq, not_true_eq_false, if_false, if_true]

/-- The page that the carving loop leaves for class `i`. -/
def carved (s : State) (i : Fin nblock) (page : Nat) : Carve :=
  carve page (slotSize i) pgSize 0 none ⟨0, 0, s.mem.fill page 0 pgSize⟩

/-- The state after class `i` was refilled with a page. -/
def refilled (s : State) (i : Fin nblock) (page : Nat) (rest : List Nat) : State :=
  (s.grow page rest (some i) (carved s i page).mem).setBlock i
    { s.blocks i with
      free := (s.blocks i).free + UInt32.ofNat (carved s i page).cnt
      num := (s.blocks i).num + UInt32.ofNat (carved s i page).cnt
      head := (carved s i page).dummyNext }

def pageSlots (i : Fin nblock) (page : Nat) : List Nat :=
  page :: slotsFrom page (slotSize i) 4095 (slotSize i)

theorem slotsFrom_page (i : Fin nblock) (page : Nat) :
    slotsFrom page (slotSize i) pgSize 0 = pageSlots i page := by
  show page :: slotsFrom page (slotSize i) 4095 (0 + slotSize i) = _
  rw [Nat.zero_add]
  rfl

theorem FreeSound.allocNewObjs_page (h : FreeSound s fl) {i : Fin nblock}
    (hfree : (s.blocks i).free = 0) {page : Nat} {rest : List Nat}
    (hpool : s.pool = page :: rest) (hne : page ≠ 0) :
    allocNewObjs s i = some (true, refilled s i page rest) := by
  have hhead := h.head_eq_zero hfree
  have hsize : (s.blocks i).objSize + descSize = slotSize i := by
    rw [(h.config i).right]
    rfl
  unfold allocNewObjs getZeroedFreePage
  simp only [hhead, hpool, hsize, hne, ne_eq, not_true_eq_false, if_false]
  rfl

theorem Inv.carved_page (h : Inv s fl) (i : Fin nblock) {page : Nat} {rest : List Nat}
    (hpool : s.pool = page :: rest) :
    (carved s i page).cnt = (slotsFrom page (slotSize i) pgSize 0).length ∧
      (forall a, a < page ∨ page + pgSize ≤ a -> (carved s i page).mem a = s.mem a) := by
  have htop := (h.pool_page hpool).right.right
  rcases slotSize_bounds i with ⟨halign, hfour, _⟩
  rcases carve_page hfour halign htop (s.mem.fill page 0 pgSize)
    (fun a ha ha' => Memory.word_fill_zero s.mem ha ha') with ⟨hcnt, -, -, hframe⟩
  refine ⟨hcnt, ?_⟩
  intro a ha
  unfold carved
  rw [hframe a ha, fill_outside s.mem 0 ha]

/-- A refill puts the slots of the page on the free list, the first one in front. -/
theorem Inv.refill (h : Inv s fl) {i : Fin nblock}
    (hfree : (s.blocks i).free = 0) {page : Nat} {rest : List Nat}
    (hpool : s.pool = page :: rest) :
    Inv (refilled s i page rest) (setList fl i (pageSlots i page)) := by
  rcases h.pool_page hpool with ⟨_, hpos, htop⟩
  rcases slotSize_bounds i with ⟨halign, hfour, _⟩
  have hzero : forall a, page ≤ a -> a + 4 ≤ page + pgSize ->
      (s.mem.fill page 0 pgSize).word a = 0 := by
    intro a ha ha'
    exact Memory.word_fill_zero s.mem ha ha'
  rcases carve_page hfour halign htop (s.mem.fill page 0 pgSize) hzero with
    ⟨hcnt, hdummy, hchain, hframe⟩
  rw [← slotsFrom_page]
  have hout := (h.carved_page i hpool).right
  have hpages := h.grow_pages hpool (some i) (carved s i page).mem
  constructor
  · exact ⟨hpages.nodup, hpages.proper⟩
  · refine h.free.update i rfl (h.free.config i) ?_ ?_ ?_
      (slotsFrom_nodup (by lia) pgSize 0) (fun j obj hs => hs.weaken _) ?_
    · unfold carved
      rw [hdummy]
      exact hchain
    · unfold carved
      rw [hfree, hcnt]
      have hlen := slotsFrom_length_le page (slotSize i) pgSize 0
      unfold pgSize at hlen ⊢
      rw [UInt32.zero_add, UInt32.toNat_ofNat_of_lt' (by lia)]
    · intro obj hobj
      have hlow := slotsFrom_low hobj
      rcases mem_slotsFrom (Nat.zero_mod _) hobj with ⟨hhigh, hmod⟩
      exact ⟨page, List.mem_cons_self, by lia, hhigh, hmod⟩
    · intro j obj hj hobj
      exact h.grow_word hpool hout (h.free.slot j obj hobj)
  · intro x hx
    refine h.grow_live hpool hout ?_ rfl rfl hx
    intro j obj hobj
    cases decEq j i with
    | isTrue heq =>
        rw [heq, setList_self] at hobj
        have hlow := slotsFrom_low hobj
        rcases mem_slotsFrom (Nat.zero_mod _) hobj with ⟨hhigh, _⟩
        exact Or.inr ⟨by lia, hhigh⟩
    | isFalse hne =>
        rw [setList_of_ne _ hne] at hobj
        exact Or.inl hobj
  · exact h.distinct

/-!
# Taking and giving back an object
-/

theorem Inv.word_other (h : Inv s fl) {i j : Fin nblock} {obj obj' : Nat}
    (hs : Slot s.pages i obj) (hs' : Slot s.pages j obj') (hne : obj' ≠ obj) (v : Nat) :
    (s.mem.setWord obj v).word obj' = s.mem.word obj' := by
  have hapart := h.pages.slot_apart hs' hs hne (slotSize_bounds j).right.left
    (h.pages.slot_inside hs') (slotSize_bounds i).right.left (h.pages.slot_inside hs)
  unfold RangesApart at hapart
  exact Memory.word_setWord_of_apart s.mem v hapart

/-- A slot that some free list holds belongs to its class only. -/
theorem Inv.ne_of_class (h : Inv s fl) {i j : Fin nblock} {obj obj' : Nat}
    (hs : Slot s.pages i obj) (hobj' : obj' ∈ fl j) (hji : j ≠ i) : obj' ≠ obj := by
  intro heq
  subst heq
  exact hji (Slot.class_unique h.pages (h.free.slot j obj' hobj') hs)

theorem Inv.popped (h : Inv s fl) {i : Fin nblock} {obj : Nat} {os : List Nat}
    (hlist : fl i = obj :: os) : Inv (popObj s i).2 (setList fl i os) := by
  have hmem : obj ∈ fl i := by
    rw [hlist]
    exact List.mem_cons_self
  have hs := h.free.slot i obj hmem
  have hchain := h.free.chain i
  have hnodup := h.free.nodup i
  have hcount := h.free.count i
  rw [hlist] at hchain hnodup hcount
  rcases hchain with ⟨hhead, hrest⟩
  rcases List.nodup_cons.mp hnodup with ⟨hnot, hnodup'⟩
  have hidx := (h.free.config i).left
  have hsub : forall obj', obj' ∈ os -> obj' ∈ fl i := by
    intro obj' hobj'
    rw [hlist]
    exact List.mem_cons_of_mem obj hobj'
  constructor
  · exact ⟨h.pages.nodup, h.pages.proper⟩
  · refine h.free.update i rfl (h.free.config i) ?_ ?_ ?_ hnodup'
      (fun j obj' hs' => hs') ?_
    · show (s.mem.setWord _ _).Chain (s.mem.word (s.blocks i).head) os
      rw [hhead]
      refine hrest.congr ?_
      intro obj' hobj'
      refine h.word_other hs (h.free.slot i obj' (hsub obj' hobj')) ?_ _
      intro heq
      subst heq
      exact hnot hobj'
    · show os.length = ((s.blocks i).free - 1).toNat
      rw [List.length_cons] at hcount
      have hlt := (s.blocks i).free.toNat_lt
      have hone : (1 : UInt32).toNat = 1 := rfl
      rw [UInt32.toNat_sub, hone]
      lia
    · intro obj' hobj'
      exact h.free.slot i obj' (hsub obj' hobj')
    · intro j obj' hj hobj'
      show (s.mem.setWord (s.blocks i).head _).word obj' = _
      rw [hhead]
      exact h.word_other hs (h.free.slot j obj' hobj') (h.ne_of_class hs hobj' hj) _
  · intro x hx
    rcases h.live x hx with ⟨j, obj', hptr, hs', hfree, hword, hxpos, hxn, hxfit⟩ | hlarge
    · have hne : obj' ≠ obj := by
        intro heq
        subst heq
        cases Slot.class_unique h.pages hs hs'
        exact hfree hmem
      refine Or.inl ⟨j, obj', hptr, hs', ?_, ?_, hxpos, hxn, hxfit⟩
      · intro hin
        cases decEq j i with
        | isTrue heq =>
            subst heq
            rw [setList_self] at hin
            exact hfree (hsub obj' hin)
        | isFalse hji =>
            rw [setList_of_ne os hji] at hin
            exact hfree hin
      · show (s.mem.setWord (s.blocks i).head _).word obj' = _
        rw [hhead, h.word_other hs hs' hne]
        exact hword
    · exact Or.inr hlarge
  · exact h.distinct

theorem Inv.pop (h : Inv s fl) {i : Fin nblock} {obj n : Nat} {os : List Nat}
    (hlist : fl i = obj :: os) (hpos : 0 < n) (hn : n ≤ objSizeOf i)
    (hfit : obj % pgSize + (descSize + n) ≤ pgSize) :
    (popObj s i).1 = obj + descSize ∧
      Inv { (popObj s i).2 with live := (obj + descSize, n) :: s.live }
        (setList fl i os) := by
  have hmem : obj ∈ fl i := by
    rw [hlist]
    exact List.mem_cons_self
  have hs := h.free.slot i obj hmem
  have hchain := h.free.chain i
  have hnodup := h.free.nodup i
  rw [hlist] at hchain hnodup
  have hhead := hchain.left
  have hnot := (List.nodup_cons.mp hnodup).left
  have hidx := (h.free.config i).left
  have hpop := h.popped hlist
  refine ⟨?_, hpop.addLive ?_ ?_⟩
  · show (s.blocks i).head + descSize = _
    rw [hhead]
  · refine Or.inl ⟨i, obj, rfl, hs, ?_, ?_, hpos, hn, hfit⟩
    · rw [setList_self]
      exact hnot
    · show (s.mem.setWord (s.blocks i).head (s.blocks i).blockIdx).word obj = _
      rw [hhead, hidx]
      exact Memory.word_setWord_self s.mem obj (by have := i.isLt; unfold nblock at this; lia)
  · intro x hx heq
    have hbig := h.live_ne_free hx hmem heq.symm
    rcases h.live x hx with ⟨j, obj', hptr, _, _, _, _, hxn, _⟩ | ⟨_, hlt, hpage⟩
    · have hmax := (slotSize_bounds j).right.right
      lia
    · have hproper := (h.pages.proper _ (mem_allPages_of_pages hpage)).left
      rcases hs with ⟨page, hcut, hlow, hhigh, _⟩
      have hproper' := (h.pages.proper _ (mem_allPages_of_pages hcut)).left
      unfold descSize pgSize at *
      lia

/-- Distinct descriptors are fewer than the counters can count. -/
theorem length_lt_of_nodup {os : List Nat} (hnodup : os.Nodup)
    (hlt : forall obj, obj ∈ os -> obj < 0xffffffff) : os.length < 0x100000000 := by
  have hsub : os.toFinset ⊆ Finset.range 0xffffffff := by
    intro obj hobj
    exact Finset.mem_range.mpr (hlt obj (List.mem_toFinset.mp hobj))
  have hcard := Finset.card_le_card hsub
  rw [List.toFinset_card_of_nodup hnodup, Finset.card_range] at hcard
  lia

/-- The state after the object behind `obj` went back to class `i`. -/
def pushed (s : State) (i : Fin nblock) (obj : Nat) : State :=
  { s with mem := s.mem.setWord obj (s.blocks i).head }.setBlock i
    { s.blocks i with
      head := obj
      inuse := (s.blocks i).inuse - 1
      free := (s.blocks i).free + 1 }

theorem Inv.push (h : Inv s fl) {i : Fin nblock} {obj : Nat}
    (hs : Slot s.pages i obj) (hfree : Not (obj ∈ fl i)) :
    Inv { pushed s i obj with
        live := s.live.filter (fun x => x.1 ≠ obj + descSize) }
      (setList fl i (obj :: fl i)) := by
  have hnodup : (obj :: fl i).Nodup := List.nodup_cons.mpr ⟨hfree, h.free.nodup i⟩
  have hne : forall obj', obj' ∈ fl i -> obj' ≠ obj := by
    intro obj' hobj' heq
    subst heq
    exact hfree hobj'
  have hhead : (s.blocks i).head < 0x100000000 := by
    have hchain := h.free.chain i
    cases hlist : fl i with
    | nil =>
        rw [hlist] at hchain
        rw [show (s.blocks i).head = 0 from hchain]
        lia
    | cons first os =>
        rw [hlist] at hchain
        have hslot := h.free.slot i first (by rw [hlist]; exact List.mem_cons_self)
        have htop := (h.pages.slot_pos hslot).right
        rw [hchain.left]
        unfold descSize at htop
        lia
  have hslots : forall obj', obj' ∈ obj :: fl i -> Slot s.pages i obj' := by
    intro obj' hobj'
    rcases List.mem_cons.mp hobj' with rfl | hold
    · exact hs
    · exact h.free.slot i obj' hold
  constructor
  · exact ⟨h.pages.nodup, h.pages.proper⟩
  · refine h.free.update i rfl (h.free.config i) ?_ ?_ hslots hnodup
      (fun j obj' hs' => hs') ?_
    · refine ⟨rfl, ?_⟩
      show (s.mem.setWord obj _).Chain ((s.mem.setWord obj _).word obj) (fl i)
      rw [Memory.word_setWord_self s.mem obj hhead]
      refine (h.free.chain i).congr ?_
      intro obj' hobj'
      exact h.word_other hs (h.free.slot i obj' hobj') (hne obj' hobj') _
    · show (obj :: fl i).length = ((s.blocks i).free + 1).toNat
      have hlt : (obj :: fl i).length < 0x100000000 := by
        apply length_lt_of_nodup hnodup
        intro obj' hobj'
        have htop := (h.pages.slot_pos (hslots obj' hobj')).right
        unfold descSize at htop
        lia
      have hone : (1 : UInt32).toNat = 1 := rfl
      rw [List.length_cons, h.free.count i] at *
      rw [UInt32.toNat_add, hone]
      lia
    · intro j obj' hj hobj'
      exact h.word_other hs (h.free.slot j obj' hobj') (h.ne_of_class hs hobj' hj) _
  · intro x hx
    rcases List.mem_filter.mp hx with ⟨hlive, hptr'⟩
    have hother : x.1 ≠ obj + descSize := of_decide_eq_true hptr'
    rcases h.live x hlive with ⟨j, obj', hptr, hs', hnot, hword, hxpos, hxn, hxfit⟩ | hlarge
    · have hobj : obj' ≠ obj := by
        intro heq
        subst heq
        exact hother hptr
      refine Or.inl ⟨j, obj', hptr, hs', ?_, ?_, hxpos, hxn, hxfit⟩
      · intro hin
        cases decEq j i with
        | isTrue heq =>
            subst heq
            rw [setList_self] at hin
            rcases List.mem_cons.mp hin with heq' | hold
            · exact hobj heq'
            · exact hnot hold
        | isFalse hji =>
            rw [setList_of_ne _ hji] at hin
            exact hnot hin
      · show (s.mem.setWord obj _).word obj' = _
        rw [h.word_other hs hs' hobj]
        exact hword
    · exact Or.inr hlarge
  · exact h.distinct.filter _

/-- Dropping live objects alone, as a killed task's `kfree` does. -/
theorem Inv.dropLive (h : Inv s fl) (p : Nat × Nat -> Bool) :
    Inv { s with live := s.live.filter p } fl := by
  refine ⟨⟨h.pages.nodup, h.pages.proper⟩, ⟨h.free.config, h.free.chain, h.free.count,
    h.free.slot, h.free.nodup⟩, ?_, h.distinct.filter p⟩
  intro x hx
  exact h.live x (List.mem_filter.mp hx).left

theorem kfree_eq {ptr obj : Nat} {i : Fin nblock} (hptr : ptr = obj + descSize)
    (hword : s.mem.word obj = i.val) : kfree ptr false s = some (pushed s i obj) := by
  subst hptr
  have hlt : s.mem.word obj < nblock := by
    rw [hword]
    exact i.isLt
  have hi : (⟨s.mem.word obj, hlt⟩ : Fin nblock) = i := Fin.ext hword
  unfold kfree
  rw [if_neg (by unfold descSize; lia), if_neg Bool.false_ne_true]
  simp only [Nat.add_sub_cancel]
  rw [dif_pos hlt, hi]
  rfl

/-!
# The histories that fit
-/

/-- The class is large enough and has an object, or can get one. -/
def serves (s : State) (nbytes : Nat) (i : Fin nblock) : Bool :=
  decide ((s.blocks i).objSize >= nbytes ∧ ((s.blocks i).free ≠ 0 ∨ s.pool ≠ []))

/-- The class that `kalloc` takes the object from. -/
def servingClass (s : State) (nbytes : Nat) (is : List (Fin nblock)) :
    Option (Fin nblock) :=
  is.find? (serves s nbytes)

/--
The object on top of the free list has room for the request inside its page, and
an object to be freed is one that has a descriptor.
-/
def Fits (s : State) : Op -> Prop
  | Op.kalloc nbytes killed => killed = false -> nbytes ≤ maxObjSize ->
      forall i, servingClass s nbytes (List.finRange nblock) = some i ->
        (s.blocks i).free ≠ 0 ->
        (s.blocks i).head % pgSize + (descSize + nbytes) ≤ pgSize
  | Op.kfree ptr killed => killed = false ->
      forall n, (ptr, n) ∈ s.live -> n ≤ maxObjSize
  | _ => True

/-- What a successful or failed request leaves behind. -/
def Served (s : State) (nbytes : Nat) (r : Nat × State) : Prop :=
  r.2.live = s.live ∧
    ((r.1 = 0 ∧ exists fl, Inv r.2 fl) ∨
      (r.1 ≠ 0 ∧ exists fl, Inv { r.2 with live := (r.1, nbytes) :: r.2.live } fl))

theorem Inv.served_pop (h : Inv s fl) {i : Fin nblock} {obj n : Nat} {os : List Nat}
    (hlist : fl i = obj :: os) (hpos : 0 < n) (hn : n ≤ objSizeOf i)
    (hfit : obj % pgSize + (descSize + n) ≤ pgSize) : Served s n (popObj s i) := by
  rcases h.pop hlist hpos hn hfit with ⟨hptr, hinv⟩
  refine ⟨rfl, Or.inr ⟨?_, setList fl i os, ?_⟩⟩
  · rw [hptr]
    unfold descSize
    lia
  · rw [hptr]
    exact hinv

theorem Inv.fetchObjFromBlock (h : Inv s fl) {i : Fin nblock} {n : Nat} (hpos : 0 < n)
    (hn : n ≤ objSizeOf i) (hserves : (s.blocks i).free ≠ 0 ∨ s.pool ≠ [])
    (hfit : (s.blocks i).free ≠ 0 ->
      (s.blocks i).head % pgSize + (descSize + n) ≤ pgSize) :
    exists r, fetchObjFromBlock s i = some r ∧ r.1 ≠ 0 ∧ Served s n r := by
  cases decEq (s.blocks i).free 0 with
  | isFalse hfree =>
      have hpop : Kalloc.fetchObjFromBlock s i = some (popObj s i) := if_neg hfree
      refine ⟨popObj s i, hpop, Nat.succ_ne_zero _, ?_⟩
      have hcount := h.free.count i
      have hchain := h.free.chain i
      cases hlist : fl i with
      | nil =>
          rw [hlist] at hcount
          have hzero : (s.blocks i).free = 0 := UInt32.toNat_inj.mp hcount.symm
          exact absurd hzero hfree
      | cons obj os =>
          rw [hlist] at hchain
          have hfits := hfit hfree
          rw [hchain.left] at hfits
          exact h.served_pop hlist hpos hn hfits
  | isTrue hfree =>
      cases hpool : s.pool with
      | nil => exact absurd hpool (hserves.resolve_left (fun hne => hne hfree))
      | cons page rest =>
          have hpop : Kalloc.fetchObjFromBlock s i =
              some (popObj (refilled s i page rest) i) := by
            unfold Kalloc.fetchObjFromBlock
            have hne := Nat.ne_of_gt (h.pool_page hpool).right.left
            rw [if_pos hfree, h.free.allocNewObjs_page hfree hpool hne]
          refine ⟨_, hpop, Nat.succ_ne_zero _, ?_⟩
          have hmax := (slotSize_bounds i).right.right
          have hpage := (h.pool_page hpool).left
          have hroom : page % pgSize + (descSize + n) ≤ pgSize := by
            rw [hpage]
            unfold descSize pgSize
            have hle : maxObjSize = 1024 := rfl
            lia
          have hserved := (h.refill hfree hpool).served_pop (setList_self _ _) hpos hn hroom
          exact hserved

theorem Inv.fetchFrom (h : Inv s fl) {n : Nat} (hpos : 0 < n) (is : List (Fin nblock))
    (hfit : forall i, servingClass s n is = some i -> (s.blocks i).free ≠ 0 ->
      (s.blocks i).head % pgSize + (descSize + n) ≤ pgSize) :
    exists r, fetchFrom n is s = some r ∧ Served s n r := by
  induction is generalizing s with
  | nil => exact ⟨(0, s), rfl, rfl, Or.inl ⟨rfl, fl, h⟩⟩
  | cons i rest ih =>
      unfold Kalloc.fetchFrom
      cases hserves : serves s n i with
      | true =>
          have hfit' := hfit i (List.find?_cons_of_pos hserves)
          rcases of_decide_eq_true hserves with ⟨hsize, hor⟩
          have hn : n ≤ objSizeOf i := by
            rw [← (h.free.config i).right]
            exact hsize
          rcases h.fetchObjFromBlock hpos hn hor hfit' with ⟨r, hr, hne, hserved⟩
          refine ⟨r, ?_, hserved⟩
          rw [if_pos hsize, hr]
          exact if_neg hne
      | false =>
          have hskip : servingClass s n (i :: rest) = servingClass s n rest :=
            List.find?_cons_of_neg (by rw [hserves]; exact Bool.false_ne_true)
          rw [hskip] at hfit
          split
          · rename_i hsize
            have hnone : (s.blocks i).free = 0 ∧ s.pool = [] := by
              have hnot := of_decide_eq_false hserves
              simpa [hsize] using hnot
            have hfail : Kalloc.fetchObjFromBlock s i =
                some (0, { s with mem := s.mem.fill 0 0 pgSize }) := by
              unfold Kalloc.fetchObjFromBlock
              rw [if_pos hnone.left, h.free.allocNewObjs_empty hnone.left hnone.right]
            rw [hfail]
            exact ih h.clearNull hfit
          · exact ih h hfit

theorem Inv.kalloc (h : Inv s fl) {n : Nat} (hpos : 0 < n) (hlt : n < pgSize)
    (killed : Bool) (hfit : Fits s (Op.kalloc n killed)) :
    exists r, kalloc n killed s = some r ∧ Served s n r := by
  have hzero : n ≠ 0 := by lia
  unfold Kalloc.kalloc
  rw [if_neg hzero, if_neg (not_not_intro hlt)]
  cases killed with
  | true => exact ⟨(0, s), rfl, rfl, Or.inl ⟨rfl, fl, h⟩⟩
  | false =>
      rw [if_neg Bool.false_ne_true]
      split
      · rename_i hbig
        cases hpool : s.pool with
        | nil =>
            refine ⟨(0, { s with mem := s.mem.fill 0 0 pgSize }), ?_, rfl,
              Or.inl ⟨rfl, fl, h.clearNull⟩⟩
            unfold getZeroedFreePage
            rw [hpool]
            rfl
        | cons page rest =>
            have hpage := (h.pool_page hpool).right.left
            have hgrow := h.grow (k := none) hpool (fun a => fill_outside s.mem 0)
            refine ⟨(page, s.grow page rest none (s.mem.fill page 0 pgSize)), ?_, rfl,
              Or.inr ⟨Nat.ne_of_gt hpage, fl, hgrow.addLive ?_ ?_⟩⟩
            · unfold getZeroedFreePage
              rw [hpool]
              exact if_neg (Nat.ne_of_gt hpage)
            · exact Or.inr ⟨hbig, hlt, List.mem_cons_self⟩
            · intro x hx heq
              rcases h.live_in_page hx with ⟨page', hmem, hlow, hhigh⟩
              have hn := h.live_pos hx
              have hproper := (h.pages.proper _ (List.mem_append_left _ hmem)).left
              have hproper' := (h.pool_page hpool).left
              have hpp : page' = page := by
                unfold pgSize at *
                lia
              subst hpp
              have hdisj := (List.nodup_append.mp h.pages.nodup).right.right
              refine hdisj page' hmem page' ?_ rfl
              rw [hpool]
              exact List.mem_cons_self
      · rename_i hsmall
        exact h.fetchFrom hpos _ (hfit rfl (by lia))

theorem kfree_killed (ptr : Nat) (s : State) : kfree ptr true s = some s := by
  unfold kfree
  split
  · rfl
  · rfl

theorem step_kfree {t : State} {ptr : Nat} {killed : Bool}
    (h : kfree ptr killed s = some t) :
    step s (Op.kfree ptr killed) =
      some { t with live := t.live.filter (fun x => x.1 ≠ ptr) } := by
  simp only [step, h]

theorem Inv.step (h : Inv s fl) (op : Op) (hlegal : Legal s op) (hfit : Fits s op) :
    exists t fl', step s op = some t ∧ Inv t fl' := by
  cases op with
  | kalloc nbytes killed =>
      rcases h.kalloc hlegal.left hlegal.right killed hfit with ⟨⟨r, t⟩, hr, hlive, hcase⟩
      unfold Kalloc.step
      simp only [hr]
      rcases hcase with ⟨hzero, fl', hinv⟩ | ⟨hne, fl', hinv⟩
      · exact ⟨t, fl', if_pos hzero, hinv⟩
      · exact ⟨_, fl', if_neg hne, hinv⟩
  | kfree ptr killed =>
      rcases hlegal with ⟨n, hlive⟩
      cases killed with
      | true => exact ⟨_, fl, step_kfree (kfree_killed ptr s), h.dropLive _⟩
      | false =>
          have hn := hfit rfl n hlive
          rcases h.live _ hlive with ⟨i, obj, hptr, hs, hnot, hword, _⟩ | ⟨hbig, _⟩
          · change ptr = obj + descSize at hptr
            refine ⟨_, setList fl i (obj :: fl i), step_kfree (kfree_eq hptr hword), ?_⟩
            rw [hptr]
            exact h.push hs hnot
          · exact absurd hbig (Nat.not_lt_of_le hn)
  | store a v => exact ⟨_, fl, rfl, h.store v hlegal⟩
  | takePage =>
      unfold Kalloc.step
      cases hpool : s.pool with
      | nil => exact ⟨s, fl, rfl, h⟩
      | cons page rest => exact ⟨_, fl, rfl, h.takePage hpool⟩
  | returnPage page => exact ⟨_, fl, rfl, h.returnPage hlegal⟩

/-- The pages of a pool are distinct, aligned and inside the address space. -/
def PoolSound (pool : List Nat) : Prop :=
  pool.Nodup ∧ forall page, page ∈ pool ->
    page % pgSize = 0 ∧ 0 < page ∧ page + pgSize ≤ 0x100000000

theorem kallocInit_inv (mem : Memory) {pool : List Nat} (hpool : PoolSound pool) :
    Inv (kallocInit mem pool) (fun _ => []) := by
  have hall : (kallocInit mem pool).allPages = pool := List.append_nil pool
  constructor
  · constructor
    · rw [hall]
      exact hpool.left
    · rw [hall]
      exact hpool.right
  · constructor
    · intro i
      exact ⟨rfl, rfl⟩
    · intro i
      rfl
    · intro i
      rfl
    · intro i obj hobj
      cases hobj
    · intro i
      exact List.nodup_nil
  · intro x hx
    cases hx
  · exact List.Pairwise.nil

/--
Along every history of legal calls that fit, the heap is sound and the next such
call is served without a failed assertion.
-/
theorem kalloc_sound_of_fits (mem : Memory) {pool : List Nat} (hpool : PoolSound pool)
    {s : State}
    (h : Reaches step (fun s op => Legal s op ∧ Fits s op) (kallocInit mem pool) s) :
    Sound s ∧
      forall op, Legal s op -> Fits s op -> exists t, step s op = some t := by
  have hinv : exists fl, Inv s fl := by
    refine h.invariant (P := fun s => exists fl, Inv s fl) ⟨_, kallocInit_inv mem hpool⟩ ?_
    intro r t op hex hboth hstep
    rcases hex with ⟨fl, hr⟩
    rcases hboth with ⟨hlegal, hfit⟩
    rcases hr.step op hlegal hfit with ⟨t', fl', hstep', hinv⟩
    rw [hstep] at hstep'
    cases hstep'
    exact ⟨fl', hinv⟩
  rcases hinv with ⟨fl, hinv⟩
  refine ⟨hinv.sound, ?_⟩
  intro op hlegal hfit
  rcases hinv.step op hlegal hfit with ⟨t, _, hstep, _⟩
  exact ⟨t, hstep⟩

theorem poolSound_one : PoolSound [0x200000] := by
  refine ⟨List.nodup_singleton _, ?_⟩
  intro page hpage
  rw [List.mem_singleton.mp hpage]
  decide

/-- A request of a task that lives, with room for its object, or the end of a small object. -/
def requestTest (s : State) : Op -> Bool
  | Op.kalloc nbytes _ =>
      decide (0 < nbytes ∧ nbytes < pgSize) &&
        match servingClass s nbytes (List.finRange nblock) with
        | none => true
        | some i =>
            decide ((s.blocks i).free ≠ 0 ->
              (s.blocks i).head % pgSize + (descSize + nbytes) ≤ pgSize)
  | Op.kfree ptr killed =>
      !killed && s.live.any (fun x => x.1 == ptr) &&
        s.live.all (fun x => decide (x.1 = ptr -> x.2 ≤ maxObjSize))
  | _ => false

theorem live_of_test {s : State} {ptr : Nat} (h : s.live.any (fun x => x.1 == ptr) = true) :
    exists n, (ptr, n) ∈ s.live := by
  rcases List.any_eq_true.mp h with ⟨x, hmem, hx⟩
  have hptr : x.1 = ptr := by simpa using hx
  exact ⟨x.2, hptr ▸ hmem⟩

theorem small_of_test {s : State} {ptr : Nat}
    (h : s.live.all (fun x => decide (x.1 = ptr -> x.2 ≤ maxObjSize)) = true) {n : Nat}
    (hmem : (ptr, n) ∈ s.live) : n ≤ maxObjSize := by
  have hx := List.all_eq_true.mp h (ptr, n) hmem
  exact of_decide_eq_true hx rfl

theorem legal_of_requestTest (s : State) (op : Op) (h : requestTest s op = true) :
    Legal s op ∧ Fits s op := by
  cases op with
  | kalloc nbytes killed =>
      rcases Bool.and_eq_true_iff.mp h with ⟨hsize, hroom⟩
      have hlegal := of_decide_eq_true hsize
      refine ⟨hlegal, ?_⟩
      intro _ _ i hserving hfree
      rw [hserving] at hroom
      exact of_decide_eq_true hroom hfree
  | kfree ptr killed =>
      rcases Bool.and_eq_true_iff.mp h with ⟨hboth, hsmall⟩
      have hlive := (Bool.and_eq_true_iff.mp hboth).right
      exact ⟨live_of_test hlive, fun _ n hmem => small_of_test hsmall hmem⟩
  | store a v => cases h
  | takePage => cases h
  | returnPage page => cases h

/-- Two objects of one page, and the end of the first one. -/
def threeRequests : List Op := [Op.kalloc 100 false, Op.kalloc 100 false, Op.kfree 0x200004 false]

theorem threeRequests_live :
    (runFrom step (kallocInit (fun _ => 0) [0x200000]) threeRequests).map State.live =
      some [(0x200088, 100)] := by
  rfl

theorem threeRequests_check :
    runCheck step requestTest (kallocInit (fun _ => 0) [0x200000]) threeRequests = true := by
  decide +kernel

/-- The next request takes the object that is free again. -/
theorem kalloc_sound_of_fits_threeRequests :
    exists s, runFrom step (kallocInit (fun _ => 0) [0x200000]) threeRequests = some s ∧ Sound s ∧
      exists t, step s (Op.kalloc 100 false) = some t := by
  rcases Option.map_eq_some_iff.mp threeRequests_live with ⟨s, hrun, -⟩
  have hreach :=
    runFrom_reaches (runMeets_of_runCheck legal_of_requestTest threeRequests_check) hrun
  rcases kalloc_sound_of_fits (fun _ => 0) poolSound_one hreach with ⟨hsound, hserved⟩
  have htest : requestTest s (Op.kalloc 100 false) = true := by
    have hall : (runFrom step (kallocInit (fun _ => 0) [0x200000]) threeRequests).all
        (fun s => requestTest s (Op.kalloc 100 false)) = true := by
      decide +kernel
    rw [hrun] at hall
    exact hall
  rcases legal_of_requestTest s _ htest with ⟨hlegal, hfits⟩
  exact ⟨s, hrun, hsound, hserved _ hlegal hfits⟩

/-- Four objects of the largest class, from the only page of the pool. -/
def fourRequests : List Op := List.replicate 4 (Op.kalloc 1024 false)

theorem runMeets_requests (n : Nat) (s : State) :
    RunMeets step Legal s (List.replicate n (Op.kalloc 1024 false)) := by
  induction n generalizing s with
  | zero => exact trivial
  | succ n ih => exact ⟨⟨by decide, by decide⟩, fun t _ => ih t⟩

theorem fourRequests_live :
    (runFrom step (kallocInit (fun _ => 0) [0x200000]) fourRequests).map
        (fun s => (s.live, s.pages.map Prod.fst)) =
      some ([(0x200c10, 1024), (0x20080c, 1024), (0x200408, 1024), (0x200004, 1024)],
        [0x200000]) := by
  rfl

/-- The fourth object ends 16 bytes behind the page. -/
theorem kalloc_not_sound :
    Not (forall mem pool, PoolSound pool -> forall s,
      Reaches step Legal (kallocInit mem pool) s -> Sound s) := by
  intro hall
  cases hrun : runFrom step (kallocInit (fun _ => 0) [0x200000]) fourRequests with
  | none =>
      have hlive := fourRequests_live
      rw [hrun] at hlive
      cases hlive
  | some s =>
      have hlive := fourRequests_live
      rw [hrun] at hlive
      have hpair : (s.live, s.pages.map Prod.fst) = _ := Option.some.inj hlive
      rcases Prod.mk.inj hpair with ⟨hobjs, hpages⟩
      have hreach := runFrom_reaches (runMeets_requests 4 _) hrun
      have hsound := hall _ _ poolSound_one s hreach
      have hmem : (0x200c10, 1024) ∈ s.live := by
        rw [hobjs]
        exact List.mem_cons_self
      rcases hsound.inPage _ hmem with ⟨page, hpage, hlow, hhigh⟩
      rw [hpages] at hpage
      rw [List.mem_singleton.mp hpage] at hhigh
      exact absurd hhigh (by decide)

end Kalloc
end Kernel
end NicoOS
