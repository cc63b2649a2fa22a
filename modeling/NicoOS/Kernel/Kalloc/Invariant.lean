import NicoOS.Kernel.Kalloc.Carve

/-!
# The invariant of the allocator

The free lists are given as lists of descriptors, one for each class.  A
descriptor is a slot of a page that was cut for its class, and an object in use
occupies a slot that is on no free list, or a page of its own.
-/

namespace NicoOS
namespace Kernel
namespace Kalloc

open Lib

def objSizeOf (i : Fin nblock) : Nat := 16 <<< i.val

/-- The distance between two descriptors of a page. -/
def slotSize (i : Fin nblock) : Nat := objSizeOf i + descSize

theorem slotSize_bounds (i : Fin nblock) :
    slotSize i % 4 = 0 ∧ 4 ≤ slotSize i ∧ objSizeOf i ≤ maxObjSize := by
  revert i
  decide

/-- The pages of the allocator, of the pool and of other owners. -/
def State.allPages (s : State) : List Nat :=
  s.pages.map Prod.fst ++ (s.pool ++ s.outside)

structure PagesSound (s : State) : Prop where
  nodup : s.allPages.Nodup
  proper : forall page, page ∈ s.allPages ->
    page % pgSize = 0 ∧ 0 < page ∧ page + pgSize ≤ 0x100000000

/-- A descriptor address in a page cut for class `i`. -/
def Slot (pages : List (Nat × Option (Fin nblock))) (i : Fin nblock) (obj : Nat) :
    Prop :=
  exists page, (page, some i) ∈ pages ∧ page ≤ obj ∧ obj < page + pgSize ∧
    (obj - page) % slotSize i = 0

/-- A live object occupies a slot that no free list holds, or a whole page. -/
def Placed (s : State) (fl : Fin nblock -> List Nat) (x : Nat × Nat) : Prop :=
  (exists i obj, x.1 = obj + descSize ∧ Slot s.pages i obj ∧ Not (obj ∈ fl i) ∧
    s.mem.word obj = i.val ∧ 0 < x.2 ∧ x.2 ≤ objSizeOf i ∧
    obj % pgSize + (descSize + x.2) ≤ pgSize) ∨
  (maxObjSize < x.2 ∧ x.2 < pgSize ∧ (x.1, none) ∈ s.pages)

structure FreeSound (s : State) (fl : Fin nblock -> List Nat) : Prop where
  config : forall i, (s.blocks i).blockIdx = i.val ∧ (s.blocks i).objSize = objSizeOf i
  chain : forall i, s.mem.Chain (s.blocks i).head (fl i)
  count : forall i, (fl i).length = (s.blocks i).free.toNat
  slot : forall i obj, obj ∈ fl i -> Slot s.pages i obj
  nodup : forall i, (fl i).Nodup

structure Inv (s : State) (fl : Fin nblock -> List Nat) : Prop where
  pages : PagesSound s
  free : FreeSound s fl
  live : forall x, x ∈ s.live -> Placed s fl x
  distinct : s.live.Pairwise (fun x y => x.1 ≠ y.1)

/-!
# Where slots lie
-/

theorem mem_allPages_of_pages {s : State} {page : Nat} {k : Option (Fin nblock)}
    (h : (page, k) ∈ s.pages) : page ∈ s.allPages :=
  List.mem_append_left _ (List.mem_map.mpr ⟨(page, k), h, rfl⟩)

theorem PagesSound.nodup_pages {s : State} (h : PagesSound s) :
    (s.pages.map Prod.fst).Nodup :=
  (List.nodup_append.mp h.nodup).left

theorem PagesSound.class_unique {s : State} (h : PagesSound s) {page : Nat}
    {k k' : Option (Fin nblock)} (hk : (page, k) ∈ s.pages)
    (hk' : (page, k') ∈ s.pages) : k = k' := by
  have hinj := List.inj_on_of_nodup_map h.nodup_pages hk hk' rfl
  exact congrArg Prod.snd hinj

theorem PagesSound.apart_of_ne {s : State} (h : PagesSound s)
    {page page' a e a' e' : Nat} (hp : page ∈ s.allPages) (hp' : page' ∈ s.allPages)
    (hne : page ≠ page') (ha : page ≤ a) (he : a + e ≤ page + pgSize)
    (ha' : page' ≤ a') (he' : a' + e' ≤ page' + pgSize) :
    RangesApart (a, e) (a', e') := by
  have h1 := (h.proper page hp).left
  have h2 := (h.proper page' hp').left
  unfold RangesApart
  unfold pgSize at *
  lia

/-- An offset into a page is the address taken modulo the page size. -/
theorem PagesSound.offset {s : State} (h : PagesSound s) {page a : Nat}
    (hp : page ∈ s.allPages) (ha : page ≤ a) (ha' : a < page + pgSize) :
    a = page + a % pgSize := by
  have h1 := (h.proper page hp).left
  unfold pgSize at *
  lia

theorem PagesSound.slot_inside {s : State} (h : PagesSound s) {i : Fin nblock}
    {obj : Nat} (hs : Slot s.pages i obj) : obj % pgSize + descSize ≤ pgSize := by
  rcases hs with ⟨page, hpage, hlow, hhigh, hmod⟩
  have hoff := h.offset (mem_allPages_of_pages hpage) hlow hhigh
  have hdvd : 4 ∣ obj - page :=
    Nat.dvd_trans (Nat.dvd_of_mod_eq_zero (slotSize_bounds i).left)
      (Nat.dvd_of_mod_eq_zero hmod)
  unfold descSize
  unfold pgSize at *
  lia

theorem PagesSound.slot_pos {s : State} (h : PagesSound s) {i : Fin nblock}
    {obj : Nat} (hs : Slot s.pages i obj) :
    pgSize ≤ obj ∧ obj + descSize ≤ 0x100000000 := by
  have hin := h.slot_inside hs
  rcases hs with ⟨page, hpage, hlow, hhigh, hmod⟩
  have hproper := h.proper page (mem_allPages_of_pages hpage)
  have hoff := h.offset (mem_allPages_of_pages hpage) hlow hhigh
  unfold pgSize at *
  lia

theorem multiples_apart {a b size : Nat} (ha : a % size = 0) (hb : b % size = 0)
    (h : a < b) : a + size ≤ b := by
  rcases Nat.dvd_of_mod_eq_zero ha with ⟨m, rfl⟩
  rcases Nat.dvd_of_mod_eq_zero hb with ⟨n, rfl⟩
  have hmn : m < n := Nat.lt_of_mul_lt_mul_left h
  calc
    size * m + size = size * (m + 1) := (Nat.mul_succ size m).symm
    _ ≤ size * n := Nat.mul_le_mul_left size hmn

/-- Two slots are apart as far as their extents stay within slot and page. -/
theorem PagesSound.slot_apart {s : State} (h : PagesSound s) {i j : Fin nblock}
    {obj obj' e e' : Nat} (hs : Slot s.pages i obj) (hs' : Slot s.pages j obj')
    (hne : obj ≠ obj') (he : e ≤ slotSize i) (hin : obj % pgSize + e ≤ pgSize)
    (he' : e' ≤ slotSize j) (hin' : obj' % pgSize + e' ≤ pgSize) :
    RangesApart (obj, e) (obj', e') := by
  rcases hs with ⟨page, hpage, hlow, hhigh, hmod⟩
  rcases hs' with ⟨page', hpage', hlow', hhigh', hmod'⟩
  have hoff := h.offset (mem_allPages_of_pages hpage) hlow hhigh
  have hoff' := h.offset (mem_allPages_of_pages hpage') hlow' hhigh'
  cases Nat.decEq page page' with
  | isFalse hpp =>
      exact h.apart_of_ne (mem_allPages_of_pages hpage) (mem_allPages_of_pages hpage')
        hpp hlow (by lia) hlow' (by lia)
  | isTrue hpp =>
      subst hpp
      cases h.class_unique hpage hpage'
      unfold RangesApart
      cases Nat.lt_or_gt_of_ne hne with
      | inl hlt =>
          have hstep := multiples_apart hmod hmod' (by lia)
          left
          show obj + e ≤ obj'
          lia
      | inr hgt =>
          have hstep := multiples_apart hmod' hmod (by lia)
          right
          show obj' + e' ≤ obj
          lia

theorem PagesSound.slot_apart_page {s : State} (h : PagesSound s) {i : Fin nblock}
    {obj e page n : Nat} (hs : Slot s.pages i obj)
    (hin : obj % pgSize + e ≤ pgSize) (hpage : page ∈ s.allPages)
    (hother : Not ((page, some i) ∈ s.pages)) (hn : n ≤ pgSize) :
    RangesApart (obj, e) (page, n) := by
  rcases hs with ⟨page', hpage', hlow, hhigh, _⟩
  have hoff := h.offset (mem_allPages_of_pages hpage') hlow hhigh
  refine h.apart_of_ne (mem_allPages_of_pages hpage') hpage ?_ hlow (by lia)
    (Nat.le_refl page) (by lia)
  intro heq
  subst heq
  exact hother hpage'

theorem Slot.class_unique {s : State} (h : PagesSound s) {i j : Fin nblock}
    {obj : Nat} (hi : Slot s.pages i obj) (hj : Slot s.pages j obj) : i = j := by
  rcases hi with ⟨page, hpage, hlow, hhigh, _⟩
  rcases hj with ⟨page', hpage', hlow', hhigh', _⟩
  have hoff := h.offset (mem_allPages_of_pages hpage) hlow hhigh
  have hoff' := h.offset (mem_allPages_of_pages hpage') hlow' hhigh'
  have hpp : page = page' := by lia
  subst hpp
  cases h.class_unique hpage hpage'
  rfl

/-!
# The invariant makes the heap sound
-/

theorem FreeSound.freeObjs_eq {s : State} {fl : Fin nblock -> List Nat}
    (h : FreeSound s fl) (i : Fin nblock) : freeObjs s i = fl i := by
  unfold freeObjs
  rw [← h.count i]
  exact (h.chain i).walk_eq

theorem slot_le_slotSize {i : Fin nblock} {n : Nat} (h : n ≤ objSizeOf i) :
    descSize + n ≤ slotSize i := by
  unfold slotSize
  lia

theorem extent_small {i : Fin nblock} {obj n : Nat} (h : n ≤ objSizeOf i) :
    extent (obj + descSize, n) = (obj, descSize + n) := by
  have hmax := (slotSize_bounds i).right.right
  unfold extent
  rw [if_pos (by lia), Nat.add_sub_cancel]

theorem extent_large {ptr n : Nat} (h : maxObjSize < n) :
    extent (ptr, n) = (ptr, n) := by
  unfold extent
  rw [if_neg (by lia)]

theorem Inv.page_class_none {s : State} {fl : Fin nblock -> List Nat}
    (h : Inv s fl) {page : Nat} {i : Fin nblock} (hpage : (page, none) ∈ s.pages) :
    Not ((page, some i) ∈ s.pages) := by
  intro hcut
  cases h.pages.class_unique hpage hcut

/-- A live object and a descriptor that is not its own are apart. -/
theorem Inv.live_slot_apart {s : State} {fl : Fin nblock -> List Nat}
    (h : Inv s fl) {x : Nat × Nat} {i : Fin nblock} {obj : Nat} (hx : x ∈ s.live)
    (hs : Slot s.pages i obj) (hne : x.1 = obj + descSize -> maxObjSize < x.2) :
    RangesApart (extent x) (obj, descSize) := by
  rcases x with ⟨ptr, n⟩
  have hin := h.pages.slot_inside hs
  have hfour : descSize ≤ slotSize i := (slotSize_bounds i).right.left
  rcases h.live (ptr, n) hx with ⟨j, obj', hptr, hs', _, _, _, hn, hfit⟩ | ⟨hbig, hlt, hpage⟩
  · change ptr = obj' + descSize at hptr
    subst hptr
    rw [extent_small hn]
    refine h.pages.slot_apart hs' hs ?_ (slot_le_slotSize hn) hfit hfour hin
    intro heq
    subst heq
    have hmax := (slotSize_bounds j).right.right
    have hbig := hne rfl
    simp only at hn hbig
    lia
  · rw [extent_large hbig]
    have hapart := h.pages.slot_apart_page hs hin (mem_allPages_of_pages hpage)
      (h.page_class_none hpage) (Nat.le_of_lt hlt)
    unfold RangesApart at hapart ⊢
    exact hapart.symm

/-- Two live objects with different pointers are apart. -/
theorem Inv.live_apart {s : State} {fl : Fin nblock -> List Nat} (h : Inv s fl)
    {x y : Nat × Nat} (hx : x ∈ s.live) (hy : y ∈ s.live) (hne : x.1 ≠ y.1) :
    RangesApart (extent x) (extent y) := by
  rcases x with ⟨ptr, n⟩
  rcases y with ⟨ptr', n'⟩
  rcases h.live _ hx with ⟨i, obj, hptr, hs, _, _, _, hn, hfit⟩ | ⟨hbig, hlt, hpage⟩ <;>
    rcases h.live _ hy with ⟨j, obj', hptr', hs', _, _, _, hn', hfit'⟩ | ⟨hbig', hlt', hpage'⟩
  · change ptr = obj + descSize at hptr
    change ptr' = obj' + descSize at hptr'
    subst hptr hptr'
    rw [extent_small hn, extent_small hn']
    refine h.pages.slot_apart hs hs' ?_ (slot_le_slotSize hn) hfit
      (slot_le_slotSize hn') hfit'
    intro heq
    subst heq
    exact hne rfl
  · change ptr = obj + descSize at hptr
    subst hptr
    rw [extent_small hn, extent_large hbig']
    exact h.pages.slot_apart_page hs hfit (mem_allPages_of_pages hpage')
      (h.page_class_none hpage') (Nat.le_of_lt hlt')
  · change ptr' = obj' + descSize at hptr'
    subst hptr'
    rw [extent_large hbig, extent_small hn']
    have hapart := h.pages.slot_apart_page hs' hfit' (mem_allPages_of_pages hpage)
      (h.page_class_none hpage) (Nat.le_of_lt hlt)
    unfold RangesApart at hapart ⊢
    exact hapart.symm
  · rw [extent_large hbig, extent_large hbig']
    exact h.pages.apart_of_ne (mem_allPages_of_pages hpage)
      (mem_allPages_of_pages hpage') hne (Nat.le_refl _)
      (Nat.add_le_add_left (Nat.le_of_lt hlt) _) (Nat.le_refl _)
      (Nat.add_le_add_left (Nat.le_of_lt hlt') _)

theorem Inv.live_in_page {s : State} {fl : Fin nblock -> List Nat} (h : Inv s fl)
    {x : Nat × Nat} (hx : x ∈ s.live) :
    exists page, page ∈ s.pages.map Prod.fst ∧ page ≤ x.1 ∧
      x.1 + x.2 ≤ page + pgSize := by
  rcases h.live x hx with ⟨i, obj, hptr, hs, _, _, _, hn, hfit⟩ | ⟨_, hlt, hpage⟩
  · rcases hs with ⟨page, hpage, hlow, hhigh, _⟩
    have hoff := h.pages.offset (mem_allPages_of_pages hpage) hlow hhigh
    refine ⟨page, List.mem_map.mpr ⟨_, hpage, rfl⟩, ?_, ?_⟩
    · lia
    · lia
  · exact ⟨x.1, List.mem_map.mpr ⟨_, hpage, rfl⟩, Nat.le_refl _,
      Nat.add_le_add_left (Nat.le_of_lt hlt) _⟩

theorem Inv.live_pos {s : State} {fl : Fin nblock -> List Nat} (h : Inv s fl)
    {x : Nat × Nat} (hx : x ∈ s.live) : 0 < x.2 := by
  rcases h.live x hx with ⟨_, _, _, _, _, _, hpos, _⟩ | ⟨hbig, _⟩
  · exact hpos
  · exact Nat.lt_of_le_of_lt (Nat.zero_le _) hbig

/-- A live object is not the successor of a free descriptor. -/
theorem Inv.live_ne_free {s : State} {fl : Fin nblock -> List Nat} (h : Inv s fl)
    {x : Nat × Nat} {i : Fin nblock} {obj : Nat} (hx : x ∈ s.live)
    (hobj : obj ∈ fl i) (hptr : x.1 = obj + descSize) : maxObjSize < x.2 := by
  rcases h.live x hx with ⟨j, obj', hptr', hs', hfree, _⟩ | ⟨hbig, _⟩
  · have heq : obj' = obj := by lia
    subst heq
    cases Slot.class_unique h.pages hs' (h.free.slot i obj' hobj)
    exact absurd hobj hfree
  · exact hbig

theorem Inv.sound {s : State} {fl : Fin nblock -> List Nat} (h : Inv s fl) :
    Sound s := by
  constructor
  · intro x hx
    exact h.live_in_page hx
  · exact h.distinct.imp_of_mem (fun hx hy hne => h.live_apart hx hy hne)
  · intro i j obj obj' hobj hobj'
    rw [h.free.freeObjs_eq] at hobj hobj'
    have hs := h.free.slot i obj hobj
    have hs' := h.free.slot j obj' hobj'
    cases Nat.decEq obj obj' with
    | isTrue heq =>
        subst heq
        exact Or.inl ⟨rfl, Slot.class_unique h.pages hs hs'⟩
    | isFalse hne =>
        exact Or.inr (h.pages.slot_apart hs hs' hne (slotSize_bounds i).right.left
          (h.pages.slot_inside hs) (slotSize_bounds j).right.left
          (h.pages.slot_inside hs'))
  · intro i
    rw [h.free.freeObjs_eq]
    exact h.free.nodup i
  · intro x i obj hx hobj
    rw [h.free.freeObjs_eq] at hobj
    exact h.live_slot_apart hx (h.free.slot i obj hobj) (h.live_ne_free hx hobj)

end Kalloc
end Kernel
end NicoOS
