import NicoOS.Fs.Inode.Ownership

/-!
# Block mapping

What `bmap` needs and leaves.  The blocks that a file still misses are counted
against the free blocks of the bitmap and against the room in the log header.
-/

namespace NicoOS
namespace Fs
namespace Inode

open Lib
open Log (Block LogHeader)

/-- The blocks to be allocated before the first `last` blocks of a file exist. -/
def missing (v : Volume) (d : Dinode) (last : Nat) : Nat :=
  ((Finset.range last).filter (fun bn => blockOf v d bn = 0)).card +
    (if ndirectDataBlocks < last ∧ d.indirect = 0 then 1 else 0)

/-- The bits that the next `m` calls of `balloc` take. -/
def nextBits (v : Volume) (m : Nat) : Finset Nat :=
  v.freeBits.filter (fun k => (v.freeBits.filter (fun j => j < k)).card < m)

/-- The blocks that these calls log: those of the bits, and those with the bits. -/
def takenBlocks (v : Volume) (m : Nat) : Finset UInt32 :=
  (nextBits v m).image v.sb.dataBlock ∪ (nextBits v m).image v.sb.bmapBlock

def entryBlocks (v : Volume) (d : Dinode) (last : Nat) : Finset UInt32 :=
  if d.indirect ≠ 0 ∧ exists bn, bn < last ∧ ndirectDataBlocks ≤ bn ∧ blockOf v d bn = 0 then
    {d.indirect}
  else
    ∅

/-- The blocks that `bmap` logs until the first `last` blocks of a file exist. -/
def mapBlocks (v : Volume) (d : Dinode) (last : Nat) : Finset UInt32 :=
  takenBlocks v (missing v d last) ∪ entryBlocks v d last

/-- Where a call may stop that logs the blocks of `W` before its last `log_write`. -/
def FileStops (v : Volume) (d : Dinode) (last : Nat) (W : Finset UInt32) : Stop -> Prop
  | Stop.outOfBlocks => v.freeBits.card < missing v d last
  | e => LoadStops v W e

section NextBits

variable {v w : Volume} {k m : Nat}

theorem firstFree_mem (h : v.FirstFree k) : k ∈ v.freeBits :=
  Finset.mem_filter.mpr ⟨Finset.mem_range.mpr h.left, h.right.left⟩

theorem firstFree_nextBits (h : v.FirstFree k) : k ∈ nextBits v (m + 1) := by
  have hnone : v.freeBits.filter (fun j => j < k) = ∅ := by
    apply Finset.filter_eq_empty_iff.mpr
    intro j hj hlt
    have hfree := (Finset.mem_filter.mp hj).right
    rw [h.right.right j hlt] at hfree
    cases hfree
  unfold nextBits
  rw [Finset.mem_filter, hnone, Finset.card_empty]
  exact ⟨firstFree_mem h, Nat.succ_pos m⟩

/-- Behind a call of `balloc` the next bits are among those before it. -/
theorem nextBits_erase (hbits : w.freeBits = v.freeBits.erase k) :
    nextBits w m ⊆ nextBits v (m + 1) := by
  intro j hj
  unfold nextBits at hj ⊢
  rw [hbits, Finset.mem_filter, Finset.mem_erase, Finset.filter_erase] at hj
  rw [Finset.mem_filter]
  have hpred := Finset.pred_card_le_card_erase (s := v.freeBits.filter (fun i => i < j)) (a := k)
  exact ⟨hj.left.right, by lia⟩

theorem nextBits_subset (v : Volume) (m : Nat) : nextBits v m ⊆ v.freeBits :=
  Finset.filter_subset _ _

theorem dataBlock_taken (h : v.FirstFree k) : v.sb.dataBlock k ∈ takenBlocks v (m + 1) :=
  Finset.mem_union_left _ (Finset.mem_image_of_mem _ (firstFree_nextBits h))

theorem bmapBlock_taken (h : v.FirstFree k) : v.sb.bmapBlock k ∈ takenBlocks v (m + 1) :=
  Finset.mem_union_right _ (Finset.mem_image_of_mem _ (firstFree_nextBits h))

theorem takenBlocks_erase (hsb : w.sb = v.sb) (hbits : w.freeBits = v.freeBits.erase k) :
    takenBlocks w m ⊆ takenBlocks v (m + 1) := by
  unfold takenBlocks
  rw [hsb]
  exact Finset.union_subset_union (Finset.image_subset_image (nextBits_erase hbits))
    (Finset.image_subset_image (nextBits_erase hbits))

theorem takenBlocks_congr (hsb : w.sb = v.sb) (hbits : w.freeBits = v.freeBits) :
    takenBlocks w m = takenBlocks v m := by
  unfold takenBlocks nextBits
  rw [hsb, hbits]

theorem logs_take (h : v.FirstFree k) : Logs v (v.take k) (takenBlocks v (m + 1)) :=
  ((((Logs.refl v _).store _ _).logged (bmapBlock_taken h)).store _ _).logged (dataBlock_taken h)

/-- Different free bits have different numbers of free bits below them. -/
theorem card_nextBits_le (v : Volume) (m : Nat) : (nextBits v m).card ≤ m := by
  have hrange : (nextBits v m).card ≤ (Finset.range m).card := by
    apply Finset.card_le_card_of_injOn (fun k => (v.freeBits.filter (fun j => j < k)).card)
    · intro k hk
      exact Finset.mem_coe.mpr (Finset.mem_range.mpr (Finset.mem_filter.mp hk).right)
    · intro j hj k hk heq
      have hless : forall a b, a ∈ v.freeBits -> a < b ->
          (v.freeBits.filter (fun i => i < a)).card <
            (v.freeBits.filter (fun i => i < b)).card := by
        intro a b ha hlt
        apply Finset.card_lt_card
        apply Finset.ssubset_iff_of_subset _ |>.mpr
        · exact ⟨a, Finset.mem_filter.mpr ⟨ha, hlt⟩,
            fun hmem => Nat.lt_irrefl a (Finset.mem_filter.mp hmem).right⟩
        · intro i hi
          rcases Finset.mem_filter.mp hi with ⟨hfree, hbelow⟩
          exact Finset.mem_filter.mpr ⟨hfree, Nat.lt_trans hbelow hlt⟩
      rcases Nat.lt_trichotomy j k with hlt | hsame | hgt
      · exact absurd heq (Nat.ne_of_lt (hless j k (nextBits_subset v m hj) hlt))
      · exact hsame
      · exact absurd heq.symm (Nat.ne_of_lt (hless k j (nextBits_subset v m hk) hgt))
  rwa [Finset.card_range] at hrange

/-- There are no more bitmap blocks than the bitmap has. -/
theorem card_takenBlocks_le (v : Volume) (m : Nat) :
    (takenBlocks v m).card ≤ m + min m (roundUp v.sb.bits bitsPerBlock) := by
  have hnext := card_nextBits_le v m
  have hdata := Finset.card_image_le (f := v.sb.dataBlock) (s := nextBits v m)
  have hbmap := Finset.card_image_le (f := v.sb.bmapBlock) (s := nextBits v m)
  have hsub : (nextBits v m).image v.sb.bmapBlock ⊆
      (Finset.range (roundUp v.sb.bits bitsPerBlock)).image
        (fun i => v.sb.bmapStart + UInt32.ofNat i) := by
    intro b hb
    rcases Finset.mem_image.mp hb with ⟨k, hk, heq⟩
    have hlt := Finset.mem_range.mp (Finset.mem_filter.mp (nextBits_subset v m hk)).left
    apply Finset.mem_image.mpr
    refine ⟨k / bitsPerBlock, Finset.mem_range.mpr ?_, heq⟩
    have hsize : bitsPerBlock = 4096 := rfl
    unfold roundUp
    lia
  have hblocks := (Finset.card_le_card hsub).trans Finset.card_image_le
  rw [Finset.card_range] at hblocks
  have hunion := Finset.card_union_le ((nextBits v m).image v.sb.dataBlock)
    ((nextBits v m).image v.sb.bmapBlock)
  unfold takenBlocks
  lia

end NextBits

theorem mem_entryBlocks {v : Volume} {d : Dinode} {last bn : Nat} (hind : d.indirect ≠ 0)
    (hlast : bn < last) (hge : ndirectDataBlocks ≤ bn) (hempty : blockOf v d bn = 0) :
    d.indirect ∈ entryBlocks v d last := by
  unfold entryBlocks
  rw [if_pos ⟨hind, bn, hlast, hge, hempty⟩]
  exact Finset.mem_singleton_self _

theorem card_entryBlocks_le (v : Volume) (d : Dinode) (last : Nat) :
    (entryBlocks v d last).card ≤ 1 := by
  unfold entryBlocks
  split
  · exact Nat.le_refl 1
  · exact Nat.zero_le 1

theorem entryBlocks_subset {v w : Volume} {d e : Dinode} {last : Nat}
    (hind : e.indirect = d.indirect)
    (hblocks : forall bn, blockOf w e bn = 0 -> blockOf v d bn = 0) :
    entryBlocks w e last ⊆ entryBlocks v d last := by
  intro b hb
  unfold entryBlocks at hb
  split at hb
  · rename_i hyes
    rcases hyes with ⟨hne, bn, hlast, hge, hempty⟩
    rw [Finset.mem_singleton.mp hb, hind]
    rw [hind] at hne
    exact mem_entryBlocks hne hlast hge (hblocks bn hempty)
  · cases hb

section Missing

variable {v w : Volume} {d e : Dinode} {a : UInt32} {last : Nat}

theorem missing_assign_block {bn : Nat} (hbn : bn < last) (ha : a ≠ 0)
    (hempty : blockOf v d bn = 0)
    (hslots : forall s, slotAddr w e s = if s = slotOf bn then a else slotAddr v d s) :
    missing w e last + 1 = missing v d last := by
  have hind : e.indirect = d.indirect := by
    have hslot := hslots (Slot.addr ndirectDataBlocks)
    rw [if_neg (fun heq => slotOf_ne_indirect bn heq.symm)] at hslot
    exact hslot
  have herase : (Finset.range last).filter (fun n => blockOf w e n = 0) =
      ((Finset.range last).filter (fun n => blockOf v d n = 0)).erase bn := by
    ext n
    rw [Finset.mem_erase, Finset.mem_filter, Finset.mem_filter]
    have hslot := hslots (slotOf n)
    cases Classical.em (n = bn) with
    | inl heq =>
        rw [heq, if_pos rfl] at hslot
        rw [heq]
        constructor
        · intro hn
          exact absurd (hslot.symm.trans hn.right) ha
        · intro hn
          exact absurd rfl hn.left
    | inr hne =>
        rw [if_neg (fun heq => hne (slotOf_inj heq))] at hslot
        unfold blockOf
        rw [hslot]
        constructor
        · intro hn
          exact And.intro hne hn
        · intro hn
          exact hn.right
  have hmem : bn ∈ (Finset.range last).filter (fun n => blockOf v d n = 0) :=
    Finset.mem_filter.mpr (And.intro (Finset.mem_range.mpr hbn) hempty)
  unfold missing
  rw [herase, hind, ← Finset.card_erase_add_one hmem]
  lia

theorem missing_assign_indirect (hlast : ndirectDataBlocks < last) (ha : a ≠ 0)
    (hempty : d.indirect = 0)
    (hslots : forall s, slotAddr w e s =
      if s = Slot.addr ndirectDataBlocks then a else slotAddr v d s) :
    missing w e last + 1 = missing v d last := by
  have hind : e.indirect = a := by
    have hslot := hslots (Slot.addr ndirectDataBlocks)
    rw [if_pos rfl] at hslot
    exact hslot
  have hblocks : forall n, blockOf w e n = blockOf v d n := by
    intro n
    unfold blockOf
    rw [hslots]
    exact if_neg (slotOf_ne_indirect n)
  unfold missing
  simp only [hblocks, hind]
  rw [if_neg (fun h => ha h.right), if_pos (And.intro hlast hempty)]

theorem missing_pos_of_block {bn : Nat} (hbn : bn < last) (hempty : blockOf v d bn = 0) :
    0 < missing v d last := by
  have hmem : bn ∈ (Finset.range last).filter (fun n => blockOf v d n = 0) :=
    Finset.mem_filter.mpr (And.intro (Finset.mem_range.mpr hbn) hempty)
  have hcard := Finset.card_pos.mpr ⟨bn, hmem⟩
  unfold missing
  lia

theorem missing_pos_of_indirect (hlast : ndirectDataBlocks < last) (hempty : d.indirect = 0) :
    0 < missing v d last := by
  unfold missing
  rw [if_pos (And.intro hlast hempty)]
  lia

end Missing

/-!
# Accounts
-/

/-- The resources after a call that logged nothing but blocks of `W`. -/
structure Charged (v : Volume) (d : Dinode) (w : Volume) (e : Dinode) (last : Nat)
    (W : Finset UInt32) : Prop where
  free : w.freeBits.card + missing v d last = v.freeBits.card + missing w e last
  shrinks : missing w e last ≤ missing v d last
  same : missing v d last = 0 -> e = d
  logs : Logs v w W
  maps : mapBlocks w e last ⊆ mapBlocks v d last
  blocks : forall bn, blockOf w e bn = blockOf v d bn ∨ blockOf w e bn ∈ mapBlocks v d last

theorem Charged.refl (v : Volume) (d : Dinode) (last : Nat) (W : Finset UInt32) :
    Charged v d v d last W where
  free := rfl
  shrinks := Nat.le_refl _
  same := fun _ => rfl
  logs := Logs.refl v W
  maps := Finset.Subset.refl _
  blocks := fun _ => Or.inl rfl

theorem Charged.mono {v w : Volume} {d e : Dinode} {last : Nat} {W W' : Finset UInt32}
    (h : Charged v d w e last W) (hsub : W ⊆ W') : Charged v d w e last W' where
  free := h.free
  shrinks := h.shrinks
  same := h.same
  logs := h.logs.mono hsub
  maps := h.maps
  blocks := h.blocks

theorem Charged.trans {v w x : Volume} {d e f : Dinode} {last : Nat} {W : Finset UInt32}
    (h1 : Charged v d w e last W) (h2 : Charged w e x f last W) : Charged v d x f last W where
  free := by
    have hf1 := h1.free
    have hf2 := h2.free
    lia
  shrinks := Nat.le_trans h2.shrinks h1.shrinks
  same := by
    intro hzero
    have hle := h1.shrinks
    rw [h2.same (by lia), h1.same hzero]
  logs := h1.logs.trans h2.logs
  maps := h2.maps.trans h1.maps
  blocks := by
    intro bn
    rcases h2.blocks bn with heq | hnew
    · rw [heq]
      exact h1.blocks bn
    · exact Or.inr (h1.maps hnew)

theorem FileStops.back {v w : Volume} {d e : Dinode} {last : Nat} {W W' : Finset UInt32}
    (hsub : W' ⊆ W) (hc : Charged v d w e last W) {stop : Stop} (h : FileStops w e last W' stop) :
    FileStops v d last W stop := by
  have hfree := hc.free
  have hback : LoadStops w W' stop -> LoadStops v W stop := hc.logs.stops hsub
  cases stop with
  | outOfBlocks =>
      have hlt : w.freeBits.card < missing w e last := h
      show v.freeBits.card < missing v d last
      lia
  | _ => exact hback h

theorem FileStops.mono {v : Volume} {d : Dinode} {last : Nat} {W W' : Finset UInt32}
    (hsub : W' ⊆ W) {stop : Stop} (h : FileStops v d last W' stop) : FileStops v d last W stop :=
  FileStops.back hsub (Charged.refl v d last W) h

theorem FileStops.of_log {v : Volume} {d : Dinode} {last : Nat} {W : Finset UInt32} {stop : Stop}
    (h : LogStops v 1 stop) : FileStops v d last W stop := by
  have hload : LoadStops v W stop := LoadStops.of_log h
  cases stop with
  | outOfBlocks => cases h
  | _ => exact hload

theorem FileStops.of_alloc {v : Volume} {d : Dinode} {last : Nat} (hmissing : 0 < missing v d last)
    {stop : Stop} (h : AllocStops v stop) : FileStops v d last (mapBlocks v d last) stop := by
  have hsucc : missing v d last = missing v d last - 1 + 1 := by lia
  cases stop with
  | outOfBlocks =>
      have hempty : v.freeBits = ∅ := h
      show v.freeBits.card < missing v d last
      rw [hempty]
      exact hmissing
  | _ =>
      rcases h with ⟨k, hfirst, hload⟩
      apply (Logs.refl v (mapBlocks v d last)).stops _ hload
      apply Finset.singleton_subset_iff.mpr
      apply Finset.mem_union_left
      rw [hsucc]
      exact bmapBlock_taken hfirst

theorem card_freeBits_take {v : Volume} (h : v.sb.LaidOut) {k : Nat} (hk : k < v.sb.bits)
    (hfree : v.used k = false) : (v.take k).freeBits.card + 1 = v.freeBits.card := by
  have hmem : k ∈ v.freeBits :=
    Finset.mem_filter.mpr (And.intro (Finset.mem_range.mpr hk) hfree)
  rw [Volume.freeBits_take h.numbered hk, Finset.card_erase_add_one hmem]

/-!
# Specification of `bmap`
-/

/-- What `bmap` leaves: the address of the block. -/
def MapPost (v : Volume) (T : Table) (inum : UInt32) (d : Dinode) (last bn : Nat)
    (r : UInt32 × Dinode × Volume) : Prop :=
  Mapped v T inum d r.2.2 r.2.1 ∧ r.1 = blockOf r.2.2 r.2.1 bn ∧ r.1 ≠ 0 ∧
    Charged v d r.2.2 r.2.1 last (mapBlocks v d last)

section Bmap

variable {v : Volume} {T : Table} {inum : UInt32} {d : Dinode} {last : Nat}

/-- One block is taken, and its address goes to a slot that was empty. -/
theorem charged_take {w : Volume} {e : Dinode} {k : Nat} {slot : Slot} (hl : v.sb.LaidOut)
    (hfirst : v.FirstFree k) (hsb : w.sb = v.sb) (hbits : w.freeBits = (v.take k).freeBits)
    (hmiss : missing w e last + 1 = missing v d last)
    (hslots : forall s, slotAddr w e s = if s = slot then v.sb.dataBlock k else slotAddr v d s)
    (hentry : entryBlocks w e last ⊆ mapBlocks v d last)
    (hlogs : Logs v w (mapBlocks v d last)) : Charged v d w e last (mapBlocks v d last) where
  free := by
    have hcard := card_freeBits_take hl hfirst.left hfirst.right.left
    rw [<- hbits] at hcard
    lia
  shrinks := by lia
  same := by lia
  logs := hlogs
  maps := by
    have herase : w.freeBits = v.freeBits.erase k :=
      hbits.trans (Volume.freeBits_take hl.numbered hfirst.left)
    have htaken := takenBlocks_erase (m := missing w e last) hsb herase
    rw [hmiss] at htaken
    exact Finset.union_subset (htaken.trans Finset.subset_union_left) hentry
  blocks := by
    intro bn
    unfold blockOf
    rw [hslots]
    split
    · right
      apply Finset.mem_union_left
      rw [<- hmiss]
      exact dataBlock_taken hfirst
    · exact Or.inl rfl

/-- The blocks of a taken bit are among those counted before. -/
theorem logs_take_map {w : Volume} {e : Dinode} {k : Nat} (hfirst : v.FirstFree k)
    (hmiss : missing w e last + 1 = missing v d last) :
    Logs v (v.take k) (mapBlocks v d last) := by
  have htake := logs_take (m := missing w e last) hfirst
  rw [hmiss] at htake
  exact htake.mono Finset.subset_union_left

theorem bmapDirect_meets (h : Held v T inum d) {bn : Nat} (hbn : bn < ndirectDataBlocks)
    (hlast : bn < last) :
    Meets (MapPost v T inum d last bn) (FileStops v d last (mapBlocks v d last))
      (bmapDirect bn d v) := by
  have hslot : slotOf bn = Slot.addr bn := if_pos hbn
  unfold bmapDirect
  split
  · rename_i hempty
    have hblock : blockOf v d bn = 0 := by
      rw [blockOf, hslot]
      exact hempty
    apply Meets.bind ((balloc_least h.laidOut.numbered).mono (fun _ hr => hr)
      (fun _ he => FileStops.of_alloc (missing_pos_of_block hlast hblock) he))
    intro r hr
    rcases hr with ⟨k, hfirst, hr⟩
    have hk := hfirst.left
    have hfree := hfirst.right.left
    rw [hr]
    have hslots := h.slotAddr_assignAddr (by lia) hempty hk hfree
    have hmiss := missing_assign_block hlast (h.laidOut.dataBlock_ne_zero hk) hblock
      (by rw [hslot]; exact hslots)
    have hind := indirect_setAddr_of_ne d (v.sb.dataBlock k) (i := bn) (by lia)
    have hentry : entryBlocks (v.take k) (d.setAddr bn (v.sb.dataBlock k)) last ⊆
        entryBlocks v d last := by
      apply entryBlocks_subset hind
      intro b hb
      unfold blockOf at hb ⊢
      rw [hslots] at hb
      split at hb
      · exact absurd hb (h.laidOut.dataBlock_ne_zero hk)
      · exact hb
    refine ⟨h.assignAddr (by lia) hempty hk hfree, ?_, h.laidOut.dataBlock_ne_zero hk, ?_⟩
    · rw [blockOf, hslot, hslots]
      exact (if_pos rfl).symm
    · exact charged_take h.laidOut hfirst rfl rfl hmiss hslots
        (hentry.trans Finset.subset_union_right) (logs_take_map hfirst hmiss)
  · rename_i hne
    refine ⟨Mapped.refl h.owned, ?_, hne, Charged.refl v d last _⟩
    rw [blockOf, hslot]
    rfl

def IndirectPost (v : Volume) (T : Table) (inum : UInt32) (d : Dinode) (last : Nat)
    (r : Dinode × Volume) : Prop :=
  Mapped v T inum d r.2 r.1 ∧ r.1.indirect ≠ 0 ∧ Charged v d r.2 r.1 last (mapBlocks v d last)

theorem bmapIndirect_meets (h : Held v T inum d) (hlast : ndirectDataBlocks < last) :
    Meets (IndirectPost v T inum d last) (FileStops v d last (mapBlocks v d last))
      (bmapIndirect d v) := by
  unfold bmapIndirect
  split
  · rename_i hempty
    apply Meets.bind ((balloc_least h.laidOut.numbered).mono (fun _ hr => hr)
      (fun _ he => FileStops.of_alloc (missing_pos_of_indirect hlast hempty) he))
    intro r hr
    rcases hr with ⟨k, hfirst, hr⟩
    have hk := hfirst.left
    have hfree := hfirst.right.left
    rw [hr]
    have hzero := h.laidOut.dataBlock_ne_zero hk
    have hslots := h.slotAddr_assignAddr (i := ndirectDataBlocks) (by lia) hempty hk hfree
    have hmiss := missing_assign_indirect hlast hzero hempty hslots
    have hind := indirect_setAddr_self d (v.sb.dataBlock k)
    -- The fresh indirect block is one of those that are taken.
    have hentry : entryBlocks (v.take k) (d.setAddr ndirectDataBlocks (v.sb.dataBlock k)) last ⊆
        mapBlocks v d last := by
      intro b hb
      unfold entryBlocks at hb
      split at hb
      · rw [Finset.mem_singleton.mp hb, hind]
        apply Finset.mem_union_left
        rw [<- hmiss]
        exact dataBlock_taken hfirst
      · cases hb
    refine ⟨h.assignAddr (by lia) hempty hk hfree, ?_, ?_⟩
    · rw [hind]
      exact hzero
    · exact charged_take h.laidOut hfirst rfl rfl hmiss hslots hentry (logs_take_map hfirst hmiss)
  · rename_i hne
    exact ⟨Mapped.refl h.owned, hne, Charged.refl v d last _⟩

/-- The block is taken, and its number stored in the indirect block. -/
theorem charged_entered (h : Held v T inum d) {bn k : Nat} (hge : ndirectDataBlocks ≤ bn)
    (hlt : bn < maxDataBlocks) (hlast : bn < last) (hind : d.indirect ≠ 0)
    (hblock : blockOf v d bn = 0) (hfirst : v.FirstFree k) :
    Charged v d (entered v d (bn - ndirectDataBlocks) k) d last (mapBlocks v d last) := by
  have hmax : maxDataBlocks = ndirectDataBlocks + nindirectDataBlocks := rfl
  have hslot : slotOf bn = Slot.entry (bn - ndirectDataBlocks) := if_neg (by lia)
  have hzero := h.laidOut.dataBlock_ne_zero hfirst.left
  have hslots := h.slotAddr_assignEntry (i := bn - ndirectDataBlocks) (by lia) hind hfirst.left
    hfirst.right.left
  have hmiss := missing_assign_block hlast hzero hblock (by rw [hslot]; exact hslots)
  have hdata := (h.indirect_inUse hind).mem_data h.laidOut
  have hbits : (entered v d (bn - ndirectDataBlocks) k).freeBits = (v.take k).freeBits := by
    apply Volume.freeBits_congr (v := v.take k) h.laidOut.numbered
    · rfl
    · intro c hc
      apply Volume.store_blk_of_ne
      intro heq
      rw [heq] at hc
      exact h.laidOut.bmap_apart_data.not_mem hc hdata
  have hentry : entryBlocks (entered v d (bn - ndirectDataBlocks) k) d last ⊆
      entryBlocks v d last := by
    apply entryBlocks_subset rfl
    intro b hb
    unfold blockOf at hb ⊢
    rw [hslots] at hb
    split at hb
    · exact absurd hb hzero
    · exact hb
  have hmem := mem_entryBlocks hind hlast hge hblock
  exact charged_take h.laidOut hfirst rfl hbits hmiss hslots
    (hentry.trans Finset.subset_union_right)
    (((logs_take_map hfirst hmiss).store _ _).logged (Finset.mem_union_right _ hmem))

theorem bmapEntry_meets (h : Held v T inum d) {bn : Nat} (hge : ndirectDataBlocks ≤ bn)
    (hlt : bn < maxDataBlocks) (hlast : bn < last) (hind : d.indirect ≠ 0) :
    Meets (MapPost v T inum d last bn) (FileStops v d last (mapBlocks v d last))
      (bmapEntry (bn - ndirectDataBlocks) d v) := by
  have hmax : maxDataBlocks = ndirectDataBlocks + nindirectDataBlocks := rfl
  have hslot : slotOf bn = Slot.entry (bn - ndirectDataBlocks) := if_neg (by lia)
  unfold bmapEntry
  split
  · rename_i hempty
    have hblock : blockOf v d bn = 0 := by
      rw [blockOf, hslot, slotAddr, if_neg hind]
      exact hempty
    have hpos := missing_pos_of_block hlast hblock
    have hsucc : missing v d last = missing v d last - 1 + 1 := by lia
    apply Meets.bind ((balloc_least h.laidOut.numbered).mono (fun _ hr => hr)
      (fun _ he => FileStops.of_alloc hpos he))
    intro r hr
    rcases hr with ⟨k, hfirst, hr⟩
    have hk := hfirst.left
    have hfree := hfirst.right.left
    rw [hr]
    have hslots := h.slotAddr_assignEntry (i := bn - ndirectDataBlocks) (by lia) hind hk hfree
    have hlogs : Logs v (v.take k) (mapBlocks v d last) := by
      have htake := logs_take (m := missing v d last - 1) hfirst
      rw [<- hsucc] at htake
      exact htake.mono Finset.subset_union_left
    apply Meets.bind ((logWrite_store_meets _ _ (v.take k)).mono (fun _ hw => hw) _)
    · intro w hw
      have heq : w = entered v d (bn - ndirectDataBlocks) k := hw
      rw [heq]
      refine ⟨h.assignEntry (by lia) hind hempty hk hfree, ?_, h.laidOut.dataBlock_ne_zero hk,
        charged_entered h hge hlt hlast hind hblock hfirst⟩
      rw [blockOf, hslot, hslots]
      exact (if_pos rfl).symm
    · intro stop he
      have hload := hlogs.stops (Finset.Subset.refl _) (LoadStops.of_log he)
      cases stop with
      | outOfBlocks => cases he
      | _ => exact hload
  · rename_i hne
    have hblock : blockOf v d bn = entryAt v d.indirect (bn - ndirectDataBlocks) := by
      rw [blockOf, hslot, slotAddr, if_neg hind]
    exact ⟨Mapped.refl h.owned, hblock.symm, hne, Charged.refl v d last _⟩

theorem MapPost.after {w : Volume} {e : Dinode} {bn : Nat} {r : UInt32 × Dinode × Volume}
    (hm : Mapped v T inum d w e) (hc : Charged v d w e last (mapBlocks v d last))
    (h : MapPost w T inum e last bn r) : MapPost v T inum d last bn r := by
  rcases h with ⟨hmap, haddr, hne, hcharged⟩
  exact ⟨hm.trans hmap, haddr, hne, hc.trans (hcharged.mono hc.maps)⟩

/-- `bmap` finds or makes the block, for block numbers that a file can have. -/
theorem bmap_meets (h : Held v T inum d) (bn : UInt32) (hlt : bn.toNat < maxDataBlocks)
    (hlast : bn.toNat < last) :
    Meets (MapPost v T inum d last bn.toNat) (FileStops v d last (mapBlocks v d last))
      (bmap bn d v) := by
  have hconst : (UInt32.ofNat ndirectDataBlocks).toNat = ndirectDataBlocks := rfl
  unfold bmap
  rw [if_pos hlt]
  split
  · rename_i hdirect
    exact bmapDirect_meets h hdirect hlast
  · rename_i hdirect
    have hsub : (bn - UInt32.ofNat ndirectDataBlocks).toNat = bn.toNat - ndirectDataBlocks := by
      rw [UInt32.toNat_sub_of_le]
      · rw [hconst]
      · exact UInt32.le_iff_toNat_le.mpr (by lia)
    simp only [hsub]
    apply Meets.bind (bmapIndirect_meets h (by lia))
    intro r hr
    rcases r with ⟨e, w⟩
    rcases hr with ⟨hmap, hind, hcharged⟩
    apply (bmapEntry_meets (h.moved hmap.toMoved) (by lia) hlt hlast hind).mono
    · intro r hr
      exact MapPost.after hmap hcharged hr
    · intro stop he
      exact FileStops.back hcharged.maps hcharged he

/-- A block that exists is found, and nothing changes. -/
theorem bmap_of_mapped (bn : UInt32) (hlt : bn.toNat < maxDataBlocks)
    (hne : blockOf v d bn.toNat ≠ 0) : bmap bn d v = Except.ok (blockOf v d bn.toNat, d, v) := by
  have hconst : (UInt32.ofNat ndirectDataBlocks).toNat = ndirectDataBlocks := rfl
  unfold bmap
  rw [if_pos hlt]
  split
  · rename_i hdirect
    have hblock : blockOf v d bn.toNat = d.addr bn.toNat := by
      rw [blockOf, slotOf, if_pos hdirect]
      rfl
    rw [hblock] at hne ⊢
    unfold bmapDirect
    rw [if_neg hne]
  · rename_i hdirect
    have hsub : (bn - UInt32.ofNat ndirectDataBlocks).toNat = bn.toNat - ndirectDataBlocks := by
      rw [UInt32.toNat_sub_of_le]
      · rw [hconst]
      · exact UInt32.le_iff_toNat_le.mpr (by lia)
    have hblock : blockOf v d bn.toNat =
        if d.indirect = 0 then 0 else entryAt v d.indirect (bn.toNat - ndirectDataBlocks) := by
      rw [blockOf, slotOf, if_neg hdirect]
      rfl
    have hind : d.indirect ≠ 0 := by
      intro hzero
      rw [hblock, if_pos hzero] at hne
      exact hne rfl
    rw [if_neg hind] at hblock
    rw [hblock] at hne ⊢
    simp only [hsub]
    unfold bmapIndirect bmapEntry
    rw [if_neg hind]
    show (if entryAt v d.indirect (bn.toNat - ndirectDataBlocks) = 0 then _ else _) = _
    rw [if_neg hne]

end Bmap

end Inode
end Fs
end NicoOS
