import NicoOS.Fs.Inode.Contents
import NicoOS.Mkfs.Blocks

/-!
# Growing a file of `mkfs`

What `bmap` and the loop of `iappend` do to a file whose blocks are those below its size:
they end with the file grown, leave when the free blocks run out, or reach the entry behind
the indirect block.
-/

namespace NicoOS
namespace Mkfs

open Lib
open Fs
open Fs.Log (Block)
open Fs.Inode (Dinode InUse Slot slotAddr slotOf blockOf roundLength)

/-- The blocks that a file takes to grow from `m` to `n` blocks. -/
def growCost (m n : Nat) : Nat :=
  n - m + if m ≤ ndirectDataBlocks ∧ ndirectDataBlocks < n then 1 else 0

theorem growCost_self (m : Nat) : growCost m m = 0 := by
  unfold growCost
  rw [if_neg (by lia), Nat.sub_self]

theorem growCost_trans {m n k : Nat} (hmn : m ≤ n) (hnk : n ≤ k) :
    growCost m n + growCost n k = growCost m k := by
  unfold growCost
  split
  · split
    · lia
    · split
      · lia
      · lia
  · split
    · split
      · lia
      · lia
    · split
      · lia
      · lia

theorem growCost_mono {m n k : Nat} (hmn : m ≤ n) (hnk : n ≤ k) :
    growCost m n ≤ growCost m k := by
  rw [← growCost_trans hmn hnk]
  exact Nat.le_add_right _ _

/-- A file has its first `n` blocks, for `c` of the free ones; inodes were not stored to. -/
structure Spent (d : Disk) (i : Dinode) (c : Nat) (d' : Disk) (i' : Dinode) (n : Nat) : Prop where
  grown : Grown d'.volume i' n
  widens : Widens d.volume i d'.volume i'
  sb : d'.sb = d.sb
  paid : d'.volume.freeBits.card + c = d.volume.freeBits.card
  inodes : forall b, d.volume.sb.inodeRegion.Mem b.toNat -> d'.blk b = d.blk b
  type : i'.type = i.type

/-- A file that had `m` blocks has `n` blocks. -/
structure Grew (d : Disk) (i : Dinode) (m : Nat) (d' : Disk) (i' : Dinode) (n : Nat) : Prop
    extends Spent d i (growCost m n) d' i' n where
  needed : i'.indirect ≠ 0 <-> ndirectDataBlocks < n
  le : m ≤ n

/-- The program leaves, and the image has fewer free blocks than `n`. -/
def Lacks (d : Disk) (n : Nat) (e : Stop) : Prop :=
  e = Stop.exit ∧ d.volume.freeBits.card < n

section Grew

variable {d d' d'' : Disk} {i i' i'' : Dinode} {m n k c c' : Nat}

theorem Spent.refl (h : Grown d.volume i m) : Spent d i 0 d i m where
  grown := h
  widens := Widens.refl d.volume i
  sb := rfl
  paid := rfl
  inodes := fun _ _ => rfl
  type := rfl

theorem Spent.trans (h1 : Spent d i c d' i' n) (h2 : Spent d' i' c' d'' i'' k) :
    Spent d i (c + c') d'' i'' k where
  grown := h2.grown
  widens := h1.widens.trans h2.widens
  sb := h2.sb.trans h1.sb
  paid := by
    rw [← h1.paid, ← h2.paid]
    lia
  inodes := by
    intro b hb
    rw [h2.inodes b (by rw [volume_sb_of_sb h1.sb]; exact hb)]
    exact h1.inodes b hb
  type := h2.type.trans h1.type

theorem volume_bwrite (d : Disk) (b : UInt32) (data : Block) :
    (d.bwrite b data).volume = d.volume.store b data := rfl

theorem Spent.bwrite (h : Spent d i c d' i' n) (hl : Formatted d) {bn : Nat} (hbn : bn < n)
    (data : Block) : Spent d i c (d'.bwrite (blockOf d'.volume i' bn) data) i' n := by
  have hl' : d'.volume.sb.LaidOut := hl.congr h.sb
  have huse := h.grown.block_inUse hbn
  have hapart := h.grown.apart bn hbn
  have hmem := huse.mem_data hl'
  have hstore := widens_store hl' data huse hapart
  constructor
  · rw [volume_bwrite]
    exact h.grown.congr (slotAddr_store data hapart) hstore.use
  · rw [volume_bwrite]
    exact h.widens.trans hstore
  · exact h.sb
  · rw [volume_bwrite, freeBits_store hl' data hmem]
    exact h.paid
  · intro b hb
    have hne : b ≠ blockOf d'.volume i' bn := by
      intro heq
      rw [← heq, volume_sb_of_sb h.sb] at hmem
      exact hl.inode_apart_data.not_mem hb hmem
    rw [← h.inodes b hb]
    exact if_neg hne
  · exact h.type

theorem Grew.whole (h : Grew d i m d' i' n) : Whole d'.volume i' n where
  toGrown := h.grown
  needed := h.needed

theorem Grew.refl (h : Whole d.volume i m) : Grew d i m d i m where
  toSpent := by
    rw [growCost_self]
    exact Spent.refl h.toGrown
  needed := h.needed
  le := Nat.le_refl m

theorem Grew.trans (h1 : Grew d i m d' i' n) (h2 : Grew d' i' n d'' i'' k) :
    Grew d i m d'' i'' k where
  toSpent := by
    rw [← growCost_trans h1.le h2.le]
    exact h1.toSpent.trans h2.toSpent
  needed := h2.needed
  le := Nat.le_trans h1.le h2.le

theorem Grew.bwrite (h : Grew d i m d' i' n) (hl : Formatted d) {bn : Nat} (hbn : bn < n)
    (data : Block) : Grew d i m (d'.bwrite (blockOf d'.volume i' bn) data) i' n where
  toSpent := h.toSpent.bwrite hl hbn data
  needed := h.needed
  le := h.le

theorem Lacks.mono (hcc : c ≤ c') {e : Stop} (he : Lacks d c e) : Lacks d c' e :=
  And.intro he.left (Nat.lt_of_lt_of_le he.right hcc)

/-- What is missing behind some growth was missing before it. -/
theorem Lacks.back (h : Spent d i c d' i' n) {e : Stop} (he : Lacks d' c' e) :
    Lacks d (c + c') e := by
  constructor
  · exact he.left
  · have hpaid := h.paid
    have hlt := he.right
    lia

end Grew

/-!
# Specification of `bmap`
-/

section Bmap

variable {d : Disk} {i : Dinode} {m k : Nat}

theorem balloc_lacks (hl : Formatted d) :
    Meets (fun r => exists k, k < d.volume.sb.bits ∧ d.volume.used k = false ∧
        r = (d.volume.sb.dataBlock k, d.take k)) (Lacks d 1) (balloc d) := by
  apply (balloc_meets hl).mono
  · exact fun _ hr => hr
  · intro e he
    exact And.intro he.left (by rw [he.right]; exact Nat.one_pos)

theorem Spent.take (hl : Formatted d) (hk : k < d.volume.sb.bits)
    (hfree : d.volume.used k = false) {i' : Dinode} {n : Nat} {s : Slot}
    (hslots : forall t, slotAddr (d.volume.take k) i' t =
      if t = s then d.volume.sb.dataBlock k else slotAddr d.volume i t)
    (h : Grown (d.volume.take k) i' n) (htype : i'.type = i.type) :
    Spent d i 1 (d.take k) i' n where
  grown := h.congr (fun _ => rfl) (fun _ ha => ha)
  widens := by
    have hwidens := widens_assign hl hk hfree (fun _ ha => use_take hl hk ha)
      (Inode.confined_take hl i hk hfree) hslots
    exact ⟨hwidens.use, hwidens.confined, hwidens.owns⟩
  sb := rfl
  paid := Inode.card_freeBits_take hl hk hfree
  inodes := fun _ hb => Inode.inodes_take hl hk hb
  type := htype

theorem eq_zero_of_block (h : Grown d.volume i m) : blockOf d.volume i m = 0 := by
  cases Classical.em (blockOf d.volume i m = 0) with
  | inl hzero => exact hzero
  | inr hne => exact absurd ((h.block m).mp hne) (Nat.lt_irrefl m)

theorem indirect_eq_zero (h : Whole d.volume i m) (hm : m ≤ ndirectDataBlocks) :
    i.indirect = 0 := by
  cases Classical.em (i.indirect = 0) with
  | inl hzero => exact hzero
  | inr hne => exact absurd (h.needed.mp hne) (Nat.not_lt_of_le hm)

theorem bmapDirect_next (hl : Formatted d) (h : Whole d.volume i m)
    (hm : m < ndirectDataBlocks) :
    Meets (fun r => r.1 = blockOf r.2.2.volume r.2.1 m ∧ Grew d i m r.2.2 r.2.1 (m + 1))
      (Lacks d (growCost m (m + 1))) (bmapDirect m i d) := by
  have hind := indirect_eq_zero h (Nat.le_of_lt hm)
  have hmax : m < maxDataBlocks := Nat.lt_of_lt_of_le hm (Nat.le_add_right _ _)
  have hcost : growCost m (m + 1) = 1 := by
    unfold growCost
    rw [if_neg (by lia)]
    lia
  have hempty := eq_zero_of_block h.toGrown
  rw [blockOf_direct _ _ hm] at hempty
  unfold bmapDirect
  rw [if_pos hempty, hcost]
  apply Meets.bind (balloc_lacks hl)
  intro r hr
  rcases hr with ⟨k, hk, hfree, hr⟩
  rw [hr]
  have hnone : (i.setAddr m (d.volume.sb.dataBlock k)).indirect = 0 := by
    rw [Inode.indirect_setAddr_of_ne i _ (Nat.ne_of_lt hm)]
    exact hind
  have hslots := slotAddr_takeDirect (v := d.volume) (k := k) hm hind (d.volume.sb.dataBlock k)
  constructor
  · exact ((hslots (slotOf m)).trans (if_pos rfl)).symm
  · constructor
    · rw [hcost]
      exact Spent.take hl hk hfree hslots (h.toGrown.assignBlock hmax hslots
        (fun _ ha => use_take hl hk ha) (hl.dataBlock_ne_zero hk) (inUse_dataBlock hl hk)
        (by rw [hind]; exact hl.dataBlock_ne_zero hk)) rfl
    · constructor
      · exact fun hne => absurd hnone hne
      · intro hlt
        lia
    · exact Nat.le_succ m

theorem bmapIndirect_meets (hl : Formatted d) (h : Whole d.volume i m)
    (hm : ndirectDataBlocks ≤ m) :
    Meets (fun r => Spent d i (if m = ndirectDataBlocks then 1 else 0) r.2 r.1 m ∧
        r.1.indirect ≠ 0)
      (Lacks d (if m = ndirectDataBlocks then 1 else 0)) (bmapIndirect i d) := by
  unfold bmapIndirect
  cases Classical.em (m = ndirectDataBlocks) with
  | inl heq =>
      have hind := indirect_eq_zero h (Nat.le_of_eq heq)
      rw [if_pos heq, if_pos hind]
      apply Meets.bind (balloc_lacks hl)
      intro r hr
      rcases hr with ⟨k, hk, hfree, hr⟩
      rw [hr]
      have hslots := slotAddr_takeIndirect hl hk hind
      constructor
      · exact Spent.take hl hk hfree hslots (h.toGrown.assignIndirect hslots
          (fun _ ha => use_take hl hk ha) (inUse_dataBlock hl hk)
          (fun _ ha => ne_dataBlock hl hk hfree ha)) rfl
      · show (i.setAddr ndirectDataBlocks (d.volume.sb.dataBlock k)).indirect ≠ 0
        rw [Inode.indirect_setAddr_self]
        exact hl.dataBlock_ne_zero hk
  | inr hne =>
      have hind := h.needed.mpr (Nat.lt_of_le_of_ne hm (Ne.symm hne))
      rw [if_neg hne, if_neg hind]
      exact And.intro (Spent.refl h.toGrown) hind

/-- The next block of the file, at an entry of the indirect block. -/
theorem bmapEntry_next (hl : Formatted d) (h : Grown d.volume i m)
    (hge : ndirectDataBlocks ≤ m) (hlt : m < maxDataBlocks) (hind : i.indirect ≠ 0) :
    Meets (fun r => r.1 = blockOf r.2.2.volume r.2.1 m ∧ Spent d i 1 r.2.2 r.2.1 (m + 1) ∧
        r.2.1 = i)
      (Lacks d 1) (bmapEntry (m - ndirectDataBlocks) i d) := by
  have hmax : maxDataBlocks = ndirectDataBlocks + nindirectDataBlocks := rfl
  have hempty : (d.blk i.indirect).word (4 * (m - ndirectDataBlocks)) = 0 := by
    rw [← eq_zero_of_block h, blockOf_entry _ hge hind]
    rfl
  unfold bmapEntry
  dsimp only
  rw [if_pos (by lia), if_pos hempty]
  apply Meets.bind (balloc_lacks hl)
  intro r hr
  rcases hr with ⟨k, hk, hfree, hr⟩
  rw [hr]
  have hregion := (h.indirect_inUse hind).mem_data hl
  have hslots := slotAddr_takeEntry (v := d.volume) (k := k) hge hlt hind
  have hwidens := widens_takeEntry hl hk hfree h hge hlt hind
  refine ⟨((hslots (slotOf m)).trans (if_pos rfl)).symm, ?_, rfl⟩
  constructor
  · exact (h.takeEntry hl hk hfree hge hlt hind).congr (fun _ => rfl) (fun _ ha => ha)
  · exact ⟨hwidens.use, hwidens.confined, hwidens.owns⟩
  · rfl
  · have hl' : (d.volume.take k).sb.LaidOut := hl
    rw [← Inode.card_freeBits_take hl hk hfree, ← freeBits_store hl' _ hregion]
    rfl
  · intro b hb
    have hne : b ≠ i.indirect := by
      intro heq
      rw [heq] at hb
      exact hl.inode_apart_data.not_mem hb hregion
    have htake := Inode.inodes_take hl hk hb
    exact Eq.trans (if_neg hne) htake
  · rfl

omit d i in
theorem toNat_behind {bn : UInt32} (hbn : bn.toNat = m) (hge : ndirectDataBlocks ≤ m) :
    (bn - UInt32.ofNat ndirectDataBlocks).toNat = m - ndirectDataBlocks := by
  have hconst : (UInt32.ofNat ndirectDataBlocks).toNat = ndirectDataBlocks := rfl
  rw [UInt32.toNat_sub_of_le _ _ (UInt32.le_iff_toNat_le.mpr (by lia)), hconst, hbn]

theorem bmap_next (hl : Formatted d) (h : Whole d.volume i m) {bn : UInt32} (hbn : bn.toNat = m)
    (hlt : m < maxDataBlocks) :
    Meets (fun r => r.1 = blockOf r.2.2.volume r.2.1 m ∧ Grew d i m r.2.2 r.2.1 (m + 1))
      (Lacks d (growCost m (m + 1))) (bmap bn i d) := by
  unfold bmap
  cases Nat.lt_or_ge m ndirectDataBlocks with
  | inl hdirect =>
      rw [hbn, if_pos hdirect]
      exact bmapDirect_next hl h hdirect
  | inr hge =>
      have hcost : growCost m (m + 1) = (if m = ndirectDataBlocks then 1 else 0) + 1 := by
        unfold growCost
        split
        · rw [if_pos (by lia)]
          lia
        · rw [if_neg (by lia)]
          lia
      rw [hbn, if_neg (Nat.not_lt_of_le hge), hcost]
      apply Meets.bind ((bmapIndirect_meets hl h hge).mono (fun _ hr => hr)
        (fun _ he => he.mono (Nat.le_add_right _ _)))
      intro r hr
      rcases r with ⟨e, d'⟩
      rcases hr with ⟨hspent, hind⟩
      dsimp only at hspent hind ⊢
      rw [toNat_behind hbn hge]
      apply (bmapEntry_next (hl.congr hspent.sb) hspent.grown hge hlt hind).mono
      · intro r hr
        rcases hr with ⟨haddr, hentry, hsame⟩
        refine ⟨haddr, ?_⟩
        constructor
        · rw [hcost]
          exact hspent.trans hentry
        · rw [hsame]
          exact ⟨fun _ => Nat.lt_succ_of_le hge, fun _ => hind⟩
        · exact Nat.le_succ m
      · exact fun _ he => he.back hspent

theorem bmap_found (h : Whole d.volume i m) {bn : UInt32} (hlt : bn.toNat < m) :
    bmap bn i d = Except.ok (blockOf d.volume i bn.toNat, i, d) := by
  have hmax : maxDataBlocks = ndirectDataBlocks + nindirectDataBlocks := rfl
  have hle := h.le
  have hne := (h.block bn.toNat).mpr hlt
  unfold bmap
  cases Nat.lt_or_ge bn.toNat ndirectDataBlocks with
  | inl hdirect =>
      rw [blockOf_direct _ _ hdirect] at hne ⊢
      unfold bmapDirect
      rw [if_pos hdirect, if_neg hne]
  | inr hge =>
      have hind := h.needed.mpr (Nat.lt_of_le_of_lt hge hlt)
      rw [blockOf_entry _ hge hind] at hne ⊢
      have hword : (d.blk i.indirect).word (4 * (bn.toNat - ndirectDataBlocks)) ≠ 0 := hne
      unfold bmapIndirect
      rw [if_neg (Nat.not_lt_of_le hge), if_neg hind, ok_bind]
      dsimp only
      unfold bmapEntry
      dsimp only
      rw [toNat_behind rfl hge, if_pos (by lia), if_neg hword]
      rfl

/-- For a full file `bmap` uses the entry behind the indirect block. -/
theorem bmap_full (h : Whole d.volume i maxDataBlocks) {bn : UInt32}
    (hbn : bn.toNat = maxDataBlocks) : bmap bn i d = Except.error Stop.overrun := by
  have hmax : maxDataBlocks = ndirectDataBlocks + nindirectDataBlocks := rfl
  have hentries : nindirectDataBlocks = 128 := rfl
  have hge : ndirectDataBlocks ≤ maxDataBlocks := Nat.le_add_right _ _
  have hind := h.needed.mpr (by lia)
  unfold bmap bmapIndirect
  rw [hbn, if_neg (Nat.not_lt_of_le hge), if_neg hind, ok_bind]
  dsimp only
  unfold bmapEntry
  rw [toNat_behind hbn hge, if_neg (by lia)]

end Bmap

/-!
# The loop of `iappend`
-/

def blocksOf (n : Nat) : Nat := roundUp n blockSize

def maxFileSize : Nat := maxDataBlocks * blockSize

/-- Why bytes do not get to a file of `m` blocks that ends at `finish` with them. -/
def AppendStops (d : Disk) (m finish : Nat) : Stop -> Prop
  | Stop.exit => d.volume.freeBits.card < growCost m (min (blocksOf finish) maxDataBlocks)
  | Stop.overrun => maxFileSize < finish ∧ growCost m maxDataBlocks ≤ d.volume.freeBits.card

theorem le_blocksOf (offset : Nat) : offset / blockSize ≤ blocksOf offset := by
  have hsize : blockSize = 512 := rfl
  unfold blocksOf roundUp
  lia

theorem blocksOf_le_succ (offset : Nat) : blocksOf offset ≤ offset / blockSize + 1 := by
  have hsize : blockSize = 512 := rfl
  unfold blocksOf roundUp
  lia

theorem blocksOf_round {offset len : Nat} (hpos : 0 < len)
    (hlen : offset % blockSize + len ≤ blockSize) :
    blocksOf (offset + len) = offset / blockSize + 1 := by
  have hsize : blockSize = 512 := rfl
  unfold blocksOf roundUp
  lia

theorem blocksOf_mono {m n : Nat} (h : m ≤ n) : blocksOf m ≤ blocksOf n := by
  unfold blocksOf roundUp
  apply Nat.div_le_div_right
  lia

section Append

variable {d : Disk} {i : Dinode} {m : Nat}

theorem AppendStops.of_lacks {n finish : Nat} (hmn : m ≤ n)
    (hn : n ≤ min (blocksOf finish) maxDataBlocks) {e : Stop} (he : Lacks d (growCost m n) e) :
    AppendStops d m finish e := by
  rw [he.left]
  exact Nat.lt_of_lt_of_le he.right (growCost_mono hmn hn)

theorem AppendStops.back {d' : Disk} {i' : Dinode} {n finish : Nat} (h : Grew d i m d' i' n)
    (hn : n ≤ min (blocksOf finish) maxDataBlocks) {e : Stop} (he : AppendStops d' n finish e) :
    AppendStops d m finish e := by
  have hpaid := h.paid
  cases e with
  | exit =>
      have hlt : d'.volume.freeBits.card < growCost n (min (blocksOf finish) maxDataBlocks) := he
      have hsplit := growCost_trans h.le hn
      show d.volume.freeBits.card < growCost m (min (blocksOf finish) maxDataBlocks)
      lia
  | overrun =>
      have hle : growCost n maxDataBlocks ≤ d'.volume.freeBits.card := he.right
      have hsplit := growCost_trans h.le (Nat.le_trans hn (Nat.min_le_right _ _))
      constructor
      · exact he.left
      · lia

/-- One round stores into the last block, or into the next one. -/
theorem appendRound_meets (hl : Formatted d) (src : Memory) (len : UInt32) {offset : UInt32}
    (h : Whole d.volume i (blocksOf offset.toNat))
    (hlt : offset.toNat / blockSize < maxDataBlocks) :
    Meets (fun r => Grew d i (blocksOf offset.toNat) r.2 r.1 (offset.toNat / blockSize + 1))
      (Lacks d (growCost (blocksOf offset.toNat) (offset.toNat / blockSize + 1)))
      (appendRound src len offset i d) := by
  have hbn : (offset / UInt32.ofNat blockSize).toNat = offset.toNat / blockSize := by
    rw [UInt32.toNat_div]
    rfl
  unfold appendRound
  cases Nat.lt_or_ge (offset.toNat / blockSize) (blocksOf offset.toNat) with
  | inl hfound =>
      have hlast := Nat.le_antisymm (blocksOf_le_succ offset.toNat) hfound
      have hmapped := hfound
      rw [← hbn] at hmapped
      rw [bmap_found h hmapped, ok_bind, ← hlast]
      exact (Grew.refl h).bwrite hl hmapped _
  | inr hge =>
      have hlast := Nat.le_antisymm hge (le_blocksOf offset.toNat)
      rw [hlast] at h ⊢
      apply Meets.bind (bmap_next hl h hbn hlt)
      intro r hr
      rcases r with ⟨addr, i', d'⟩
      rcases hr with ⟨haddr, hgrew⟩
      dsimp only at haddr
      rw [haddr]
      exact hgrew.bwrite hl (Nat.lt_succ_self _) _

theorem appendRound_full (src : Memory) (len : UInt32) {offset : UInt32}
    (h : Whole d.volume i (blocksOf offset.toNat)) (hfull : offset.toNat = maxFileSize) :
    appendRound src len offset i d = Except.error Stop.overrun := by
  have hbn : (offset / UInt32.ofNat blockSize).toNat = maxDataBlocks := by
    rw [UInt32.toNat_div, hfull]
    rfl
  rw [hfull] at h
  unfold appendRound
  rw [bmap_full h hbn]
  rfl

theorem appendFrom_meets (hl : Formatted d) (fuel : Nat) (sz total offset : UInt32)
    (src : Memory) (h : Whole d.volume i (blocksOf offset.toNat))
    (hoff : offset.toNat ≤ maxFileSize) (hle : total.toNat ≤ sz.toNat)
    (hfuel : sz.toNat - total.toNat ≤ fuel) {finish : Nat}
    (hfinish : finish = offset.toNat + (sz.toNat - total.toNat)) :
    Meets (fun r => r.1.toNat = finish ∧ finish ≤ maxFileSize ∧
        Grew d i (blocksOf offset.toNat) r.2.2 r.2.1 (blocksOf finish))
      (AppendStops d (blocksOf offset.toNat) finish)
      (appendFrom sz fuel src total offset i d) := by
  have hsize : blockSize = 512 := rfl
  have hmax : maxFileSize = maxDataBlocks * 512 := rfl
  have hblocks : maxDataBlocks = 139 := rfl
  induction fuel generalizing d i total offset src with
  | zero =>
      have heq : finish = offset.toNat := by lia
      rw [heq]
      exact ⟨rfl, hoff, Grew.refl h⟩
  | succ fuel ih =>
      unfold appendFrom
      split
      · rename_i hlt
        have hlt' : total.toNat < sz.toNat := hlt
        have hmlen := Inode.toNat_roundLength offset hle
        dsimp only
        generalize roundLength sz total offset = len at hmlen ⊢
        cases Nat.lt_or_ge (offset.toNat / blockSize) maxDataBlocks with
        | inl hroom =>
            have htotal : (total + len).toNat = total.toNat + len.toNat := by
              rw [UInt32.toNat_add]
              have hsz := sz.toNat_lt
              lia
            have hoffset : (offset + len).toNat = offset.toNat + len.toNat := by
              rw [UInt32.toNat_add]
              lia
            have hnext : blocksOf (offset + len).toNat = offset.toNat / blockSize + 1 := by
              rw [hoffset]
              exact blocksOf_round (by lia) (by lia)
            have hlater : blocksOf (offset + len).toNat ≤ blocksOf finish :=
              blocksOf_mono (by lia)
            rw [hnext] at hlater
            have hn := le_min hlater hroom
            have hround := appendRound_meets hl src len h hroom
            apply Meets.bind (hround.mono (fun _ hr => hr)
              (fun _ he => AppendStops.of_lacks (blocksOf_le_succ offset.toNat) hn he))
            intro r hr
            rcases r with ⟨i', d'⟩
            have hgrew : Grew d i (blocksOf offset.toNat) d' i' (offset.toNat / blockSize + 1) :=
              hr
            rw [← hnext] at hgrew hn
            apply (ih (hl.congr hgrew.sb) (total + len) (offset + len) _ hgrew.whole (by lia)
              (by lia) (by lia) (by lia)).mono
            · intro r hr
              exact ⟨hr.left, hr.right.left, hgrew.trans hr.right.right⟩
            · exact fun _ he => he.back hgrew hn
        | inr hfull =>
            have heq : offset.toNat = maxFileSize := by lia
            rw [appendRound_full _ len h heq, heq]
            constructor
            · lia
            · exact Nat.zero_le _
      · rename_i hge
        have hge' : Not (total.toNat < sz.toNat) := hge
        have heq : finish = offset.toNat := by lia
        rw [heq]
        exact ⟨rfl, hoff, Grew.refl h⟩

end Append

end Mkfs
end NicoOS
