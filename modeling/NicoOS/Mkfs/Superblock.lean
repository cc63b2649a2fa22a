import NicoOS.Fs.Layout

/-!
# The superblock written by `mkfs`

`mkfs/superblock.c` computes the sizes of the regions from the sector count of
the image first and their start blocks afterwards.  This module embeds that
computation with the wraparound of `uint32_t`, shows that the regions it lays
out never overlap, and settles which images hold the whole layout.
-/

namespace NicoOS
namespace Mkfs

open Fs

/-- `LBA_TO_BLOCK_NO`, on an `int` sector number converted to `uint32_t`. -/
def lbaToBlockNo (lba : Int32) : UInt32 :=
  (lba / Int32.ofNat (blockSize / sectorSize)).toUInt32

def inodeBlocks : UInt32 :=
  UInt32.ofNat (roundUp nfilesPerDisk inodesPerBlock)

/-- `ROUND_UP(bmap_bytes, BLOCK_SIZE)` in `uint32_t` arithmetic. -/
def bmapBlocksOf (bmapBytes : UInt32) : UInt32 :=
  (bmapBytes + UInt32.ofNat blockSize - 1) / UInt32.ofNat blockSize

/-- `superblock_init`; `none` stands for the exit with an error message. -/
def superblockInit (sectorCnt : Int32) : Option Superblock :=
  let size := lbaToBlockNo sectorCnt
  let inodeStart := lbaToBlockNo 2
  let logStart := inodeStart + inodeBlocks + 1
  let nlog := UInt32.ofNat (logSize + 1)
  let dataBlocks := size - inodeBlocks - nlog - lbaToBlockNo 2 - 1
  if dataBlocks > size then
    none
  else
    let bmapBlocks := bmapBlocksOf (dataBlocks / 8)
    if dataBlocks - bmapBlocks > dataBlocks then
      none
    else
      let dataBlocks := dataBlocks - bmapBlocks
      let bmapBytes := dataBlocks / 8
      let bmapBlocks := bmapBlocksOf bmapBytes
      let bmapStart := logStart + nlog + 1
      let sb : Superblock :=
        { magic := superBlockMagic
          size := size
          nblocks := dataBlocks
          ninodes := UInt32.ofNat nfilesPerDisk
          inodeStart := inodeStart
          nlog := nlog
          logStart := logStart
          bmapStart := bmapStart
          bmapBytes := bmapBytes
          bdataStart := bmapStart + bmapBlocks + 1 }
      if dataBlocks >= 100 then some sb else none

/-!
# The computed fields

All blocks before the bitmap are fixed; what depends on the image is the number
of bitmap blocks.  `overhead` counts the blocks that `superblock_init` takes off
the image size before it splits the rest into bitmap and data.
-/

def overhead : Nat := 2375

/-- Bitmap blocks of the first estimate, for `d` blocks behind the log. -/
def firstBmapBlocks (d : Nat) : Nat :=
  roundUp (d / 8) blockSize

/-- Data blocks left once the first bitmap estimate is taken off. -/
def dataBlocksOf (size : Nat) : Nat :=
  size - overhead - firstBmapBlocks (size - overhead)

theorem lbaToBlockNo_eq (lba : Int32) : lbaToBlockNo lba = lba.toUInt32 := by
  have hone : Int32.ofNat (blockSize / sectorSize) = 1 := rfl
  rw [lbaToBlockNo, hone, Int32.div_one]

theorem bmapBlocksOf_toNat {b : UInt32} (hb : b.toNat < 0x80000000) :
    (bmapBlocksOf b).toNat = roundUp b.toNat blockSize := by
  simp only [bmapBlocksOf, roundUp, UInt32.toNat_div, UInt32.toNat_sub,
    UInt32.toNat_add, blockSize]
  simp
  lia

theorem bmapBlocksOf_div_toNat (d : UInt32) :
    (bmapBlocksOf (d / 8)).toNat = roundUp (d.toNat / 8) blockSize := by
  have hd := d.toNat_lt
  have height : (d / 8).toNat = d.toNat / 8 := by simp
  rw [bmapBlocksOf_toNat]
  · rw [height]
  · rw [height]
    lia

/-- A `uint32_t` difference that does not exceed its minuend did not wrap. -/
theorem toNat_sub_of_not_gt {a b : UInt32} (h : Not (a - b > a)) :
    b.toNat ≤ a.toNat ∧ (a - b).toNat = a.toNat - b.toNat := by
  have ha := a.toNat_lt
  have hb := b.toNat_lt
  rw [gt_iff_lt, UInt32.lt_iff_toNat_lt, UInt32.toNat_sub] at h
  rw [UInt32.toNat_sub]
  lia

theorem sub_overhead_eq (size : UInt32) :
    size - inodeBlocks - UInt32.ofNat (logSize + 1) - 2 - 1 =
      size - UInt32.ofNat overhead := by
  have h : UInt32.ofNat overhead =
      inodeBlocks + UInt32.ofNat (logSize + 1) + 2 + 1 := by decide
  rw [h]
  grind

/-- What `superblock_init` stored, with the wraparound resolved. -/
structure Computed (sectorCnt : Int32) (sb : Superblock) : Prop where
  size : sb.size = sectorCnt.toUInt32
  room : overhead ≤ sb.size.toNat
  inodeStart : sb.inodeStart.toNat = 2
  ninodes : sb.ninodes.toNat = nfilesPerDisk
  logStart : sb.logStart.toNat = 2344
  nlog : sb.nlog.toNat = logSize + 1
  bmapStart : sb.bmapStart.toNat = 2376
  firstEstimate : firstBmapBlocks (sb.size.toNat - overhead) ≤
    sb.size.toNat - overhead
  nblocks : sb.nblocks.toNat = dataBlocksOf sb.size.toNat
  minimum : 100 ≤ sb.nblocks.toNat
  bmapBytes : sb.bmapBytes.toNat = sb.nblocks.toNat / 8
  bdataStart : sb.bdataStart.toNat = 2377 + roundUp sb.bmapBytes.toNat blockSize

theorem superblockInit_computed {sectorCnt : Int32} {sb : Superblock}
    (h : superblockInit sectorCnt = some sb) : Computed sectorCnt sb := by
  have htwo : lbaToBlockNo 2 = 2 := rfl
  simp only [superblockInit, htwo, lbaToBlockNo_eq sectorCnt,
    sub_overhead_eq] at h
  split at h
  · cases h
  · rename_i hsize
    split at h
    · cases h
    · rename_i hbmap
      split at h
      · rename_i hmin
        cases h
        have ho : (UInt32.ofNat overhead).toNat = overhead := rfl
        rcases toNat_sub_of_not_gt hsize with ⟨hroom, hd⟩
        rcases toNat_sub_of_not_gt hbmap with ⟨hfirst, hd2⟩
        rw [ho] at hroom hd
        rw [bmapBlocksOf_div_toNat, hd] at hfirst hd2
        have hb2 := bmapBlocksOf_div_toNat
          (sectorCnt.toUInt32 - UInt32.ofNat overhead -
            bmapBlocksOf ((sectorCnt.toUInt32 - UInt32.ofNat overhead) / 8))
        rw [hd2] at hb2
        have hlt := sectorCnt.toUInt32.toNat_lt
        exact
          { size := rfl
            room := hroom
            inodeStart := rfl
            ninodes := rfl
            logStart := rfl
            nlog := rfl
            bmapStart := rfl
            firstEstimate := hfirst
            nblocks := hd2
            minimum := by simpa [UInt32.le_iff_toNat_le] using hmin
            bmapBytes := by simp
            bdataStart := by
              have hstart : (2 + inodeBlocks + 1 + UInt32.ofNat (logSize + 1) +
                  1 : UInt32).toNat = 2376 := by decide
              simp only [UInt32.toNat_add, hb2, hstart, UInt32.toNat_div, hd2]
              simp only [roundUp, blockSize] at hfirst ⊢
              simp
              lia }
      · cases h

/-!
# Overlap and room

The regions never overlap.  Their last block, however, is computed with one gap
block behind the log and one behind the bitmap that the split never took off
the image size, so the data region can reach past the end of the disk.
-/

theorem computed_regionsApart {sectorCnt : Int32} {sb : Superblock}
    (h : Computed sectorCnt sb) : sb.RegionsApart := by
  have hinodes : roundUp nfilesPerDisk inodesPerBlock = 2341 := rfl
  have hlog : logSize + 1 = 31 := rfl
  simp only [Superblock.RegionsApart, Superblock.regions, List.pairwise_cons,
    List.mem_cons, List.not_mem_nil, or_false, forall_eq_or_imp, forall_eq,
    List.Pairwise.nil, and_true, Region.Apart, Region.finish, Superblock.superRegion,
    Superblock.inodeRegion,
    Superblock.logRegion, Superblock.bmapRegion, Superblock.dataRegion,
    h.inodeStart, h.ninodes, h.logStart, h.nlog, h.bmapStart, h.bdataStart,
    hinodes, hlog]
  lia

/--
The image size leaves room for the two uncounted gap blocks: what the data split
rounds away, and what the second bitmap estimate gives back, is at least two.
-/
def RoomForGaps (sectorCnt : Int32) : Prop :=
  let d := sectorCnt.toUInt32.toNat - overhead
  let rest := d - (d + 4088) / 4096
  2 ≤ rest % 8 + ((d + 4088) / 4096 - (rest + 4088) / 4096)

instance (sectorCnt : Int32) : Decidable (RoomForGaps sectorCnt) :=
  inferInstanceAs (Decidable (_ ≤ _))

theorem firstBmapBlocks_eq (d : Nat) :
    firstBmapBlocks d = (d + 4088) / 4096 := by
  simp only [firstBmapBlocks, roundUp, blockSize]
  lia

theorem computed_regionsInside_iff {sectorCnt : Int32} {sb : Superblock}
    (h : Computed sectorCnt sb) :
    sb.RegionsInside <-> RoomForGaps sectorCnt := by
  have hinodes : roundUp nfilesPerDisk inodesPerBlock = 2341 := rfl
  have hlog : logSize + 1 = 31 := rfl
  have hsecond : roundUp sb.bmapBytes.toNat blockSize =
      (sb.nblocks.toNat + 4088) / 4096 := by
    rw [h.bmapBytes]
    exact firstBmapBlocks_eq sb.nblocks.toNat
  have hnblocks := h.nblocks
  have hroom := h.room
  have hmin := h.minimum
  have hfirst := h.firstEstimate
  simp only [dataBlocksOf, firstBmapBlocks_eq] at hnblocks hfirst
  simp only [Superblock.RegionsInside, Superblock.regions, List.mem_cons,
    List.not_mem_nil, or_false, forall_eq_or_imp, forall_eq, Region.finish,
    Superblock.superRegion, Superblock.inodeRegion, Superblock.logRegion,
    Superblock.bmapRegion, Superblock.dataRegion, h.inodeStart, h.ninodes,
    h.logStart, h.nlog, h.bmapStart, h.bdataStart, hinodes, hlog,
    h.bmapBytes, RoomForGaps, ← h.size, overhead] at *
  lia

/-- Every block `balloc` can hand out and every inode block exists on the disk. -/
def BlocksExist (sb : Superblock) : Prop :=
  (forall k, k < 8 * sb.bmapBytes.toNat ->
    sb.bdataStart.toNat + k < sb.size.toNat) ∧
  (forall inum, inum < sb.ninodes.toNat ->
    sb.inodeStart.toNat + inum / inodesPerBlock < sb.size.toNat)

theorem blocksExist_of_regionsInside {sb : Superblock}
    (h : sb.RegionsInside) : BlocksExist sb := by
  constructor
  · intro k hk
    have hdata := h sb.dataRegion (by simp [Superblock.regions])
    simp only [Superblock.dataRegion, Region.finish] at hdata
    lia
  · intro inum hinum
    have hinode := h sb.inodeRegion (by simp [Superblock.regions])
    have hper : inodesPerBlock = 7 := rfl
    simp only [Superblock.inodeRegion, Region.finish, roundUp, hper] at hinode ⊢
    lia

/--
The layout is sound: no two regions overlap, none ends past the disk, and so
every block number derived from the superblock exists.
-/
def LayoutSound (sb : Superblock) : Prop :=
  sb.RegionsApart ∧ sb.RegionsInside ∧ BlocksExist sb

theorem superblockInit_layoutSound_iff (sectorCnt : Int32) (sb : Superblock)
    (h : superblockInit sectorCnt = some sb) :
    LayoutSound sb <-> RoomForGaps sectorCnt := by
  have hcomputed := superblockInit_computed h
  constructor
  · intro hsound
    exact (computed_regionsInside_iff hcomputed).mp hsound.right.left
  · intro hroom
    have hinside := (computed_regionsInside_iff hcomputed).mpr hroom
    exact And.intro (computed_regionsApart hcomputed)
      (And.intro hinside (blocksExist_of_regionsInside hinside))

/-- An image of 163842 sectors holds its whole layout. -/
theorem superblockInit_layoutSound_163842 :
    exists sb, superblockInit 163842 = some sb ∧ LayoutSound sb := by
  cases h : superblockInit 163842 with
  | none => exact absurd h (by decide)
  | some sb =>
      exists sb
      constructor
      · rfl
      · exact (superblockInit_layoutSound_iff 163842 sb h).mpr (by decide)

/-- On the 80 MB image of `make_fs_img.sh` the last data block does not exist. -/
theorem superblockInit_not_layoutSound_80MB :
    exists sb, superblockInit 163840 = some sb ∧ Not (LayoutSound sb) := by
  have hends : (superblockInit 163840).map
      (fun sb => (sb.dataRegion.finish, sb.size.toNat)) =
        some (163841, 163840) := by decide
  cases h : superblockInit 163840 with
  | none =>
      rw [h] at hends
      cases hends
  | some sb =>
      rw [h] at hends
      simp only [Option.map_some, Option.some.injEq, Prod.mk.injEq] at hends
      exists sb
      constructor
      · rfl
      · intro hsound
        have hdata := hsound.right.left sb.dataRegion
          (by simp [Superblock.regions])
        lia

end Mkfs
end NicoOS
