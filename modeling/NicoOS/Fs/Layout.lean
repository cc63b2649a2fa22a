import Mathlib.Tactic.Common

/-!
# On-disk layout

The sizes shared by the kernel and by `mkfs`, the superblock they exchange,
and the block regions a superblock describes.
-/

namespace NicoOS
namespace Fs

/-!
# Sizes

The constants of `kernel/buf.h`, `fs/inodes.h`, `fs/log.h` and
`fs/fs.h`.
-/

def blockSize : Nat := 512

def sectorSize : Nat := 512

def bitsPerBlock : Nat := blockSize * 8

def ndirectDataBlocks : Nat := 11

def nindirectDataBlocks : Nat := blockSize / 4

def maxDataBlocks : Nat := ndirectDataBlocks + nindirectDataBlocks

/-- Size of the packed on-disk inode: five words and twelve addresses. -/
def dinodeSize : Nat := 4 * (5 + (ndirectDataBlocks + 1))

def inodesPerBlock : Nat := blockSize / dinodeSize

def nfilesPerDisk : Nat := 4096 * 4

def maxOpenBlocks : Nat := 10

def logSize : Nat := maxOpenBlocks * 3

def rootInum : Nat := 1

def superBlockMagic : UInt32 := 0xF2E3EACF

/-- The `ROUND_UP` macro: the number of steps needed to cover the value. -/
def roundUp (x step : Nat) : Nat :=
  (x + step - 1) / step

structure Superblock where
  magic : UInt32
  size : UInt32
  nblocks : UInt32
  ninodes : UInt32
  inodeStart : UInt32
  nlog : UInt32
  logStart : UInt32
  bmapStart : UInt32
  bmapBytes : UInt32
  bdataStart : UInt32
  deriving DecidableEq, Repr

/-!
# Regions

A region is a run of consecutive block numbers, given by its first block and
its length, without wraparound.
-/

structure Region where
  start : Nat
  length : Nat
  deriving DecidableEq, Repr

namespace Region

def finish (r : Region) : Nat :=
  r.start + r.length

def Mem (r : Region) (b : Nat) : Prop :=
  r.start ≤ b ∧ b < r.finish

def Apart (r s : Region) : Prop :=
  r.finish ≤ s.start ∨ s.finish ≤ r.start

instance (r : Region) (b : Nat) : Decidable (r.Mem b) :=
  inferInstanceAs (Decidable (_ ∧ _))

instance (r s : Region) : Decidable (r.Apart s) :=
  inferInstanceAs (Decidable (_ ∨ _))

theorem Apart.not_mem {r s : Region} (h : r.Apart s) {b : Nat}
    (hr : r.Mem b) : Not (s.Mem b) := by
  intro hs
  rcases hr with ⟨hr1, hr2⟩
  rcases hs with ⟨hs1, hs2⟩
  cases h with
  | inl h => lia
  | inr h => lia

end Region

namespace Superblock

/-- Block 1, the block that holds the superblock itself. -/
def superRegion : Region := ⟨1, 1⟩

def inodeRegion (sb : Superblock) : Region :=
  ⟨sb.inodeStart.toNat, roundUp sb.ninodes.toNat inodesPerBlock⟩

def logRegion (sb : Superblock) : Region :=
  ⟨sb.logStart.toNat, sb.nlog.toNat⟩

def bmapRegion (sb : Superblock) : Region :=
  ⟨sb.bmapStart.toNat, roundUp sb.bmapBytes.toNat blockSize⟩

def dataRegion (sb : Superblock) : Region :=
  ⟨sb.bdataStart.toNat, 8 * sb.bmapBytes.toNat⟩

def regions (sb : Superblock) : List Region :=
  [superRegion, sb.inodeRegion, sb.logRegion, sb.bmapRegion, sb.dataRegion]

/-- No block belongs to two regions. -/
def RegionsApart (sb : Superblock) : Prop :=
  sb.regions.Pairwise Region.Apart

/-- Every region ends at or before the last block of the disk. -/
def RegionsInside (sb : Superblock) : Prop :=
  forall r, r ∈ sb.regions -> r.finish ≤ sb.size.toNat

end Superblock

end Fs
end NicoOS
