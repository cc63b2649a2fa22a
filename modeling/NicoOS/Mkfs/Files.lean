import NicoOS.Fs.Inode.Model
import NicoOS.Mkfs.Superblock

/-!
# Files written by `mkfs`

`mkfs/fs.c` and `write_to_fsfile` of `mkfs/mkfs.c`.  The image is a function of the block
number; the packed inodes and the bits of the bitmap are those of the kernel's model.
-/

namespace NicoOS
namespace Mkfs

open Lib
open Fs
open Fs.Log (Block)
open Fs.Inode (Dinode InodeType readDinode writeDinode getInodeBlockNo placeInBlock roundLength)

/-- The program exits with a message, or uses an entry behind the indirect block. -/
inductive Stop where
  | exit
  | overrun
  deriving DecidableEq

structure Disk where
  sb : Superblock
  blk : UInt32 -> Block

def Disk.bwrite (d : Disk) (b : UInt32) (data : Block) : Disk :=
  { d with blk := fun c => if c = b then data else d.blk c }

def blockzero (b : UInt32) (d : Disk) : Disk := d.bwrite b Bytes.zero

/-!
# Allocation
-/

def takeBit (b : UInt32) (bit : Nat) (d : Disk) : UInt32 × Disk :=
  let d := d.bwrite b ((d.blk b).setBit bit)
  let dblockNo :=
    d.sb.bdataStart + (b - d.sb.bmapStart) * UInt32.ofNat bitsPerBlock + UInt32.ofNat bit
  (dblockNo, blockzero dblockNo d)

/-- The outer loop of `balloc`; every round takes at least one of the bits. -/
def ballocFrom (d : Disk) : Nat -> UInt32 -> UInt32 -> Except Stop (UInt32 × Disk)
  | 0, _, _ => Except.error Stop.exit
  | fuel + 1, bmapBits, b =>
      if bmapBits > 0 then
        let bits :=
          if UInt32.ofNat bitsPerBlock > bmapBits then bmapBits else UInt32.ofNat bitsPerBlock
        match findClear (d.blk b) bits.toNat 0 with
        | some bit => Except.ok (takeBit b bit d)
        | none => ballocFrom d fuel (bmapBits - bits) (b + 1)
      else
        Except.error Stop.exit

def balloc (d : Disk) : Except Stop (UInt32 × Disk) :=
  let bmapBits := d.sb.bmapBytes * 8
  ballocFrom d bmapBits.toNat bmapBits d.sb.bmapStart

def iread (d : Disk) (inum : UInt32) : Dinode :=
  readDinode (d.blk (getInodeBlockNo d.sb inum)) (placeInBlock inum)

def iwrite (i : Dinode) (inum : UInt32) (d : Disk) : Disk :=
  let b := getInodeBlockNo d.sb inum
  d.bwrite b (writeDinode (d.blk b) (placeInBlock inum) i)

def iallocFrom (typ : InodeType) (d : Disk) : Nat -> UInt32 -> Except Stop (UInt32 × Disk)
  | 0, _ => Except.error Stop.exit
  | fuel + 1, inum =>
      if inum < d.sb.ninodes then
        if (iread d inum).type = InodeType.none.code then
          Except.ok (inum, iwrite (Dinode.fresh typ) inum d)
        else
          iallocFrom typ d fuel (inum + 1)
      else
        Except.error Stop.exit

def ialloc (typ : InodeType) (d : Disk) : Except Stop (UInt32 × Disk) :=
  iallocFrom typ d d.sb.ninodes.toNat 1

/-!
# Block addresses
-/

def bmapDirect (bn : Nat) (i : Dinode) (d : Disk) : Except Stop (UInt32 × Dinode × Disk) :=
  if i.addr bn = 0 then do
    let (addr, d) <- balloc d
    Except.ok (addr, i.setAddr bn addr, d)
  else
    Except.ok (i.addr bn, i, d)

/-- The step of `bmap` that makes sure of the indirect block. -/
def bmapIndirect (i : Dinode) (d : Disk) : Except Stop (Dinode × Disk) :=
  if i.indirect = 0 then do
    let (addr, d) <- balloc d
    Except.ok (i.setAddr ndirectDataBlocks addr, d)
  else
    Except.ok (i, d)

/-- The step of `bmap` for an entry of the indirect block, which lies in `buf`. -/
def bmapEntry (bn : Nat) (i : Dinode) (d : Disk) : Except Stop (UInt32 × Dinode × Disk) :=
  let buf := d.blk i.indirect
  if bn < nindirectDataBlocks then
    if buf.word (4 * bn) = 0 then do
      let (addr, d) <- balloc d
      Except.ok (addr, i, d.bwrite i.indirect (buf.setWord (4 * bn) addr))
    else
      Except.ok (buf.word (4 * bn), i, d)
  else
    Except.error Stop.overrun

def bmap (bn : UInt32) (i : Dinode) (d : Disk) : Except Stop (UInt32 × Dinode × Disk) :=
  if bn.toNat < ndirectDataBlocks then
    bmapDirect bn.toNat i d
  else do
    let bn := bn - UInt32.ofNat ndirectDataBlocks
    let (i, d) <- bmapIndirect i d
    bmapEntry bn.toNat i d

/-- The body of the loop of `iappend`, for `m` bytes. -/
def appendRound (src : Memory) (m offset : UInt32) (i : Dinode) (d : Disk) :
    Except Stop (Dinode × Disk) := do
  let (addr, i, d) <- bmap (offset / UInt32.ofNat blockSize) i d
  let at0 := (offset % UInt32.ofNat blockSize).toNat
  Except.ok (i, d.bwrite addr ((d.blk addr).copyIn at0 m.toNat src))

/-- The loop of `iappend`; every round copies at least one byte. -/
def appendFrom (sz : UInt32) : Nat -> Memory -> UInt32 -> UInt32 -> Dinode -> Disk ->
    Except Stop (UInt32 × Dinode × Disk)
  | 0, _, _, offset, i, d => Except.ok (offset, i, d)
  | fuel + 1, src, total, offset, i, d =>
      if total < sz then do
        let m := roundLength sz total offset
        let (i, d) <- appendRound src m offset i d
        appendFrom sz fuel (fun k => src (m.toNat + k)) (total + m) (offset + m) i d
      else
        Except.ok (offset, i, d)

def iappend (inum : UInt32) (src : Memory) (sz : UInt32) (d : Disk) : Except Stop Disk := do
  let i := iread d inum
  let (offset, i, d) <- appendFrom sz sz.toNat src 0 i.size i d
  Except.ok (iwrite { i with size := offset } inum d)

/-!
# Directories and files
-/

def direntNameLength : Nat := 60

def direntSize : Nat := 64

/-- A `struct dirent`; behind the end of the name is what the stack held. -/
def dirent (inum : UInt32) (name : List UInt8) (stack : Memory) : Memory := fun k =>
  if k < 4 then Memory.ofWords (fun _ => inum) k
  else if h : k - 4 < name.length then name[k - 4]
  else if k - 4 = name.length then 0
  else stack k

def dirLink (dirinum : UInt32) (name : List UInt8) (childInum : UInt32) (stack : Memory)
    (d : Disk) : Except Stop Disk :=
  if name.length ≥ direntNameLength then
    Except.ok d
  else
    iappend dirinum (dirent childInum name stack) (UInt32.ofNat direntSize) d

def dirMake (parentinum childinum : UInt32) (stack : Memory) (d : Disk) : Except Stop Disk := do
  let d <- dirLink childinum [46] childinum stack d
  let d <- dirLink childinum [46, 46] parentinum stack d
  let inode := iread d parentinum
  Except.ok (iwrite { inode with nlink := inode.nlink + 1 } parentinum d)

def createInode (major minor : Int32) (typ : InodeType) (d : Disk) :
    Except Stop (UInt32 × Disk) := do
  let (inum, d) <- ialloc typ d
  let inode := iread d inum
  Except.ok (inum, iwrite
    { inode with nlink := 1, major := major, minor := minor, size := 0 } inum d)

def createFile (major minor : Int32) (typ : InodeType) (pinum : UInt32) (name : List UInt8)
    (stack : Memory) (d : Disk) : Except Stop (UInt32 × Disk) := do
  let (inum, d) <- createInode major minor typ d
  let d <- (if pinum ≠ 0 then dirLink pinum name inum stack d else Except.ok d)
  if typ = InodeType.directory then do
    let d <- dirMake (if pinum = 0 then inum else pinum) inum stack d
    Except.ok (inum, d)
  else
    Except.ok (inum, d)

/-- A file of the host: whether it can be opened, held in memory and read. -/
structure HostFile where
  length : Nat
  content : Memory
  opens : Bool
  fits : Bool
  reads : Bool

def HostFile.size (file : HostFile) : UInt32 := UInt32.ofNat file.length

/-- `ckfopen`, `ckmalloc` and `ckfread`; reading one item of no bytes fails. -/
def HostFile.loaded (file : HostFile) : Bool :=
  file.opens && file.fits && file.reads && decide (file.size ≠ 0)

/-- `write_to_fsfile`, with the number of the new inode. -/
def writeToFsfile (parentInum : UInt32) (file : HostFile) (name : List UInt8) (stack : Memory)
    (d : Disk) : Except Stop (UInt32 × Disk) :=
  if file.loaded then do
    let (inum, d) <- createFile 0 0 InodeType.file parentInum name stack d
    let d <- iappend inum file.content file.size d
    Except.ok (inum, d)
  else
    Except.error Stop.exit

end Mkfs
end NicoOS
