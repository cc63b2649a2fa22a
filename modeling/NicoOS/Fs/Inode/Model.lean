import NicoOS.Fs.Balloc

/-!
# Inodes

The on-disk inodes, the inode cache and the functions of `fs/inode.c`, run one
call after another on a mounted volume.
-/

namespace NicoOS
namespace Fs
namespace Inode

open Lib
open Log (Block LogHeader)

inductive InodeType where
  | none
  | file
  | directory
  | device
  deriving DecidableEq, Repr

def InodeType.code : InodeType -> UInt32
  | none => 0
  | file => 1
  | directory => 2
  | device => 3

/-!
# On-disk inodes
-/

/-- `struct dinode`; the last address is the one of the indirect block. -/
@[ext]
structure Dinode where
  type : UInt32
  nlink : UInt32
  size : UInt32
  major : Int32
  minor : Int32
  addrs : Fin (ndirectDataBlocks + 1) -> UInt32

namespace Dinode

def addr (d : Dinode) (i : Nat) : UInt32 :=
  if h : i < ndirectDataBlocks + 1 then d.addrs ⟨i, h⟩ else 0

def setAddr (d : Dinode) (i : Nat) (a : UInt32) : Dinode :=
  { d with addrs := fun j => if j.val = i then a else d.addrs j }

def indirect (d : Dinode) : UInt32 := d.addr ndirectDataBlocks

def wordAt (d : Dinode) : Nat -> UInt32
  | 0 => d.type
  | 1 => d.nlink
  | 2 => d.size
  | 3 => d.major.toUInt32
  | 4 => d.minor.toUInt32
  | i + 5 => d.addr i

def fresh (typ : InodeType) : Dinode :=
  { type := typ.code, nlink := 0, size := 0, major := 0, minor := 0, addrs := fun _ => 0 }

end Dinode

def readDinode (data : Block) (k : Nat) : Dinode :=
  let w := fun i => data.word (dinodeSize * k + 4 * i)
  { type := w 0
    nlink := w 1
    size := w 2
    major := (w 3).toInt32
    minor := (w 4).toInt32
    addrs := fun j => w (j.val + 5) }

def writeDinode (data : Block) (k : Nat) (d : Dinode) : Block :=
  data.copyIn (dinodeSize * k) dinodeSize (Memory.ofWords d.wordAt)

def getInodeBlockNo (sb : Superblock) (inum : UInt32) : UInt32 :=
  sb.inodeStart + inum / UInt32.ofNat inodesPerBlock

def placeInBlock (inum : UInt32) : Nat := (inum % UInt32.ofNat inodesPerBlock).toNat

def dinodeAt (v : Volume) (inum : UInt32) : Dinode :=
  readDinode (v.blk (getInodeBlockNo v.sb inum)) (placeInBlock inum)

def inodeUpdate (inum : UInt32) (d : Dinode) (v : Volume) : Except Stop Volume :=
  let b := getInodeBlockNo v.sb inum
  logWrite b (v.store b (writeDinode (v.blk b) (placeInBlock inum) d))

/-!
# Block addresses
-/

def entryAt (v : Volume) (ind : UInt32) (i : Nat) : UInt32 := (v.blk ind).word (4 * i)

def setEntry (v : Volume) (ind : UInt32) (i : Nat) (a : UInt32) : Volume :=
  v.store ind ((v.blk ind).setWord (4 * i) a)

def bmapDirect (bn : Nat) (d : Dinode) (v : Volume) :
    Except Stop (UInt32 × Dinode × Volume) :=
  if d.addr bn = 0 then do
    let (addr, v) <- balloc v
    Except.ok (addr, d.setAddr bn addr, v)
  else
    Except.ok (d.addr bn, d, v)

/-- The step of `bmap` that makes sure of the indirect block. -/
def bmapIndirect (d : Dinode) (v : Volume) : Except Stop (Dinode × Volume) :=
  if d.indirect = 0 then do
    let (addr, v) <- balloc v
    Except.ok (d.setAddr ndirectDataBlocks addr, v)
  else
    Except.ok (d, v)

/-- The step of `bmap` for an entry of the indirect block. -/
def bmapEntry (bn : Nat) (d : Dinode) (v : Volume) :
    Except Stop (UInt32 × Dinode × Volume) :=
  if entryAt v d.indirect bn = 0 then do
    let (addr, v) <- balloc v
    let v <- logWrite d.indirect (setEntry v d.indirect bn addr)
    Except.ok (addr, d, v)
  else
    Except.ok (entryAt v d.indirect bn, d, v)

def bmap (bn : UInt32) (d : Dinode) (v : Volume) : Except Stop (UInt32 × Dinode × Volume) :=
  if bn.toNat < maxDataBlocks then
    if bn.toNat < ndirectDataBlocks then
      bmapDirect bn.toNat d v
    else do
      let bn := bn - UInt32.ofNat ndirectDataBlocks
      let (d, v) <- bmapIndirect d v
      bmapEntry bn.toNat d v
  else
    Except.error Stop.blockNo

/-- The first loop of `itruncate`, for the direct addresses from `i` on. -/
def truncateDirect : Nat -> Nat -> Dinode -> Volume -> Except Stop (Dinode × Volume)
  | 0, _, d, v => Except.ok (d, v)
  | k + 1, i, d, v =>
      if d.addr i ≠ 0 then do
        let v <- bfree (d.addr i) v
        truncateDirect k (i + 1) (d.setAddr i 0) v
      else
        truncateDirect k (i + 1) d v

/-- The second loop of `itruncate`, for the entries from `i` on. -/
def truncateEntries (ind : UInt32) : Nat -> Nat -> Volume -> Except Stop Volume
  | 0, _, v => Except.ok v
  | k + 1, i, v =>
      if entryAt v ind i ≠ 0 then do
        let w <- bfree (entryAt v ind i) v
        truncateEntries ind k (i + 1) (setEntry w ind i 0)
      else
        truncateEntries ind k (i + 1) v

/-- The part of `itruncate` for the indirect block, whose address stays behind. -/
def truncateIndirect (d : Dinode) (v : Volume) : Except Stop Volume :=
  if d.indirect ≠ 0 then do
    let v <- truncateEntries d.indirect nindirectDataBlocks 0 v
    let v <- logWrite d.indirect v
    bfree d.indirect v
  else
    Except.ok v

def itruncate (inum : UInt32) (d : Dinode) (v : Volume) : Except Stop (Dinode × Volume) := do
  let (d, v) <- truncateDirect ndirectDataBlocks 0 d v
  let v <- truncateIndirect d v
  let d := { d with size := 0 }
  let v <- inodeUpdate inum d v
  Except.ok (d, v)

/-!
# Contents
-/

/-- The number of bytes that one round of the loops copies. -/
def roundLength (n total offset : UInt32) : UInt32 :=
  let m := UInt32.ofNat blockSize - offset % UInt32.ofNat blockSize
  if m > n - total then n - total else m

/-- The loop of `inode_read`; every round copies at least one byte. -/
def readFrom (n : UInt32) : Nat -> UInt32 -> UInt32 -> Dinode -> Volume ->
    Except Stop (List UInt8 × Dinode × Volume)
  | 0, _, _, d, v => Except.ok ([], d, v)
  | fuel + 1, total, offset, d, v =>
      if total < n then do
        let (addr, d, v) <- bmap (offset / UInt32.ofNat blockSize) d v
        let m := roundLength n total offset
        let at0 := (offset % UInt32.ofNat blockSize).toNat
        let copied := (List.range m.toNat).map (fun i => (v.blk addr).mem (at0 + i))
        let (rest, d, v) <- readFrom n fuel (total + m) (offset + m) d v
        Except.ok (copied ++ rest, d, v)
      else
        Except.ok ([], d, v)

/-- The body of the loop of `inode_write`, for `m` bytes. -/
def writeRound (src : Memory) (m offset : UInt32) (d : Dinode) (v : Volume) :
    Except Stop (Dinode × Volume) := do
  let (addr, d, v) <- bmap (offset / UInt32.ofNat blockSize) d v
  let at0 := (offset % UInt32.ofNat blockSize).toNat
  let v <- logWrite addr (v.store addr ((v.blk addr).copyIn at0 m.toNat src))
  Except.ok (d, v)

def writeFrom (n : UInt32) : Nat -> Memory -> UInt32 -> UInt32 -> Dinode -> Volume ->
    Except Stop (UInt32 × Dinode × Volume)
  | 0, _, _, offset, d, v => Except.ok (offset, d, v)
  | fuel + 1, src, total, offset, d, v =>
      if total < n then do
        let m := roundLength n total offset
        let (d, v) <- writeRound src m offset d v
        writeFrom n fuel (fun i => src (m.toNat + i)) (total + m) (offset + m) d v
      else
        Except.ok (offset, d, v)

def badRange (d : Dinode) (offset n : UInt32) : Bool :=
  decide (offset > d.size) || decide (offset + n < offset)

def readFile (offset n : UInt32) (d : Dinode) (v : Volume) :
    Except Stop (Int32 × List UInt8 × Dinode × Volume) :=
  if badRange d offset n then
    Except.ok (-1, [], d, v)
  else do
    let n := if offset + n > d.size then d.size - offset else n
    let (bytes, d, v) <- readFrom n n.toNat 0 offset d v
    Except.ok (n.toInt32, bytes, d, v)

/-- The end of `inode_write`: a file that has grown gets its new size. -/
def writeEnd (inum n offset : UInt32) (d : Dinode) (v : Volume) :
    Except Stop (Int32 × Dinode × Volume) :=
  if n > 0 ∧ offset > d.size then do
    let d := { d with size := offset }
    let v <- inodeUpdate inum d v
    Except.ok (n.toInt32, d, v)
  else
    Except.ok (n.toInt32, d, v)

def writeFile (inum : UInt32) (src : Memory) (offset n : UInt32) (d : Dinode) (v : Volume) :
    Except Stop (Int32 × Dinode × Volume) :=
  if badRange d offset n then
    Except.ok (-1, d, v)
  else if offset + n > UInt32.ofNat (maxDataBlocks * blockSize) then
    Except.ok (-1, d, v)
  else do
    let (offset, d, v) <- writeFrom n n.toNat src 0 offset d v
    writeEnd inum n offset d v

/-!
# The inode cache
-/

def nicache : Nat := 50

def ndevice : Int32 := 1

/-- `struct inode`; `locked` says that its semaphore is taken. -/
structure CachedInode where
  inum : UInt32
  ref : Nat
  locked : Bool
  valid : Bool
  diskInode : Dinode

/-- The volume and the inode cache, whose places stand for the pointers to them. -/
structure State where
  vol : Volume
  icache : Nat -> CachedInode

def State.setInode (s : State) (i : Nat) (ip : CachedInode) : State :=
  { s with icache := fun j => if j = i then ip else s.icache j }

def inodesInit (v : Volume) : State :=
  { vol := v
    icache := fun _ =>
      { inum := 0
        ref := 0
        locked := false
        valid := false
        diskInode := Dinode.fresh InodeType.none } }

/-- The loop of `iget`: the place of the inode, or the first empty place. -/
def findInode (icache : Nat -> CachedInode) (inum : UInt32) :
    Nat -> Nat -> Option Nat -> Nat ⊕ Option Nat
  | 0, _, empty => Sum.inr empty
  | k + 1, i, empty =>
      if (icache i).ref > 0 ∧ (icache i).inum = inum then
        Sum.inl i
      else
        findInode icache inum k (i + 1)
          (if empty = none ∧ (icache i).ref = 0 then some i else empty)

def iget (inum : UInt32) (s : State) : Except Stop (Nat × State) :=
  match findInode s.icache inum nicache 0 none with
  | Sum.inl i =>
      let ip := s.icache i
      Except.ok (i, s.setInode i { ip with ref := ip.ref + 1 })
  | Sum.inr (some i) =>
      let ip := s.icache i
      Except.ok (i, s.setInode i { ip with inum := inum, ref := 1, valid := false })
  | Sum.inr none => Except.error Stop.noSlot

def inodeAllocFrom (typ : InodeType) : Nat -> UInt32 -> Volume ->
    Except Stop (UInt32 × Volume)
  | 0, _, _ => Except.error Stop.noInodes
  | fuel + 1, inum, v =>
      if inum < v.sb.ninodes then
        if (dinodeAt v inum).type = InodeType.none.code then do
          let v <- inodeUpdate inum (Dinode.fresh typ) v
          Except.ok (inum, v)
        else
          inodeAllocFrom typ fuel (inum + 1) v
      else
        Except.error Stop.noInodes

def inodeAlloc (typ : InodeType) (s : State) : Except Stop (Nat × State) := do
  let (inum, v) <- inodeAllocFrom typ s.vol.sb.ninodes.toNat 1 s.vol
  iget inum { s with vol := v }

def inodeDup (i : Nat) (s : State) : State :=
  let ip := s.icache i
  s.setInode i { ip with ref := ip.ref + 1 }

def inodeLock (i : Nat) (s : State) : Except Stop State :=
  let ip := s.icache i
  if ip.ref ≥ 1 then
    if ip.locked then
      Except.error Stop.waits
    else if ip.valid then
      Except.ok (s.setInode i { ip with locked := true })
    else if (dinodeAt s.vol ip.inum).type ≠ InodeType.none.code then
      Except.ok (s.setInode i
        { ip with locked := true, valid := true, diskInode := dinodeAt s.vol ip.inum })
    else
      Except.error Stop.noType
  else
    Except.error Stop.noRef

def inodeUnlock (i : Nat) (s : State) : Except Stop State :=
  let ip := s.icache i
  if ip.locked ∧ ip.ref ≥ 1 then
    Except.ok (s.setInode i { ip with locked := false })
  else
    Except.error Stop.notHeld

/-- The branch of `inode_put` that frees the inode. -/
def freeInode (inum : UInt32) (d : Dinode) (v : Volume) : Except Stop (Dinode × Volume) := do
  let (d, v) <- itruncate inum d v
  let d := { d with type := InodeType.none.code }
  let v <- inodeUpdate inum d v
  Except.ok (d, v)

def inodePut (i : Nat) (s : State) : Except Stop State :=
  let ip := s.icache i
  if ip.ref ≥ 1 then
    if ip.locked then
      Except.error Stop.waits
    else if ip.valid ∧ ip.diskInode.nlink = 0 ∧ ip.ref = 1 then do
      let (d, v) <- freeInode ip.inum ip.diskInode s.vol
      Except.ok ({ s with vol := v }.setInode i
        { ip with diskInode := d, valid := false, ref := ip.ref - 1 })
    else
      Except.ok (s.setInode i { ip with ref := ip.ref - 1 })
  else
    Except.error Stop.noRef

/--
`inode_read`.  `answer` is what the device of the inode gives for the call, or
`none` if it has no such function.
-/
def inodeRead (i : Nat) (answer : Option (Int32 × List UInt8)) (offset n : UInt32)
    (s : State) : Except Stop (Int32 × List UInt8 × State) :=
  let ip := s.icache i
  if ip.diskInode.type = InodeType.device.code then
    if ip.diskInode.major ≥ 1 ∧ ip.diskInode.major ≤ ndevice then
      match answer with
      | none => Except.ok (-1, [], s)
      | some (r, bytes) => Except.ok (r, bytes, s)
    else
      Except.error Stop.badDevice
  else do
    let (r, bytes, d, v) <- readFile offset n ip.diskInode s.vol
    Except.ok (r, bytes, { s with vol := v }.setInode i { ip with diskInode := d })

def inodeWrite (i : Nat) (answer : Option Int32) (src : Memory) (offset n : UInt32)
    (s : State) : Except Stop (Int32 × State) :=
  let ip := s.icache i
  if ip.diskInode.type = InodeType.device.code then
    if ip.diskInode.major ≥ 1 ∧ ip.diskInode.major ≤ ndevice then
      match answer with
      | none => Except.ok (-1, s)
      | some r => Except.ok (r, s)
    else
      Except.error Stop.badDevice
  else do
    let (r, d, v) <- writeFile ip.inum src offset n ip.diskInode s.vol
    Except.ok (r, { s with vol := v }.setInode i { ip with diskInode := d })

/-!
# Sequences of calls
-/

def logBeginOp (v : Volume) : Except Stop Volume :=
  if v.lh.n + (v.outstanding + 1) * maxOpenBlocks > logSize then
    Except.error Stop.waits
  else
    Except.ok { v with outstanding := v.outstanding + 1 }

/-- `log_end_op`; the commit of the last operation empties the header. -/
def logEndOp (v : Volume) : Except Stop Volume :=
  if v.outstanding = 0 then
    Except.error Stop.noOperation
  else if v.outstanding = 1 then
    Except.ok { v with outstanding := 0, lh := { v.lh with n := 0 } }
  else
    Except.ok { v with outstanding := v.outstanding - 1 }

/--
A call of the file system on an inode by its place in the cache.  `update` is a
caller that stores link count and device numbers and calls `inode_update`.
-/
inductive Call where
  | beginOp
  | endOp
  | alloc (typ : InodeType)
  | get (inum : UInt32)
  | dup (i : Nat)
  | lock (i : Nat)
  | unlock (i : Nat)
  | put (i : Nat)
  | update (i : Nat) (nlink : UInt32) (major minor : Int32)
  | read (i : Nat) (answer : Option (Int32 × List UInt8)) (offset n : UInt32)
  | write (i : Nat) (answer : Option Int32) (src : Memory) (offset n : UInt32)

inductive Reply where
  | done
  | inode (i : Nat)
  | bytes (r : Int32) (dst : List UInt8)
  deriving DecidableEq, Repr

/-- The caller stores the fields of an inode it has locked. -/
def updateFields (i : Nat) (nlink : UInt32) (major minor : Int32) (s : State) :
    Except Stop State := do
  let ip := s.icache i
  let d := { ip.diskInode with nlink := nlink, major := major, minor := minor }
  let v <- inodeUpdate ip.inum d s.vol
  Except.ok ({ s with vol := v }.setInode i { ip with diskInode := d })

/-- One call; a caller keeps to the inodes that exist and to those it holds. -/
def perform (s : State) : Call -> Except Stop (Reply × State)
  | Call.beginOp => do
      let v <- logBeginOp s.vol
      Except.ok (Reply.done, { s with vol := v })
  | Call.endOp => do
      let v <- logEndOp s.vol
      Except.ok (Reply.done, { s with vol := v })
  | Call.alloc typ => do
      let (i, s) <- inodeAlloc typ s
      Except.ok (Reply.inode i, s)
  | Call.get inum =>
      if inum < s.vol.sb.ninodes then do
        let (i, s) <- iget inum s
        Except.ok (Reply.inode i, s)
      else
        Except.error Stop.notHeld
  | Call.dup i =>
      if (s.icache i).ref ≥ 1 then
        Except.ok (Reply.inode i, inodeDup i s)
      else
        Except.error Stop.notHeld
  | Call.lock i => do
      let s <- inodeLock i s
      Except.ok (Reply.done, s)
  | Call.unlock i => do
      let s <- inodeUnlock i s
      Except.ok (Reply.done, s)
  | Call.put i => do
      let s <- inodePut i s
      Except.ok (Reply.done, s)
  | Call.update i nlink major minor =>
      if (s.icache i).locked then do
        let s <- updateFields i nlink major minor s
        Except.ok (Reply.done, s)
      else
        Except.error Stop.notHeld
  | Call.read i answer offset n =>
      if (s.icache i).locked then do
        let (r, bytes, s) <- inodeRead i answer offset n s
        Except.ok (Reply.bytes r bytes, s)
      else
        Except.error Stop.notHeld
  | Call.write i answer src offset n =>
      if (s.icache i).locked then do
        let (r, s) <- inodeWrite i answer src offset n s
        Except.ok (Reply.bytes r [], s)
      else
        Except.error Stop.notHeld

/-- A sequence of calls with the replies to them. -/
def performAll (s : State) : List Call -> Except Stop (List Reply × State)
  | [] => Except.ok ([], s)
  | call :: rest => do
      let (reply, s) <- perform s call
      let (replies, s) <- performAll s rest
      Except.ok (reply :: replies, s)

end Inode
end Fs
end NicoOS
