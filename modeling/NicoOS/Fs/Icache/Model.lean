import NicoOS.Fs.Inode.Model
import NicoOS.Lib.Transition

/-!
# The shared inode cache

`iget`, `inode_alloc`, `inode_dup`, `inode_lock`, `inode_unlock` and `inode_put` as
steps of tasks that switch only where they block.  A task blocks where it waits for the
semaphore of an inode and where it reads a block; a spinlock keeps only interrupts out.
-/

namespace NicoOS
namespace Fs
namespace Icache

open Inode (InodeType Dinode nicache)

/-- `struct inode`; `sem` names the task that got past `sem_wait`. -/
structure CachedInode (T D : Type) where
  disk : D
  inum : UInt32
  ref : Nat
  sem : Option T
  valid : Bool
  diskInode : Dinode

/-- Where a task is inside a call. -/
inductive Phase where
  | idle
  | loading (i : Nat)
  | freeing (i : Nat)
  deriving DecidableEq

/--
The inodes of the inode blocks, the cache, the tasks, and a record of the references
that are out: who holds one, and to which place.
-/
structure State (T D : Type) where
  stored : D -> UInt32 -> Dinode
  icache : Nat -> CachedInode T D
  phase : T -> Phase
  refs : List (T × Nat)

inductive Action (T D : Type) where
  | iget (t : T) (disk : D) (inum : UInt32)
  | alloc (t : T) (disk : D) (inum : UInt32) (typ : InodeType)
  | dup (t : T) (i : Nat) (owner : T)
  | lock (t : T) (i : Nat)
  | load (t : T) (i : Nat)
  | edit (t : T) (i : Nat) (d : Dinode)
  | update (t : T) (i : Nat)
  | unlock (t : T) (i : Nat)
  | put (t : T) (i : Nat)
  | truncate (t : T) (i : Nat) (d : Dinode)
  | free (t : T) (i : Nat)

section Steps

variable {T D : Type} [DecidableEq T] [DecidableEq D]

namespace State

def setInode (s : State T D) (i : Nat) (ip : CachedInode T D) : State T D :=
  { s with icache := fun j => if j = i then ip else s.icache j }

def setStored (s : State T D) (disk : D) (inum : UInt32) (d : Dinode) : State T D :=
  { s with stored := fun e j => if e = disk ∧ j = inum then d else s.stored e j }

def setPhase (s : State T D) (t : T) (p : Phase) : State T D :=
  { s with phase := fun u => if u = t then p else s.phase u }

/-- The inode behind a place of the cache, in its inode block. -/
def home (s : State T D) (i : Nat) : Dinode :=
  s.stored (s.icache i).disk (s.icache i).inum

def setHome (s : State T D) (i : Nat) (d : Dinode) : State T D :=
  s.setStored (s.icache i).disk (s.icache i).inum d

def setSem (s : State T D) (i : Nat) (sem : Option T) : State T D :=
  s.setInode i { s.icache i with sem := sem }

def setDinode (s : State T D) (i : Nat) (d : Dinode) : State T D :=
  s.setInode i { s.icache i with diskInode := d }

def findInode (s : State T D) (disk : D) (inum : UInt32) : Option Nat :=
  (List.range nicache).find? (fun i =>
    decide (0 < (s.icache i).ref ∧ (s.icache i).disk = disk ∧ (s.icache i).inum = inum))

def findEmpty (s : State T D) : Option Nat :=
  (List.range nicache).find? (fun i => decide ((s.icache i).ref = 0))

def addRef (s : State T D) (i : Nat) (t : T) : State T D :=
  { s.setInode i { s.icache i with ref := (s.icache i).ref + 1 } with refs := (t, i) :: s.refs }

def dropRef (s : State T D) (i : Nat) (t : T) : State T D :=
  { s.setInode i { s.icache i with ref := (s.icache i).ref - 1 } with
    refs := s.refs.erase (t, i) }

def occupy (s : State T D) (i : Nat) (disk : D) (inum : UInt32) (t : T) : State T D :=
  { s.setInode i { s.icache i with disk := disk, inum := inum, ref := 1, valid := false } with
    refs := (t, i) :: s.refs }

end State

def iget (t : T) (disk : D) (inum : UInt32) (s : State T D) : Option (State T D) :=
  match s.findInode disk inum with
  | some i => some (s.addRef i t)
  | none =>
      match s.findEmpty with
      | some i => some (s.occupy i disk inum t)
      | none => none

def inodeAlloc (t : T) (disk : D) (inum : UInt32) (typ : InodeType) (s : State T D) :
    Option (State T D) :=
  if (s.stored disk inum).type = InodeType.none.code then
    iget t disk inum (s.setStored disk inum (Dinode.fresh typ))
  else
    none

/-- `inode_dup`, for a reference that `owner` gets. -/
def inodeDup (i : Nat) (owner : T) (s : State T D) : State T D := s.addRef i owner

def inodeLock (t : T) (i : Nat) (s : State T D) : Option (State T D) :=
  let ip := s.icache i
  if 1 ≤ ip.ref ∧ ip.sem = none then
    let s := s.setSem i (some t)
    some (if ip.valid then s else s.setPhase t (Phase.loading i))
  else
    none

def inodeLoad (t : T) (i : Nat) (s : State T D) : Option (State T D) :=
  if s.phase t = Phase.loading i ∧ (s.home i).type ≠ InodeType.none.code then
    let ip := { s.icache i with diskInode := s.home i, valid := true }
    some ((s.setInode i ip).setPhase t Phase.idle)
  else
    none

def inodeUpdate (t : T) (i : Nat) (s : State T D) : Option (State T D) :=
  if (s.icache i).sem = some t then some (s.setHome i (s.icache i).diskInode) else none

/-- The task that has the semaphore changes the inode in the cache. -/
def editInode (t : T) (i : Nat) (d : Dinode) (s : State T D) : Option (State T D) :=
  if (s.icache i).sem = some t then some (s.setDinode i d) else none

def inodeUnlock (t : T) (i : Nat) (s : State T D) : Option (State T D) :=
  if (s.icache i).sem = some t ∧ 1 ≤ (s.icache i).ref then
    some (s.setSem i none)
  else
    none

def inodePut (t : T) (i : Nat) (s : State T D) : Option (State T D) :=
  let ip := s.icache i
  if 1 ≤ ip.ref ∧ ip.sem = none then
    if ip.valid ∧ ip.diskInode.nlink = 0 ∧ ip.ref = 1 then
      some ((s.setSem i (some t)).setPhase t (Phase.freeing i))
    else
      some (s.dropRef i t)
  else
    none

/-- A stretch of `itruncate` that ends with its `inode_update`. -/
def truncateInode (t : T) (i : Nat) (d : Dinode) (s : State T D) : Option (State T D) :=
  if s.phase t = Phase.freeing i then
    some ((s.setDinode i d).setHome i d)
  else
    none

/-- The end of `inode_put` behind the read in its own `inode_update`. -/
def freeInode (t : T) (i : Nat) (s : State T D) : Option (State T D) :=
  if s.phase t = Phase.freeing i then
    let d := { (s.icache i).diskInode with type := InodeType.none.code }
    let s := s.setHome i d
    let s := s.setInode i { s.icache i with diskInode := d, valid := false, sem := none }
    some ((s.dropRef i t).setPhase t Phase.idle)
  else
    none

def step (s : State T D) : Action T D -> Option (State T D)
  | Action.iget t disk inum => iget t disk inum s
  | Action.alloc t disk inum typ => inodeAlloc t disk inum typ s
  | Action.dup _ i owner => some (inodeDup i owner s)
  | Action.lock t i => inodeLock t i s
  | Action.load t i => inodeLoad t i s
  | Action.edit t i d => editInode t i d s
  | Action.update t i => inodeUpdate t i s
  | Action.unlock t i => inodeUnlock t i s
  | Action.put t i => inodePut t i s
  | Action.truncate t i d => truncateInode t i d s
  | Action.free t i => freeInode t i s

/--
What the tasks keep to.  A call starts where the task is in no other call and uses a
reference that the task holds; `iget` is for inodes with a link; the type of an inode in
use does not change, and a changed number of links is written back before the unlock.
-/
def Obeys (s : State T D) : Action T D -> Prop
  | Action.iget t disk inum => s.phase t = Phase.idle ∧ (s.stored disk inum).nlink ≠ 0
  | Action.alloc t _ _ typ => s.phase t = Phase.idle ∧ typ ≠ InodeType.none
  | Action.dup t i _ => s.phase t = Phase.idle ∧ (t, i) ∈ s.refs
  | Action.lock t i => s.phase t = Phase.idle ∧ (t, i) ∈ s.refs
  | Action.load _ _ => True
  | Action.edit t i d => s.phase t = Phase.idle ∧ d.type = (s.icache i).diskInode.type
  | Action.update t _ => s.phase t = Phase.idle
  | Action.unlock t i => s.phase t = Phase.idle ∧ (s.home i).nlink = (s.icache i).diskInode.nlink
  | Action.put t i => s.phase t = Phase.idle ∧ (t, i) ∈ s.refs
  | Action.truncate _ i d =>
      d.type = (s.icache i).diskInode.type ∧ d.nlink = (s.icache i).diskInode.nlink
  | Action.free _ _ => True

def inodesInit (stored : D -> UInt32 -> Dinode) (disk : D) : State T D where
  stored := stored
  icache := fun _ =>
    { disk := disk
      inum := 0
      ref := 0
      sem := none
      valid := false
      diskInode := Dinode.fresh InodeType.none }
  phase := fun _ => Phase.idle
  refs := []

end Steps

end Icache
end Fs
end NicoOS
