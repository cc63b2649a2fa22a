import NicoOS.Fs.Inode.Integrity

/-!
# Directories

The functions of `fs/dir.c`: a directory is a file of records, each an inode number
and a name.
-/

namespace NicoOS
namespace Fs
namespace Dir

open Lib
open Inode (State CachedInode InodeType Call)

def direntNameLength : Nat := 60

def direntSize : Nat := 64

/-- `struct dirent`; only the first `direntNameLength` bytes of the name are part of it. -/
structure Dirent where
  inum : UInt32
  name : Memory

def readDirent (bytes : List UInt8) : Dirent :=
  let mem : Memory := fun i => bytes.getD i 0
  { inum := UInt32.ofNat (mem.word 0)
    name := fun i => mem (4 + i) }

def Dirent.bytes (e : Dirent) : Memory :=
  fun i => if i < 4 then Memory.ofWords (fun _ => e.inum) i else e.name (i - 4)

/-!
# Names
-/

/-- `strcmp`, for names that end within `fuel` bytes. -/
def strcmp (str1 str2 : Memory) : Nat -> Nat -> Int
  | 0, _ => 0
  | fuel + 1, i =>
      if str1 i ≠ str2 i then
        (if str1 i > str2 i then 1 else -1)
      else if str1 i = 0 then 0
      else strcmp str1 str2 fuel (i + 1)

/-- The name that starts at byte `i`, as the list of its bytes. -/
def labelFrom (name : Memory) : Nat -> Nat -> List UInt8
  | 0, _ => []
  | fuel + 1, i => if name i = 0 then [] else name i :: labelFrom name fuel (i + 1)

def label (name : Memory) : List UInt8 := labelFrom name direntNameLength 0

def nameFits (name : Memory) : Bool :=
  (List.range (direntNameLength + 1)).any (fun i => name i == 0)

/-- `strcpy` of `"."` and `".."` into a buffer that holds `junk`. -/
def dotName (junk : Memory) : Memory :=
  fun i => if i = 0 then 46 else if i = 1 then 0 else junk i

def dotdotName (junk : Memory) : Memory :=
  fun i => if i = 0 ∨ i = 1 then 46 else if i = 2 then 0 else junk i

/-!
# Operations
-/

/-- The assertions that the functions share: the directory is one, and it is locked. -/
def holding (i : Nat) (s : State) : Bool :=
  decide ((s.icache i).diskInode.type = InodeType.directory.code) && (s.icache i).locked

/-- The loop of `dir_lookup`: the inode number and the offset of the record. -/
def dirLookupFrom (i : Nat) (name : Memory) : Nat -> UInt32 -> State ->
    Except Stop (Option (UInt32 × UInt32) × State)
  | 0, _, s => Except.ok (none, s)
  | fuel + 1, offset, s =>
      if offset < (s.icache i).diskInode.size then do
        let (n, bytes, s) <- Inode.inodeRead i none offset (UInt32.ofNat direntSize) s
        if n < 0 then
          dirLookupFrom i name fuel (offset + UInt32.ofNat direntSize) s
        else if n.toInt ≠ direntSize then
          Except.error Stop.badRecord
        else
          let dirent := readDirent bytes
          if dirent.inum ≠ 0 ∧ strcmp dirent.name name direntNameLength 0 = 0 then
            Except.ok (some (dirent.inum, offset), s)
          else
            dirLookupFrom i name fuel (offset + UInt32.ofNat direntSize) s
      else
        Except.ok (none, s)

/-- The part of `dir_lookup` before the call of `iget`. -/
def dirScan (i : Nat) (name : Memory) (s : State) :
    Except Stop (Option (UInt32 × UInt32) × State) :=
  if holding i s ∧ nameFits name ∧ (s.icache i).diskInode.size.toNat % direntSize = 0 then
    dirLookupFrom i name (s.icache i).diskInode.size.toNat 0 s
  else
    Except.error Stop.badRecord

/-- `dir_lookup`: the place of the inode in the cache and the offset of the record. -/
def dirLookup (i : Nat) (name : Memory) (s : State) :
    Except Stop (Option (Nat × UInt32) × State) := do
  let (found, s) <- dirScan i name s
  match found with
  | none => Except.ok (none, s)
  | some (inum, offset) => do
      let (j, s) <- Inode.iget inum s
      Except.ok (some (j, offset), s)

/-- The loop of `dir_link`, or `none` where it returns from the loop. -/
def emptyFrom (i : Nat) : Nat -> UInt32 -> State -> Except Stop (Option UInt32 × State)
  | 0, offset, s => Except.ok (some offset, s)
  | fuel + 1, offset, s =>
      if offset < (s.icache i).diskInode.size then do
        let (n, bytes, s) <- Inode.inodeRead i none offset (UInt32.ofNat direntSize) s
        if n < 0 then
          Except.ok (none, s)
        else if n.toInt ≠ direntSize then
          Except.error Stop.badRecord
        else if (readDirent bytes).inum = 0 then
          Except.ok (some offset, s)
        else
          emptyFrom i fuel (offset + n.toUInt32) s
      else
        Except.ok (some offset, s)

def linkAt (i : Nat) (newDirent : Dirent) (offset : UInt32) (s : State) :
    Except Stop (Int32 × State) := do
  let (n, s) <- Inode.inodeWrite i none newDirent.bytes offset (UInt32.ofNat direntSize) s
  if n < 0 then
    Except.ok (-1, s)
  else if n.toInt = direntSize then
    Except.ok (0, s)
  else
    Except.error Stop.badRecord

def dirLink (i : Nat) (newDirent : Dirent) (s : State) : Except Stop (Int32 × State) :=
  if holding i s ∧ newDirent.inum ≠ 0 ∧ newDirent.name 0 ≠ 0 then do
    let (ip, s) <- dirLookup i newDirent.name s
    match ip with
    | some (j, _) => do
        let s <- Inode.inodePut j s
        Except.ok (-1, s)
    | none => do
        let (offset, s) <- emptyFrom i (s.icache i).diskInode.size.toNat 0 s
        match offset with
        | none => Except.ok (-1, s)
        | some offset => linkAt i newDirent offset s
  else
    Except.error Stop.badRecord

def dirUnlink (i : Nat) (offset : UInt32) (s : State) : Except Stop (Int32 × State) :=
  if holding i s ∧ (s.icache i).diskInode.size > offset ∧ offset.toNat % direntSize = 0 then do
    let (n, bytes, s) <- Inode.inodeRead i none offset (UInt32.ofNat direntSize) s
    if n.toInt = direntSize ∧ (readDirent bytes).inum ≠ 0 then do
      let (n, s) <- Inode.inodeWrite i none (fun _ => 0) offset (UInt32.ofNat direntSize) s
      if n.toInt ≠ direntSize then
        Except.ok (-1, s)
      else
        Except.ok (0, s)
    else
      Except.error Stop.badRecord
  else
    Except.error Stop.badRecord

def isemptyFrom (i : Nat) : Nat -> UInt32 -> State -> Except Stop (Bool × State)
  | 0, _, s => Except.ok (true, s)
  | fuel + 1, offset, s =>
      if offset < (s.icache i).diskInode.size then do
        let (n, bytes, s) <- Inode.inodeRead i none offset (UInt32.ofNat direntSize) s
        if n < 0 then
          Except.ok (true, s)
        else if n.toInt ≠ direntSize then
          Except.error Stop.badRecord
        else if (readDirent bytes).inum ≠ 0 then
          Except.ok (false, s)
        else
          isemptyFrom i fuel (offset + n.toUInt32) s
      else
        Except.ok (true, s)

def dirIsempty (i : Nat) (s : State) : Except Stop (Bool × State) :=
  if holding i s then
    isemptyFrom i (s.icache i).diskInode.size.toNat (UInt32.ofNat (direntSize * 2)) s
  else
    Except.error Stop.badRecord

/-- `dir_make`, where `junk` is what the name buffer on the stack held. -/
def dirMake (p i : Nat) (junk : Memory) (s : State) : Except Stop (Int32 × State) :=
  if holding p s ∧ holding i s then do
    let (r, s) <- dirLink i { inum := (s.icache i).inum, name := dotName junk } s
    if r < 0 then
      Except.ok (-1, s)
    else do
      let (r, s) <- dirLink i { inum := (s.icache p).inum, name := dotdotName (dotName junk) } s
      if r < 0 then
        Except.ok (-1, s)
      else do
        let d := (s.icache p).diskInode
        let s <- Inode.updateFields p (d.nlink + 1) d.major d.minor s
        Except.ok (0, s)
  else
    Except.error Stop.badRecord

end Dir
end Fs
end NicoOS
