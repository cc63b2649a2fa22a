import NicoOS.Kernel.Vm.Copyout
import NicoOS.Kernel.Vm.Release

/-!
# Executing programs

`proc_execv` from the bytes of the file: the ELF header and the program headers, the
arguments on the new stack, the name of the task and the release of the old address
space.
-/

namespace NicoOS
namespace Kernel
namespace Vm

open Lib

/-!
# Headers
-/

def inodeFile : Nat := 1

def elfMagic : Nat := 0x464C457F

def etExec : Nat := 2

/-- The fields of `struct elfhdr` that `proc_execv` reads. -/
structure Elfhdr where
  magic : Nat
  type : Nat
  entry : Nat
  phoff : Nat
  phnum : Nat

def bytesMemory (bytes : List UInt8) : Memory := fun i => bytes.getD i 0

def halfAt (bytes : List UInt8) (a : Nat) : Nat :=
  (bytesMemory bytes a).toNat + 256 * (bytesMemory bytes (a + 1)).toNat

def wordAt (bytes : List UInt8) (a : Nat) : Nat := (bytesMemory bytes).word a

/-- `inode_read` of a whole structure of `n` bytes. -/
def readRecord (file : List UInt8) (off n : Nat) : Option (List UInt8) :=
  (inodeRead file off n).bind (fun bytes => if bytes.length ≠ n then none else some bytes)

def readElfhdr (file : List UInt8) : Option Elfhdr :=
  (readRecord file 0 52).map (fun bytes =>
    { magic := wordAt bytes 0
      type := halfAt bytes 16
      entry := wordAt bytes 24
      phoff := wordAt bytes 28
      phnum := halfAt bytes 44 })

def verifyElfhdr (eh : Elfhdr) : Bool :=
  if eh.magic ≠ elfMagic then false
  else if eh.type ≠ etExec then false
  else true

def readProghdr (file : List UInt8) (off : Nat) : Option Proghdr :=
  (readRecord file off 32).map (fun bytes =>
    { offset := wordAt bytes 4
      vaddr := wordAt bytes 8
      filesz := wordAt bytes 16
      memsz := wordAt bytes 20 })

/-- The headers in the order in which `load_proghdrs` reads them. -/
def readProghdrs (file : List UInt8) : Nat -> Nat -> List (Option Proghdr)
  | 0, _ => []
  | k + 1, off => readProghdr file off :: readProghdrs file k (wrap (off + 32))

/-- A verified program, from the type and the contents of the inode behind the path. -/
def program (inode : Option (Nat × List UInt8)) : Option (List UInt8 × Elfhdr) :=
  match inode with
  | none => none
  | some (type, file) =>
      if type ≠ inodeFile then none
      else
        match readElfhdr file with
        | none => none
        | some eh => if verifyElfhdr eh then some (file, eh) else none

/-!
# Arguments
-/

def pointerBytes (p : Nat) : List UInt8 :=
  [UInt8.ofNat p, UInt8.ofNat (p / 256), UInt8.ofNat (p / 65536), UInt8.ofNat (p / 16777216)]

/-- `argstr_ptr - len` for the string with its final 0. -/
def below (ptr : Nat) (arg : List UInt8) : Nat :=
  wrap (ptr + (0x100000000 - (arg.length + 1) % 0x100000000))

def argvPtr (argc : Nat) : Nat := wrap (kernelBase + (0x100000000 - 4 * argc % 0x100000000))

/-- The loop of `copy_argv_into_stack` from argument `i` on. -/
def copyArgsFrom (vm : AddressSpace) (argv : Nat) :
    Nat -> List (List UInt8) -> Nat -> Phys -> Run (Option Nat × Phys)
  | _, [], ptr, s => Except.ok (some ptr, s)
  | i, arg :: rest, ptr, s => do
      let (copied, s) <- vmCopyout vm (below ptr arg) (arg ++ [0]) s
      if copied then do
        let (copied, s) <- vmCopyout vm (wrap (argv + 4 * i)) (pointerBytes (below ptr arg)) s
        if copied then copyArgsFrom vm argv (i + 1) rest (below ptr arg) s
        else Except.ok (none, s)
      else
        Except.ok (none, s)

def copyArgvIntoStack (vm : AddressSpace) (args : List (List UInt8)) (s : Phys) :
    Run (Option Nat × Phys) :=
  copyArgsFrom vm (argvPtr args.length) 0 args (argvPtr args.length) s

/-!
# `proc_execv`
-/

def taskNameLength : Nat := 32

/--
`vm_free`, where `current` is the address space of the task.  The object stays with
`kalloc`.
-/
def vmFree (current vm : AddressSpace) (s : Phys) : Run Phys :=
  if vm.pgdir = kernelAddr kpgdirFrame ∨ current.pgdir = vm.pgdir then
    Except.error (Stop.assertion, s)
  else
    pgdirFree vm.pgdir s

/-- What `proc_execv` gives the task: `name` holds the bytes written to its field. -/
structure Execd where
  vm : AddressSpace
  name : List UInt8
  ebx : Nat
  ecx : Nat
  userEsp : Nat
  eip : Nat

def execBad (older vm : AddressSpace) (s : Phys) : Run (Option Execd × Phys) := do
  let s <- vmFree older vm s
  Except.ok (none, s)

/-- The end of `proc_execv`; the kernel faults where it copies from `argv[0]` and that is `NULL`. -/
def execGood (older vm : AddressSpace) (eh : Elfhdr) (args : List (List UInt8)) (esp : Nat)
    (s : Phys) : Run (Option Execd × Phys) :=
  match args with
  | [] => Except.error (Stop.fault, s)
  | arg :: _ => do
      let s <- vmFree vm older s
      Except.ok (some
        { vm := vm
          name := arg ++ [0]
          ebx := args.length
          ecx := argvPtr args.length
          userEsp := esp
          eip := eh.entry }, s)

def execArgs (older vm : AddressSpace) (eh : Elfhdr) (args : List (List UInt8)) (s : Phys) :
    Run (Option Execd × Phys) := do
  let (copied, s) <- copyArgvIntoStack vm args s
  match copied with
  | some esp => execGood older vm eh args esp s
  | none => execBad older vm s

def execStack (older vm : AddressSpace) (eh : Elfhdr) (args : List (List UInt8)) (s : Phys) :
    Run (Option Execd × Phys) := do
  let (ready, s) <- setupUstack vm s
  if ready then execArgs older vm eh args s else execBad older vm s

/-- `proc_execv` once the ELF header is verified. -/
def execProgram (older vm : AddressSpace) (file : List UInt8) (eh : Elfhdr)
    (args : List (List UInt8)) (s : Phys) : Run (Option Execd × Phys) := do
  let (loaded, s) <- loadProghdrs vm file (readProghdrs file eh.phnum eh.phoff) s
  if loaded then execStack older vm eh args s else execBad older vm s

def execInto (older vm : AddressSpace) (inode : Option (Nat × List UInt8))
    (args : List (List UInt8)) (s : Phys) : Run (Option Execd × Phys) :=
  match program inode with
  | none => execBad older vm s
  | some (file, eh) => execProgram older vm file eh args s

/-- `proc_execv` of the inode behind the path; `none` is -1. -/
def procExecv (older : AddressSpace) (refill : Bool) (inode : Option (Nat × List UInt8))
    (args : List (List UInt8)) (s : Phys) : Run (Option Execd × Phys) := do
  let (newVm, s) <- vmNew refill s
  match newVm with
  | none => Except.ok (none, s)
  | some vm => execInto older vm inode args s

/-!
# What a run meets
-/

/-- The answer of `vm_load` for pages that are there. -/
def loads (file : List UInt8) (sz : Nat) : Nat -> Nat -> Nat -> Bool
  | 0, _, _ => true
  | k + 1, done, off =>
      if done < sz then
        let perSz := if pgSize > sz - done then sz - done else pgSize
        (inodeRead file off perSz).isSome && loads file sz k (done + perSz) (wrap (off + perSz))
      else
        true

def Proghdr.loads (file : List UInt8) (ph : Proghdr) : Bool :=
  Vm.loads file ph.filesz (ph.filesz / pgSize + 1) 0 ph.offset

/-- Every header is read and verified, and its part of the file is there. -/
def Accepted (file : List UInt8) (headers : List (Option Proghdr)) : Prop :=
  forall header, header ∈ headers -> exists ph, header = some ph ∧
    (ph.memsz = 0 ∨ (verifyProghdr ph = true ∧ ph.loads file = true))

/--
No header asks for a page that an earlier one has got, up to the first header that is
refused; `Taken` are the pages that are there.
-/
def HeadersApart (file : List UInt8) : (Nat -> Prop) -> List (Option Proghdr) -> Prop
  | _, [] => True
  | _, none :: _ => True
  | Taken, some ph :: rest =>
      (ph.memsz = 0 ∧ HeadersApart file Taken rest) ∨
      (ph.memsz ≠ 0 ∧
        (verifyProghdr ph = true ->
          (forall v, ph.Covers v -> Not (Taken v)) ∧
          (ph.loads file = true -> HeadersApart file (fun v => Taken v ∨ ph.Covers v) rest)))

/--
The argument vector and every string lie in user memory, which has less than `2 ^ 18` frames.
-/
def ArgsInMemory (args : List (List UInt8)) : Prop :=
  4 * args.length ≤ 0x40000000 ∧ forall arg, arg ∈ args -> arg.length < 0x40000000

/-- The pages of the new address space, with the frames that they get from the free list. -/
def execPage (headers : List (Option Proghdr)) (free : List Nat) (v : Nat) : Option Nat :=
  (planAll (ranges headers ++ [(bottomUserStack / 4096, npagesUserStack)]) (fun _ => false)
    (fun _ => false) free).lookup v

/-- No step that copies an argument runs into a frame that is not the next page's. -/
def ArgsFollow (page : Nat -> Option Nat) : Nat -> List (List UInt8) -> Prop
  | _, [] => True
  | ptr, arg :: rest =>
      StepsFollow page (below ptr arg) (arg.length + 1) ∧
        (bottomUserStack ≤ below ptr arg -> ArgsFollow page (below ptr arg) rest)

def ArgsRoom : Nat -> List (List UInt8) -> Prop
  | _, [] => True
  | ptr, arg :: rest => bottomUserStack ≤ below ptr arg ∧ ArgsRoom (below ptr arg) rest

end Vm
end Kernel
end NicoOS
