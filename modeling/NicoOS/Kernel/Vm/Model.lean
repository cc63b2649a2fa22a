import NicoOS.Lib.Memory
import NicoOS.Lib.Outcome

/-!
# Pages and address spaces

`kernel/mem/pmemory.c`, `kernel/mem/pgtab.c` and `kernel/mem/vm.c` over the frames
of physical memory.  The free frames are linked through their own first words, and
a page directory and its tables are frames as well.
-/

namespace NicoOS
namespace Kernel
namespace Vm

open Lib

/-!
# Addresses
-/

def pgSize : Nat := 4096

def kernelBase : Nat := 0x80000000

def vmemoryTop : Nat := kernelBase + 1024 * 1024 * 1024

def userBase : Nat := 0x04048000

def bottomUserStack : Nat := kernelBase - 4 * pgSize

def userHeapBase : Nat := userBase + 0x4000000

def userHeapTop : Nat := bottomUserStack

def kpgdirFrame : Nat := 0x10000 / pgSize

@[irreducible] def wrap (a : Nat) : Nat := a % 0x100000000

def kv2p (vaddr : Nat) : Nat := wrap (vaddr + (0x100000000 - kernelBase))

def kp2v (paddr : Nat) : Nat := wrap (paddr + kernelBase)

def pdeNr (vaddr : Nat) : Nat := vaddr / pgSize / 1024 % 1024

def pteNr (vaddr : Nat) : Nat := vaddr / pgSize % 1024

def pgPresent : Nat := 1

def pgUser : Nat := 6

def isPresent (entry : Nat) : Bool := decide (entry &&& pgPresent ≠ 0)

def entryPaddr (entry : Nat) : Nat := entry &&& 0xFFFFF000

/-- `PDE_VADDR` and `PTE_VADDR`, which take `KV2P` for `KP2V`. -/
def entryVaddr (entry : Nat) : Nat := kv2p (entryPaddr entry)

/-!
# Physical memory
-/

/--
The contents of the frames and the head of the free list, a kernel address.  The
last field records whether `palloc` found the list empty.
-/
structure Phys where
  frame : Nat -> Memory
  freeList : Nat
  exhausted : Bool

/-- A page fault of the kernel itself, or a failed assertion. -/
inductive Stop where
  | fault
  | assertion
  deriving DecidableEq

abbrev Run := Except (Stop × Phys)

namespace Phys

def setFrame (s : Phys) (f : Nat) (data : Memory) : Phys :=
  { s with frame := fun g => if g = f then data else s.frame g }

/-- Entry `nr` of the directory or table in frame `f`. -/
def entry (s : Phys) (f nr : Nat) : Nat := (s.frame f).word (4 * nr)

def setEntry (s : Phys) (f nr value : Nat) : Phys :=
  s.setFrame f ((s.frame f).setWord (4 * nr) value)

def clear (s : Phys) (f : Nat) : Phys := s.setFrame f (fun _ => 0)

def copyFrame (s : Phys) (dst src : Nat) : Phys := s.setFrame dst (s.frame src)

end Phys

/--
The frame behind a pointer of the kernel to a page.  No address space maps the pages
below `USER_BASE`, so the kernel faults where it takes `NULL` for a page.
-/
def pageAt (vaddr : Nat) (s : Phys) : Run Nat :=
  if kernelBase ≤ vaddr ∧ vaddr < vmemoryTop then
    Except.ok ((vaddr - kernelBase) / pgSize)
  else
    Except.error (Stop.fault, s)

/-- `palloc`; where the list is empty it answers the physical address of `NULL`. -/
def palloc (s : Phys) : Run (Nat × Phys) :=
  if s.freeList ≠ 0 then do
    let f <- pageAt s.freeList s
    Except.ok (kv2p s.freeList, { s with freeList := (s.frame f).word 0 })
  else
    Except.ok (kv2p 0, { s with exhausted := true })

def pfree (paddr : Nat) (s : Phys) : Run Phys :=
  if paddr ≠ 0 then do
    let f <- pageAt (kp2v paddr) s
    Except.ok { s.setFrame f ((s.frame f).setWord 0 s.freeList) with freeList := kp2v paddr }
  else
    Except.error (Stop.assertion, s)

/-!
# Page tables
-/

/-- The frame of the table that entry `nr` of a directory points at. -/
def tableAt (d nr : Nat) (s : Phys) : Run Nat :=
  pageAt (entryVaddr (s.entry d nr)) s

def v2pAddr (pgdir vaddr : Nat) (s : Phys) : Run Nat := do
  let d <- pageAt pgdir s
  if isPresent (s.entry d (pdeNr vaddr)) then do
    let f <- tableAt d (pdeNr vaddr) s
    if isPresent (s.entry f (pteNr vaddr)) then
      Except.ok (entryPaddr (s.entry f (pteNr vaddr)))
    else
      Except.error (Stop.assertion, s)
  else
    Except.error (Stop.assertion, s)

def pageFramePtr (pgdir vaddr : Nat) (s : Phys) : Run Nat := do
  let d <- pageAt pgdir s
  if isPresent (s.entry d (pdeNr vaddr)) then do
    let f <- tableAt d (pdeNr vaddr) s
    if isPresent (s.entry f (pteNr vaddr)) then
      Except.ok (entryVaddr (s.entry f (pteNr vaddr)))
    else
      Except.ok 0
  else
    Except.ok 0

/-- The step of `map_page` that makes sure of the table. -/
def addTable (d nr : Nat) (s : Phys) : Run (Bool × Phys) :=
  if isPresent (s.entry d nr) then
    Except.ok (true, s)
  else do
    let (newPgtab, s) <- palloc s
    if newPgtab = 0 then
      Except.ok (false, s)
    else do
      let f <- pageAt (kp2v newPgtab) s
      Except.ok (true, (s.clear f).setEntry d nr (newPgtab ||| pgUser ||| pgPresent))

def mapPage (pgdir vaddr paddr attr : Nat) (s : Phys) : Run (Bool × Phys) :=
  if paddr % pgSize = 0 then do
    let d <- pageAt pgdir s
    let (ready, s) <- addTable d (pdeNr vaddr) s
    if ready then do
      let f <- tableAt d (pdeNr vaddr) s
      if isPresent (s.entry f (pteNr vaddr)) then
        Except.error (Stop.assertion, s)
      else
        Except.ok (true, s.setEntry f (pteNr vaddr) (paddr ||| attr ||| pgPresent))
    else
      Except.ok (false, s)
  else
    Except.error (Stop.assertion, s)

def unmapPage (pgdir vaddr : Nat) (s : Phys) : Run Phys := do
  let d <- pageAt pgdir s
  let f <- tableAt d (pdeNr vaddr) s
  let pte := s.entry f (pteNr vaddr)
  Except.ok (s.setEntry f (pteNr vaddr) (pte &&& 0xFFFFFFFE))

/-- `pgdir_new` copies the entries of the kernel's part. -/
def copyKernelEntries (f : Nat) (s : Phys) : Phys :=
  s.setFrame f (fun x =>
    if 4 * 512 ≤ x ∧ x < 4 * 768 then s.frame kpgdirFrame x else s.frame f x)

def pgdirNew (s : Phys) : Run (Nat × Phys) := do
  let (paddr, s) <- palloc s
  let ptr := kp2v paddr
  let f <- pageAt ptr s
  let s := s.clear f
  if ptr ≠ 0 then Except.ok (ptr, copyKernelEntries f s) else Except.ok (ptr, s)

/-- The inner loop of `pgdir_free` over the entries of a table. -/
def freeEntries (f : Nat) : Nat -> Nat -> Phys -> Run Phys
  | 0, _, s => Except.ok s
  | k + 1, nr, s => do
      let pte := s.entry f nr
      let s <-
        (if isPresent pte then do
          let g <- pageAt (kp2v (entryPaddr pte)) s
          pfree (entryPaddr pte) (s.clear g)
        else
          Except.ok s)
      freeEntries f k (nr + 1) (s.setEntry f nr 0)

def freeTables (d : Nat) : Nat -> Nat -> Phys -> Run Phys
  | 0, _, s => Except.ok s
  | k + 1, nr, s => do
      let pde := s.entry d nr
      if isPresent pde then do
        let f <- pageAt (entryVaddr pde) s
        let s <- freeEntries f 1024 0 s
        let s <- pfree (kv2p (entryVaddr pde)) s
        freeTables d k (nr + 1) s
      else
        freeTables d k (nr + 1) s

def pgdirFree (pgdir : Nat) (s : Phys) : Run Phys := do
  let d <- pageAt pgdir s
  let s <- freeTables d 512 0 s
  pfree (kv2p pgdir) s

def vallocBad (pgdir : Nat) : Nat -> Nat -> Phys -> Run (Bool × Phys)
  | 0, _, s => Except.ok (false, s)
  | k + 1, vaddr, s => do
      let vaddr := wrap (vaddr + (0x100000000 - pgSize))
      let paddr <- v2pAddr pgdir vaddr s
      let s <- pfree paddr s
      let s <- unmapPage pgdir vaddr s
      vallocBad pgdir k vaddr s

def vallocFrom (pgdir attr : Nat) : Nat -> Nat -> Nat -> Phys -> Run (Bool × Phys)
  | 0, _, _, s => Except.ok (true, s)
  | k + 1, cnt, vaddr, s => do
      let (paddr, s) <- palloc s
      if paddr = 0 then
        vallocBad pgdir cnt vaddr s
      else do
        let (mapped, s) <- mapPage pgdir vaddr paddr attr s
        if mapped then
          vallocFrom pgdir attr k (cnt + 1) (wrap (vaddr + pgSize)) s
        else do
          let s <- pfree paddr s
          vallocBad pgdir cnt vaddr s

def pgdirValloc (pgdir vaddr pgCnt attr : Nat) (s : Phys) : Run (Bool × Phys) :=
  vallocFrom pgdir attr pgCnt 0 vaddr s

/-- The loop of `pgtab_copy`, between the tables in two frames. -/
def pgtabCopyFrom (src dst : Nat) : Nat -> Nat -> Phys -> Run (Bool × Phys)
  | 0, _, s => Except.ok (true, s)
  | k + 1, nr, s => do
      let s := s.setEntry dst nr 0
      let pte := s.entry src nr
      if isPresent pte then do
        let (paddr, s) <- palloc s
        if paddr = 0 then
          Except.ok (false, s)
        else do
          let s := s.setEntry dst nr (paddr ||| pgUser ||| pgPresent)
          let from0 <- pageAt (kp2v (entryPaddr pte)) s
          let to0 <- pageAt (kp2v paddr) s
          pgtabCopyFrom src dst k (nr + 1) (s.copyFrame to0 from0)
      else
        pgtabCopyFrom src dst k (nr + 1) s

def copyBad (cp : Nat) (s : Phys) : Run (Nat × Phys) := do
  let s <- pgdirFree cp s
  Except.ok (0, s)

def pgdirCopyFrom (d cp c : Nat) : Nat -> Nat -> Phys -> Run (Nat × Phys)
  | 0, _, s => Except.ok (cp, s)
  | k + 1, nr, s => do
      let pde := s.entry d nr
      if isPresent pde then do
        let (paddr, s) <- palloc s
        if paddr = 0 then
          copyBad cp s
        else do
          let s := s.setEntry c nr (paddr ||| pgUser ||| pgPresent)
          let src <- pageAt (kp2v (entryPaddr pde)) s
          let dst <- pageAt (kp2v paddr) s
          let (copied, s) <- pgtabCopyFrom src dst 1024 0 s
          if copied then pgdirCopyFrom d cp c k (nr + 1) s else copyBad cp s
      else
        pgdirCopyFrom d cp c k (nr + 1) s

def pgdirCopy (pgdir : Nat) (s : Phys) : Run (Nat × Phys) := do
  let (cp, s) <- pgdirNew s
  if cp = 0 then
    Except.ok (0, s)
  else do
    let d <- pageAt pgdir s
    let c <- pageAt cp s
    pgdirCopyFrom d cp c 512 0 s

/-!
# Address spaces
-/

structure AddressSpace where
  pgdir : Nat
  brk : Nat
  deriving DecidableEq

/--
`kalloc(sizeof(struct vm))`: it takes a page for itself where it has no object left,
and `none` is its failure.
-/
def kallocVm (refill : Bool) (s : Phys) : Run (Bool × Phys) :=
  if refill then do
    let (paddr, s) <- palloc s
    let f <- pageAt (kp2v paddr) s
    Except.ok (true, s.clear f)
  else
    Except.ok (true, s)

def vmNew (refill : Bool) (s : Phys) : Run (Option AddressSpace × Phys) := do
  let (_, s) <- kallocVm refill s
  let (pgdir, s) <- pgdirNew s
  if pgdir = 0 then Except.ok (none, s)
  else Except.ok (some { pgdir := pgdir, brk := userHeapBase }, s)

def vmCopy (refill : Bool) (vm : AddressSpace) (s : Phys) : Run (Option AddressSpace × Phys) := do
  let (_, s) <- kallocVm refill s
  let (pgdir, s) <- pgdirCopy vm.pgdir s
  if pgdir = 0 then Except.ok (none, s)
  else Except.ok (some { pgdir := pgdir, brk := vm.brk }, s)

def vmValloc (vm : AddressSpace) (vaddr pgcnt : Nat) (s : Phys) : Run (Bool × Phys) :=
  if pgcnt ≠ 0 ∧ wrap (vaddr + pgcnt * pgSize) > vaddr ∧
      wrap (vaddr + pgcnt * pgSize) ≤ kernelBase then
    pgdirValloc vm.pgdir vaddr pgcnt pgUser s
  else
    Except.error (Stop.assertion, s)

/-- The loop of `vm_grow_userheap`, which does not look at the answer of `map_page`. -/
def growFrom (pgdir ebrk : Nat) : Nat -> Nat -> Phys -> Run (Bool × Phys)
  | 0, _, s => Except.ok (true, s)
  | k + 1, brk, s =>
      if brk < ebrk then do
        let ptr <- pageFramePtr pgdir brk s
        if ptr = 0 then do
          let (paddr, s) <- palloc s
          if paddr = 0 then
            Except.ok (false, s)
          else do
            let (_, s) <- mapPage pgdir brk paddr pgUser s
            growFrom pgdir ebrk k (wrap (brk + pgSize)) s
        else
          growFrom pgdir ebrk k (wrap (brk + pgSize)) s
      else
        Except.ok (true, s)

/-- `vm_grow_userheap`: the old break, or 0 for `NULL`, and the space behind it. -/
def vmGrowUserheap (vm : AddressSpace) (bytesCnt : Int) (s : Phys) :
    Run ((Nat × AddressSpace) × Phys) :=
  if vm.brk = 0 then
    Except.error (Stop.assertion, s)
  else if bytesCnt < 0 then
    Except.ok ((0, vm), s)
  else
    let ebrk := wrap (vm.brk + bytesCnt.toNat)
    if ebrk < vm.brk ∨ ebrk ≥ userHeapTop then
      Except.ok ((0, vm), s)
    else do
      let (grown, s) <- growFrom vm.pgdir ebrk (bytesCnt.toNat / pgSize + 1) vm.brk s
      if grown then Except.ok ((vm.brk, { vm with brk := ebrk }), s)
      else Except.ok ((0, vm), s)

end Vm
end Kernel
end NicoOS
