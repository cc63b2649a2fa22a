import NicoOS.Kernel.Vm.Model
import NicoOS.Lib.Memory
import NicoOS.Lib.Outcome

/-!
# The allocator of user programs

`lib/src/malloc.c` keeps the free blocks in a ring of headers in the memory of the program, and
gets more memory by `sbrk`.  A word that is not in a page of the program stops it.
-/

namespace NicoOS
namespace User
namespace Malloc

open Lib
open Kernel.Vm (pgSize userHeapBase userHeapTop)

/-- `sizeof(Header)`; the word `ptr` is the first one, `size` the second. -/
def headerSize : Nat := 8

def addrEnd : Nat := 0x100000000

/--
A user process.  `mapped` says which pages it can use, `freep` is the static pointer; the static
header `base` is at an address of its program.
-/
structure Process where
  mem : Memory
  mapped : Nat -> Bool
  brk : Nat
  freep : Nat

/-- A page fault ends the process; the other stop is a search that does not end. -/
inductive Stop where
  | pageFault (addr : Nat)
  | hangs
  deriving DecidableEq

abbrev Run (α : Type) := Except Stop α

def Process.reachable (s : Process) (a : Nat) : Bool :=
  s.mapped (a / pgSize) && s.mapped ((a + 3) / pgSize)

def Process.load (s : Process) (a : Nat) : Run Nat :=
  if s.reachable a then Except.ok (s.mem.word a) else Except.error (Stop.pageFault a)

def Process.store (s : Process) (a v : Nat) : Run Process :=
  if s.reachable a then Except.ok { s with mem := s.mem.setWord a v }
  else Except.error (Stop.pageFault a)

def offset (p k : Nat) : Nat := (p + headerSize * k) % addrEnd

/-!
# The system call
-/

/--
The loop of `vm_grow_userheap` over `k` page lengths from page `v` on, where the kernel finds a
frame for every page that is not there.
-/
def growPages : Nat -> Nat -> (Nat -> Bool) -> Nat -> Bool
  | 0, _, mapped => mapped
  | k + 1, v, mapped =>
      growPages k (v + 1) (if mapped v then mapped else fun w => if w = v then true else mapped w)

/-- `sbrk`, which answers 0 where `vm_grow_userheap` does; the number is an `int32_t` there. -/
def sbrk (n : Nat) (s : Process) : Nat × Process :=
  if 0x80000000 ≤ n then (0, s)
  else if userHeapTop ≤ s.brk + n then (0, s)
  else
    (s.brk, { s with
      mapped := growPages ((n + pgSize - 1) / pgSize) (s.brk / pgSize) s.mapped
      brk := s.brk + n })

/-!
# The allocator
-/

/-- More visits than there are addresses: a loop that makes them does not end. -/
def visits : Nat := 0x100000000

def search (bp : Nat) : Nat -> Nat -> Process -> Run Nat
  | 0, _, _ => Except.error Stop.hangs
  | fuel + 1, p, s => do
      let next <- s.load p
      if p < bp ∧ bp < next then Except.ok p
      else if next ≤ p ∧ (p < bp ∨ bp < next) then Except.ok p
      else search bp fuel next s

/-- The first `if` of `free`, which joins the block with the next one. -/
def joinNext (bp p : Nat) (s : Process) : Run Process := do
  let next <- s.load p
  let size <- s.load (bp + 4)
  if offset bp size = next then
    let more <- s.load (next + 4)
    let s <- s.store (bp + 4) (size + more)
    let next <- s.load p
    let behind <- s.load next
    s.store bp behind
  else
    s.store bp next

/-- The second `if`, which joins the one before with the block. -/
def joinPrev (bp p : Nat) (s : Process) : Run Process := do
  let size <- s.load (p + 4)
  if offset p size = bp then
    let more <- s.load (bp + 4)
    let s <- s.store (p + 4) (size + more)
    let behind <- s.load bp
    s.store p behind
  else
    s.store p bp

def free (ap : Nat) (s : Process) : Run Process := do
  let bp := (ap + addrEnd - headerSize) % addrEnd
  let p <- search bp visits s.freep s
  let s <- joinNext bp p s
  let s <- joinPrev bp p s
  Except.ok { s with freep := p }

def morecore (nu : Nat) (s : Process) : Run (Nat × Process) := do
  let nu := if nu < 4096 then 4096 else nu
  let (p, s) := sbrk (nu * headerSize % addrEnd) s
  if p = addrEnd - 1 then
    Except.ok (0, s)
  else
    let s <- s.store (p + 4) nu
    let s <- free (p + headerSize) s
    Except.ok (s.freep, s)

/-- What `malloc` does with a block that is large enough. -/
def takeBlock (nunits prevp p size : Nat) (s : Process) : Run (Nat × Process) := do
  if size = nunits then
    let next <- s.load p
    let s <- s.store prevp next
    Except.ok (p + headerSize, { s with freep := prevp })
  else
    let s <- s.store (p + 4) (size - nunits)
    let left <- s.load (p + 4)
    let p := offset p left
    let s <- s.store (p + 4) nunits
    Except.ok (p + headerSize, { s with freep := prevp })

def mallocFrom (nunits : Nat) : Nat -> Nat -> Nat -> Process -> Run (Nat × Process)
  | 0, _, _, _ => Except.error Stop.hangs
  | fuel + 1, prevp, p, s => do
      let size <- s.load (p + 4)
      if nunits ≤ size then
        takeBlock nunits prevp p size s
      else if p = s.freep then
        let (p, s) <- morecore nunits s
        if p = 0 then
          Except.ok (0, s)
        else
          let next <- s.load p
          mallocFrom nunits fuel p next s
      else
        let next <- s.load p
        mallocFrom nunits fuel p next s

/-- The units for a number of bytes, and one for the header. -/
def unitsOf (nbytes : Nat) : Nat := (nbytes + headerSize - 1) % addrEnd / headerSize + 1

def initRing (base : Nat) (s : Process) : Run Process :=
  if s.freep = 0 then do
    let s <- s.store base base
    let s <- s.store (base + 4) 0
    Except.ok { s with freep := base }
  else
    Except.ok s

def malloc (base nbytes : Nat) (s : Process) : Run (Nat × Process) := do
  let nunits := unitsOf nbytes
  let s <- initRing base s
  let prevp := s.freep
  let p <- s.load prevp
  mallocFrom nunits (2 * visits) prevp p s

end Malloc
end User
end NicoOS
