import NicoOS.Lib.Memory
import NicoOS.Lib.Transition
import Mathlib.Data.List.FinRange

/-!
# The kernel object allocator

`kernel/mem/kalloc.c` cuts pages into objects of seven sizes.  Every object is
preceded by a descriptor of one word: the link of a free list while the object
is free, the index of its class while it is in use.  The free lists live in
memory, so the state keeps the memory itself.
-/

namespace NicoOS
namespace Kernel
namespace Kalloc

open Lib

def pgSize : Nat := 4096

def nblock : Nat := 7

def maxObjSize : Nat := 16 <<< (nblock - 1)

/-- `sizeof(struct mem_object_desc)` on the 32-bit target. -/
def descSize : Nat := 4

/-- `struct mem_block`; the pointer 0 is `NULL`. -/
structure MemBlock where
  blockIdx : Nat
  objSize : Nat
  inuse : UInt32
  free : UInt32
  num : UInt32
  head : Nat

/--
The allocator and the pages around it.  `pool` is the free list of the page
allocator.  The last three fields record what no code reads: the pages taken by
the allocator with the class they were cut for, the pages other owners hold, and
the objects handed out with the size that was asked for.
-/
structure State where
  mem : Memory
  blocks : Fin nblock -> MemBlock
  pool : List Nat
  pages : List (Nat × Option (Fin nblock))
  outside : List Nat
  live : List (Nat × Nat)

def State.setBlock (s : State) (i : Fin nblock) (b : MemBlock) : State :=
  { s with blocks := fun j => if j = i then b else s.blocks j }

/-- `kalloc_init`, with the pages of the pool given. -/
def kallocInit (mem : Memory) (pool : List Nat) : State :=
  { mem := mem
    blocks := fun i =>
      { blockIdx := i.val
        objSize := 16 <<< i.val
        inuse := 0
        free := 0
        num := 0
        head := 0 }
    pool := pool
    pages := []
    outside := []
    live := [] }

/--
`get_zeroed_free_page`.  An empty pool yields `NULL`, and the page at address 0
is cleared all the same.
-/
def getZeroedFreePage (s : State) : Nat × State :=
  match s.pool with
  | [] => (0, { s with mem := s.mem.fill 0 0 pgSize })
  | page :: rest => (page, { s with mem := s.mem.fill page 0 pgSize, pool := rest })

/-!
# Cutting a page

The loop of `alloc_new_objs` links each object behind the previous one; `none`
stands for the `dummy` descriptor on the stack, whose link becomes the head.
-/

structure Carve where
  cnt : Nat
  dummyNext : Nat
  mem : Memory

def Carve.link (c : Carve) (prev : Option Nat) (next : Nat) : Carve :=
  match prev with
  | none => { c with cnt := c.cnt + 1, dummyNext := next }
  | some obj => { c with cnt := c.cnt + 1, mem := c.mem.setWord obj next }

/-- `for (p = 0; p < PG_SIZE; p += size, cnt++)`; `fuel` bounds the rounds. -/
def carve (page size : Nat) : Nat -> Nat -> Option Nat -> Carve -> Carve
  | 0, _, _, c => c
  | fuel + 1, p, prev, c =>
      if p < pgSize then
        carve page size fuel (p + size) (some (page + p)) (c.link prev (page + p))
      else
        c

def allocNewObjs (s : State) (i : Fin nblock) : Option (Bool × State) :=
  let block := s.blocks i
  if block.head ≠ 0 then
    none
  else
    let size := block.objSize + descSize
    let got := getZeroedFreePage s
    if got.1 = 0 then
      some (false, got.2)
    else
      let c := carve got.1 size pgSize 0 none ⟨0, 0, got.2.mem⟩
      let s := { got.2 with mem := c.mem, pages := (got.1, some i) :: got.2.pages }
      some (true, s.setBlock i
        { block with
          free := block.free + UInt32.ofNat c.cnt
          num := block.num + UInt32.ofNat c.cnt
          head := c.dummyNext })

/-!
# Allocation and release
-/

/-- The part of `fetch_obj_from_block` behind the refill. -/
def popObj (s : State) (i : Fin nblock) : Nat × State :=
  let block := s.blocks i
  let obj := block.head
  let s := s.setBlock i
    { block with
      head := s.mem.word obj
      free := block.free - 1
      inuse := block.inuse + 1 }
  (obj + descSize, { s with mem := s.mem.setWord obj block.blockIdx })

def fetchObjFromBlock (s : State) (i : Fin nblock) : Option (Nat × State) :=
  if (s.blocks i).free = 0 then
    match allocNewObjs s i with
    | none => none
    | some (false, s) => some (0, s)
    | some (true, s) => some (popObj s i)
  else
    some (popObj s i)

def fetchFrom (nbytes : Nat) : List (Fin nblock) -> State -> Option (Nat × State)
  | [], s => some (0, s)
  | i :: rest, s =>
      if (s.blocks i).objSize >= nbytes then
        match fetchObjFromBlock s i with
        | none => none
        | some (r, s) => if r = 0 then fetchFrom nbytes rest s else some (r, s)
      else
        fetchFrom nbytes rest s

def kalloc (nbytes : Nat) (killed : Bool) (s : State) : Option (Nat × State) :=
  if nbytes = 0 then
    some (0, s)
  else if Not (nbytes < pgSize) then
    none
  else if killed then
    some (0, s)
  else if nbytes > maxObjSize then
    let got := getZeroedFreePage s
    if got.1 = 0 then
      some got
    else
      some (got.1, { got.2 with pages := (got.1, none) :: got.2.pages })
  else
    fetchFrom nbytes (List.finRange nblock) s

/-- `kfree`; `none` stands for an index outside `blocks[]`. -/
def kfree (ptr : Nat) (killed : Bool) (s : State) : Option State :=
  if ptr = 0 then
    some s
  else if killed then
    some s
  else
    let obj := ptr - descSize
    if h : s.mem.word obj < nblock then
      let i : Fin nblock := ⟨s.mem.word obj, h⟩
      let block := s.blocks i
      let s := { s with mem := s.mem.setWord obj block.head }
      some (s.setBlock i
        { block with
          head := obj
          inuse := block.inuse - 1
          free := block.free + 1 })
    else
      none

/-!
# Histories

Besides the two calls, the owner of a live object may store into it, and other
owners take pages from the pool, store into them and give them back.
-/

inductive Op where
  | kalloc (nbytes : Nat) (killed : Bool)
  | kfree (ptr : Nat) (killed : Bool)
  | store (a : Nat) (v : UInt8)
  | takePage
  | returnPage (page : Nat)

def step (s : State) : Op -> Option State
  | Op.kalloc nbytes killed =>
      match kalloc nbytes killed s with
      | none => none
      | some (r, t) =>
          if r = 0 then some t else some { t with live := (r, nbytes) :: t.live }
  | Op.kfree ptr killed =>
      match kfree ptr killed s with
      | none => none
      | some t => some { t with live := t.live.filter (fun x => x.1 ≠ ptr) }
  | Op.store a v => some { s with mem := s.mem.setByte a v }
  | Op.takePage =>
      match s.pool with
      | [] => some s
      | page :: rest => some { s with pool := rest, outside := page :: s.outside }
  | Op.returnPage page =>
      some { s with pool := page :: s.pool, outside := s.outside.erase page }

/-- What the callers promise: sizes below a page, live pointers, own memory. -/
def Legal (s : State) : Op -> Prop
  | Op.kalloc nbytes _ => 0 < nbytes ∧ nbytes < pgSize
  | Op.kfree ptr _ => exists n, (ptr, n) ∈ s.live
  | Op.store a _ =>
      (exists ptr n, (ptr, n) ∈ s.live ∧ ptr ≤ a ∧ a < ptr + n) ∨
        (exists page, page ∈ s.outside ∧ page ≤ a ∧ a < page + pgSize)
  | Op.takePage => True
  | Op.returnPage page => page ∈ s.outside

/-- Memory ranges given by their first address and their length. -/
def RangesApart (x y : Nat × Nat) : Prop :=
  x.1 + x.2 ≤ y.1 ∨ y.1 + y.2 ≤ x.1

/-- The bytes of an object, and its descriptor if it has one. -/
def extent (x : Nat × Nat) : Nat × Nat :=
  if x.2 ≤ maxObjSize then (x.1 - descSize, descSize + x.2) else x

def freeObjs (s : State) (i : Fin nblock) : List Nat :=
  s.mem.walk (s.blocks i).free.toNat (s.blocks i).head

/--
Every live object lies in one page of the allocator, and the objects, with their
descriptors, and the descriptors on the free lists are pairwise disjoint.
-/
structure Sound (s : State) : Prop where
  inPage : forall x, x ∈ s.live -> exists page, page ∈ s.pages.map Prod.fst ∧
    page ≤ x.1 ∧ x.1 + x.2 ≤ page + pgSize
  liveApart : s.live.Pairwise (fun x y => RangesApart (extent x) (extent y))
  freeApart : forall i j obj obj', obj ∈ freeObjs s i -> obj' ∈ freeObjs s j ->
    (obj = obj' ∧ i = j) ∨ RangesApart (obj, descSize) (obj', descSize)
  freeNodup : forall i, (freeObjs s i).Nodup
  liveFreeApart : forall x i obj, x ∈ s.live -> obj ∈ freeObjs s i ->
    RangesApart (extent x) (obj, descSize)

end Kalloc
end Kernel
end NicoOS
