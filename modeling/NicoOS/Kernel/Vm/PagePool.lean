import NicoOS.Kernel.Vm.Frames
import NicoOS.Lib.Transition
import Mathlib.Data.List.Perm.Subperm

/-!
# The pool of free pages

`pmem_init` of `kernel/mem/pmemory.c`, and `palloc` and `pfree` with the counters that are kept
beside the list.
-/

namespace NicoOS
namespace Kernel
namespace Vm

open Lib

/-!
# The pool
-/

def kernelSpaceSize : Nat := 1024 * 1024 * 4

def phyMemoryTop : Nat := 1024 * 1024 * 1024

def freeBase : Nat := kernelBase + kernelSpaceSize

def maxFreeMemorySpace : Nat := phyMemoryTop - kernelSpaceSize

/-- `struct phy_mem_pool`, with the memory that the list is threaded through. -/
structure PhyMemPool where
  phys : Phys
  freePageCnt : UInt32
  usingPageCnt : UInt32

abbrev PoolRun := Except (Stop × PhyMemPool)

namespace PhyMemPool

/-- The memory at the end of an operation that ran into a fault. -/
def within {α : Type} (pmem : PhyMemPool) : Run α -> PoolRun α
  | Except.ok a => Except.ok a
  | Except.error (stop, s) => Except.error (stop, { pmem with phys := s })

def palloc (pmem : PhyMemPool) : PoolRun (Nat × PhyMemPool) := do
  let (paddr, s) <- pmem.within (Vm.palloc pmem.phys)
  if pmem.phys.freeList ≠ 0 then
    Except.ok (paddr,
      { phys := s, freePageCnt := pmem.freePageCnt - 1, usingPageCnt := pmem.usingPageCnt + 1 })
  else
    Except.ok (paddr, { pmem with phys := s })

def pfree (paddr : Nat) (pmem : PhyMemPool) : PoolRun PhyMemPool := do
  let s <- pmem.within (Vm.pfree paddr pmem.phys)
  Except.ok
    { phys := s, freePageCnt := pmem.freePageCnt + 1, usingPageCnt := pmem.usingPageCnt - 1 }

/-- The loop of `pfree_range`; there are no results without rounds. -/
def pfreeRangeFrom (last : Nat) : Nat -> Nat -> PhyMemPool -> PoolRun PhyMemPool
  | 0, _, pmem => Except.error (Stop.fault, pmem)
  | k + 1, start, pmem =>
      if start ≤ last then do
        let f <- pmem.within (pageAt start pmem.phys)
        let s := pmem.phys.setFrame f ((pmem.phys.frame f).setWord 0 pmem.phys.freeList)
        pfreeRangeFrom last k (wrap (start + pgSize))
          { pmem with phys := { s with freeList := start }, freePageCnt := pmem.freePageCnt + 1 }
      else
        Except.ok pmem

def pfreeRange (start last : Nat) (pmem : PhyMemPool) : PoolRun PhyMemPool :=
  if start % pgSize = 0 ∧ last % pgSize = 0 then
    pfreeRangeFrom last (0x100000000 / pgSize) start pmem
  else
    Except.error (Stop.assertion, pmem)

/-- `pmem_init`, for the size that `get_total_memory` gives. -/
def pmemInit (totalMemory : UInt32) (pmem : PhyMemPool) : PoolRun PhyMemPool :=
  if totalMemory.toNat < 1024 * 1024 * 32 then
    Except.error (Stop.assertion, pmem)
  else if totalMemory.toNat % pgSize ≠ 0 then
    Except.error (Stop.assertion, pmem)
  else
    let totalMemory := totalMemory.toNat - kernelSpaceSize
    let totalMemory :=
      if totalMemory > maxFreeMemorySpace then maxFreeMemorySpace else totalMemory
    pfreeRange freeBase (kp2v totalMemory)
      { pmem with phys := { pmem.phys with freeList := 0 }, freePageCnt := 0 }

end PhyMemPool

/-!
# The list and its counter
-/

/-- The list holds the given frames, all below the limit, and the counter counts them. -/
structure Stocked (limit : Nat) (pmem : PhyMemPool) (free : List Nat) : Prop where
  pool : Pool pmem.phys free
  below : forall f, f ∈ free -> 4096 * f < limit
  counted : pmem.freePageCnt = UInt32.ofNat free.length

section Stock

variable {limit f : Nat} {pmem : PhyMemPool} {free : List Nat}

theorem within_ok {α : Type} (pmem : PhyMemPool) (a : α) :
    pmem.within (Except.ok a) = Except.ok a := rfl

theorem poolRun_bind {α β : Type} (a : α) (k : α -> PoolRun β) :
    (Except.ok a : PoolRun α) >>= k = k a := rfl

theorem Pool.length_le {s : Phys} (h : Pool s free) : free.length ≤ 262144 := by
  have hsub : free ⊆ List.range 262144 :=
    fun f hf => List.mem_range.mpr (h.inPool f hf).right
  have hle := (List.subperm_of_subset h.nodup hsub).length_le
  rw [List.length_range] at hle
  exact hle

theorem Stocked.count (h : Stocked limit pmem free) :
    pmem.freePageCnt.toNat = free.length := by
  have hle := h.pool.length_le
  rw [h.counted]
  apply UInt32.toNat_ofNat_of_lt'
  exact Nat.lt_of_le_of_lt hle (by decide)

/-- The pool behind a frame that is linked in front of the list. -/
def pushed (pmem : PhyMemPool) (f : Nat) : PhyMemPool :=
  { pmem with phys := pmem.phys.push f, freePageCnt := pmem.freePageCnt + 1 }

theorem Stocked.push (h : Stocked limit pmem free) (hf : InPool f) (hbelow : 4096 * f < limit)
    (hnew : f ∉ free) : Stocked limit (pushed pmem f) (f :: free) where
  pool := h.pool.push hf hnew
  below g hg := by
    rcases List.mem_cons.mp hg with heq | hin
    · rw [heq]
      exact hbelow
    · exact h.below g hin
  counted := by
    show pmem.freePageCnt + 1 = _
    rw [h.counted, List.length_cons, UInt32.ofNat_add]
    rfl

/-- `pfree_range` links every page of its range, the last one included. -/
theorem pfreeRangeFrom_stocked {k a b : Nat} (h : Stocked limit pmem free)
    (hfree : forall f, f ∈ free -> f < a) (hlow : 1024 ≤ a) (hhigh : b < 262144)
    (hlimit : 4096 * b < limit) (hab : a ≤ b + 1) (hk : b + 1 < a + k) :
    exists pmem' free',
      PhyMemPool.pfreeRangeFrom (kernelAddr b) k (kernelAddr a) pmem = Except.ok pmem' ∧
        Stocked limit pmem' free' ∧ (forall f, f ∈ free' <-> f ∈ free ∨ a ≤ f ∧ f ≤ b) ∧
        pmem'.usingPageCnt = pmem.usingPageCnt := by
  induction k generalizing a pmem free with
  | zero => exact absurd hk (Nat.not_lt.mpr hab)
  | succ k ih =>
      cases Nat.lt_or_ge b a with
      | inl hend =>
          have hstop : Not (kernelAddr a ≤ kernelAddr b) := by
            rw [kernelAddr_eq, kernelAddr_eq]
            lia
          refine ⟨pmem, free, ?_, h, ?_, rfl⟩
          · rw [PhyMemPool.pfreeRangeFrom, if_neg hstop]
          · intro f
            constructor
            · exact Or.inl
            · intro hor
              rcases hor with hin | hrange
              · exact hin
              · lia
      | inr hmore =>
          have hgo : kernelAddr a ≤ kernelAddr b := by
            rw [kernelAddr_eq, kernelAddr_eq]
            lia
          have ha : InPool a := ⟨hlow, Nat.lt_of_le_of_lt hmore hhigh⟩
          have hnext : wrap (kernelAddr a + pgSize) = kernelAddr (a + 1) := by
            rw [wrap_eq, kernelAddr_eq, kernelAddr_eq]
            unfold pgSize
            lia
          have hpushed := h.push ha (by lia) (fun hin => Nat.lt_irrefl a (hfree a hin))
          have hbelow : forall f, f ∈ a :: free -> f < a + 1 := by
            intro f hf
            rcases List.mem_cons.mp hf with heq | hin
            · exact Nat.lt_succ_of_le (Nat.le_of_eq heq)
            · exact Nat.lt_succ_of_lt (hfree f hin)
          rcases ih hpushed hbelow (Nat.le_succ_of_le hlow) (Nat.succ_le_succ hmore)
            (by rw [Nat.add_assoc, Nat.add_comm 1 k]; exact hk) with
            ⟨pmem', free', hrun, hstocked, hmem, husing⟩
          refine ⟨pmem', free', ?_, hstocked, ?_, husing⟩
          · rw [PhyMemPool.pfreeRangeFrom, if_pos hgo, pageAt_kernelAddr ha, within_ok,
              poolRun_bind, hnext]
            exact hrun
          · intro f
            rw [hmem f, List.mem_cons]
            constructor
            · intro hor
              rcases hor with (heq | hin) | hrange
              · exact Or.inr (by lia)
              · exact Or.inl hin
              · exact Or.inr (by lia)
            · intro hor
              rcases hor with hin | hrange
              · exact Or.inl (Or.inr hin)
              · cases Nat.lt_or_ge a f with
                | inl hlt => exact Or.inr (by lia)
                | inr hle => exact Or.inl (Or.inl (by lia))

/-- The last frame that `pmem_init` gives to the pool. -/
def lastFrame (totalMemory : UInt32) : Nat :=
  min (totalMemory.toNat - kernelSpaceSize) maxFreeMemorySpace / pgSize

/-- `pmem_init` makes the pool of the frames from `FREE_BASE` to its inclusive end. -/
theorem pmemInit_stocked {totalMemory : UInt32} (pmem : PhyMemPool)
    (hsize : 1024 * 1024 * 32 ≤ totalMemory.toNat) (hpages : totalMemory.toNat % pgSize = 0) :
    exists pmem' free, PhyMemPool.pmemInit totalMemory pmem = Except.ok pmem' ∧
      Stocked (min totalMemory.toNat phyMemoryTop) pmem' free ∧
      (forall f, f ∈ free <-> 1024 ≤ f ∧ f ≤ lastFrame totalMemory) ∧
      pmem'.usingPageCnt = pmem.usingPageCnt := by
  have hlt := totalMemory.toNat_lt
  have hlast : lastFrame totalMemory =
      min (totalMemory.toNat - 4194304) 1069547520 / 4096 := rfl
  have hmod : totalMemory.toNat % 4096 = 0 := hpages
  have hclip : (if totalMemory.toNat - kernelSpaceSize > maxFreeMemorySpace then
      maxFreeMemorySpace else totalMemory.toNat - kernelSpaceSize) =
        4096 * lastFrame totalMemory := by
    rw [hlast]
    show (if totalMemory.toNat - 4194304 > 1069547520 then 1069547520
      else totalMemory.toNat - 4194304) = _
    split
    · omega
    · omega
  have hin : lastFrame totalMemory < 262144 := by
    rw [hlast]
    omega
  have hlow : 7168 ≤ lastFrame totalMemory := by
    rw [hlast]
    omega
  have hlimit : 4096 * lastFrame totalMemory < min totalMemory.toNat phyMemoryTop := by
    have htop : phyMemoryTop = 1073741824 := rfl
    rw [hlast, htop]
    omega
  have hstart : freeBase = kernelAddr 1024 := rfl
  have hempty : Stocked (min totalMemory.toNat phyMemoryTop)
      { pmem with phys := { pmem.phys with freeList := 0 }, freePageCnt := 0 } [] :=
    { pool := ⟨rfl, List.nodup_nil, fun f hf => nomatch hf⟩
      below := fun f hf => nomatch hf
      counted := rfl }
  rcases pfreeRangeFrom_stocked (k := 0x100000000 / pgSize) hempty (fun f hf => nomatch hf)
    (Nat.le_refl 1024) hin hlimit (by lia) (by
      have hrounds : 0x100000000 / pgSize = 1048576 := rfl
      lia) with ⟨pmem', free, hrun, hstocked, hmem, husing⟩
  refine ⟨pmem', free, ?_, hstocked, ?_, husing⟩
  · unfold PhyMemPool.pmemInit
    rw [if_neg (Nat.not_lt.mpr hsize), if_neg (fun hne => hne hpages)]
    dsimp only
    rw [hclip, kp2v_paddr ⟨by lia, hin⟩, hstart]
    unfold PhyMemPool.pfreeRange
    rw [if_pos]
    · exact hrun
    · rw [kernelAddr_eq, kernelAddr_eq]
      unfold pgSize
      lia
  · intro f
    rw [hmem f]
    simp

end Stock

/-!
# Who has the frames
-/

/-- The pool, and the physical addresses that `palloc` has taken from it and handed out. -/
structure PoolState where
  pmem : PhyMemPool
  inUse : List Nat

inductive PoolCall where
  | palloc
  | pfree (paddr : Nat)
  | store (f x : Nat) (b : UInt8)

namespace PoolState

/-- `palloc`, `pfree`, or a byte that the owner of a frame stores; no state if a call fails. -/
def step (st : PoolState) : PoolCall -> Option PoolState
  | PoolCall.palloc =>
      match st.pmem.palloc with
      | Except.ok (paddr, pmem) =>
          some ⟨pmem, if st.pmem.phys.freeList ≠ 0 then paddr :: st.inUse else st.inUse⟩
      | Except.error _ => none
  | PoolCall.pfree paddr =>
      match st.pmem.pfree paddr with
      | Except.ok pmem => some ⟨pmem, st.inUse.erase paddr⟩
      | Except.error _ => none
  | PoolCall.store f x b =>
      some { st with pmem.phys := st.pmem.phys.setFrame f ((st.pmem.phys.frame f).setByte x b) }

/--
Only frames that were handed out and not yet freed are freed, and bytes are stored in such
frames and in the part of memory that the pool leaves out.
-/
def May (st : PoolState) : PoolCall -> Prop
  | PoolCall.palloc => True
  | PoolCall.pfree paddr => paddr ∈ st.inUse
  | PoolCall.store f _ _ => 4096 * f ∈ st.inUse ∨ f < 1024

def total (st : PoolState) : UInt32 := st.pmem.freePageCnt + st.pmem.usingPageCnt

end PoolState

/-- Frames are free or handed out, and not both. -/
structure Divided (limit : Nat) (sum : UInt32) (st : PoolState) (free : List Nat) : Prop where
  stocked : Stocked limit st.pmem free
  total : st.total = sum
  nodup : st.inUse.Nodup
  used : forall p, p ∈ st.inUse -> exists f, p = 4096 * f ∧ InPool f ∧ p < limit ∧ f ∉ free

section Divisions

variable {limit : Nat} {sum : UInt32} {st : PoolState} {free : List Nat}

theorem palloc_counted_cons {pmem : PhyMemPool} {f : Nat} {rest : List Nat}
    (h : Pool pmem.phys (f :: rest)) :
    pmem.palloc = Except.ok (4096 * f,
      { phys := pmem.phys.pop f, freePageCnt := pmem.freePageCnt - 1,
        usingPageCnt := pmem.usingPageCnt + 1 }) ∧ pmem.phys.freeList ≠ 0 := by
  have hnull : pmem.phys.freeList ≠ 0 := by
    rw [h.linked.left, kernelAddr_eq]
    omega
  refine ⟨?_, hnull⟩
  rw [PhyMemPool.palloc, h.palloc_cons.left, within_ok, poolRun_bind]
  dsimp only
  rw [if_pos hnull]

theorem palloc_counted_nil {pmem : PhyMemPool} (h : Pool pmem.phys []) :
    pmem.palloc = Except.ok (kernelBase,
      { pmem with phys := { pmem.phys with exhausted := true } }) ∧ pmem.phys.freeList = 0 := by
  have hnull : pmem.phys.freeList = 0 := h.linked
  refine ⟨?_, hnull⟩
  rw [PhyMemPool.palloc, h.palloc_nil, within_ok, poolRun_bind]
  dsimp only
  rw [if_neg (fun hne => hne hnull)]

theorem pfree_counted {f : Nat} (hf : InPool f) (pmem : PhyMemPool) :
    pmem.pfree (4096 * f) = Except.ok
      { phys := pmem.phys.push f, freePageCnt := pmem.freePageCnt + 1,
        usingPageCnt := pmem.usingPageCnt - 1 } := by
  rw [PhyMemPool.pfree, pfree_push hf, within_ok, poolRun_bind]

theorem Stocked.pop {pmem : PhyMemPool} {f : Nat} {rest : List Nat}
    (h : Stocked limit pmem (f :: rest)) (using' : UInt32) :
    Stocked limit
      { phys := pmem.phys.pop f, freePageCnt := pmem.freePageCnt - 1, usingPageCnt := using' }
      rest where
  pool := h.pool.palloc_cons.right
  below g hg := h.below g (List.mem_cons_of_mem f hg)
  counted := by
    show pmem.freePageCnt - 1 = _
    rw [h.counted, List.length_cons, UInt32.ofNat_add]
    exact UInt32.add_sub_cancel _ _

theorem Divided.palloc_cons {f : Nat} {rest : List Nat} (h : Divided limit sum st (f :: rest)) :
    exists st', st.step PoolCall.palloc = some st' ∧ Divided limit sum st' rest := by
  rcases palloc_counted_cons h.stocked.pool with ⟨hrun, hnull⟩
  let pmem' : PhyMemPool :=
    { phys := st.pmem.phys.pop f
      freePageCnt := st.pmem.freePageCnt - 1
      usingPageCnt := st.pmem.usingPageCnt + 1 }
  refine ⟨⟨pmem', 4096 * f :: st.inUse⟩, ?_, ?_⟩
  · unfold PoolState.step
    rw [hrun]
    dsimp only
    rw [if_pos hnull]
  · have hnew : f ∉ rest := (List.nodup_cons.mp h.stocked.pool.nodup).left
    constructor
    · exact h.stocked.pop _
    · have hsum := h.total
      unfold PoolState.total at hsum ⊢
      dsimp only
      rw [<- hsum]
      grind
    · apply List.nodup_cons.mpr
      refine ⟨?_, h.nodup⟩
      intro hin
      rcases h.used _ hin with ⟨g, hg, -, -, hout⟩
      have hsame : g = f := by lia
      rw [hsame] at hout
      exact hout List.mem_cons_self
    · intro p hp
      rcases List.mem_cons.mp hp with heq | hin
      · exact ⟨f, heq, h.stocked.pool.inPool f List.mem_cons_self,
          heq ▸ h.stocked.below f List.mem_cons_self, hnew⟩
      · rcases h.used p hin with ⟨g, hg, hpool, hlimit, hout⟩
        exact ⟨g, hg, hpool, hlimit, fun hrest => hout (List.mem_cons_of_mem f hrest)⟩

theorem Divided.palloc_nil (h : Divided limit sum st []) :
    exists st', st.step PoolCall.palloc = some st' ∧ Divided limit sum st' [] := by
  rcases palloc_counted_nil h.stocked.pool with ⟨hrun, hnull⟩
  refine ⟨⟨{ st.pmem with phys := { st.pmem.phys with exhausted := true } }, st.inUse⟩, ?_, ?_⟩
  · unfold PoolState.step
    rw [hrun]
    dsimp only
    rw [if_neg (fun hne => hne hnull)]
  · exact
      { stocked :=
          { pool := h.stocked.pool.congr rfl (fun f hf => nomatch hf)
            below := h.stocked.below
            counted := h.stocked.counted }
        total := h.total
        nodup := h.nodup
        used := h.used }

theorem Divided.pfree {p : Nat} (h : Divided limit sum st free) (hp : p ∈ st.inUse) :
    exists st' f, st.step (PoolCall.pfree p) = some st' ∧ Divided limit sum st' (f :: free) := by
  rcases h.used p hp with ⟨f, rfl, hf, hlimit, hout⟩
  let pmem' : PhyMemPool :=
    { phys := st.pmem.phys.push f
      freePageCnt := st.pmem.freePageCnt + 1
      usingPageCnt := st.pmem.usingPageCnt - 1 }
  refine ⟨⟨pmem', st.inUse.erase (4096 * f)⟩, f, ?_, ?_⟩
  · unfold PoolState.step
    dsimp only
    rw [pfree_counted hf]
  · have hpushed := h.stocked.push hf hlimit hout
    constructor
    · exact ⟨hpushed.pool, hpushed.below, hpushed.counted⟩
    · have hsum := h.total
      unfold PoolState.total at hsum ⊢
      dsimp only
      rw [<- hsum]
      grind
    · exact h.nodup.erase _
    · intro q hq
      rcases h.nodup.mem_erase_iff.mp hq with ⟨hne, hin⟩
      rcases h.used q hin with ⟨g, hg, hpool, hbelow, hfree⟩
      refine ⟨g, hg, hpool, hbelow, ?_⟩
      intro hmem
      rcases List.mem_cons.mp hmem with heq | hold
      · rw [heq] at hg
        exact hne hg
      · exact hfree hold

theorem Divided.store {f : Nat} (x : Nat) (b : UInt8) (h : Divided limit sum st free)
    (hf : 4096 * f ∈ st.inUse ∨ f < 1024) :
    exists st', st.step (PoolCall.store f x b) = some st' ∧ Divided limit sum st' free := by
  have hout : f ∉ free := by
    intro hin
    rcases hf with hused | hlow
    · rcases h.used _ hused with ⟨g, hg, -, -, hfree⟩
      have hsame : g = f := by lia
      rw [hsame] at hfree
      exact hfree hin
    · exact absurd (h.stocked.pool.inPool f hin).left (Nat.not_le.mpr hlow)
  refine ⟨_, rfl, ?_⟩
  exact
    { stocked :=
        { pool := h.stocked.pool.congr rfl
            (fun g hg => setFrame_of_ne _ (fun heq => hout (heq ▸ hg)))
          below := h.stocked.below
          counted := h.stocked.counted }
      total := h.total
      nodup := h.nodup
      used := h.used }

/-- Every call that may be made succeeds, and leaves the frames divided. -/
theorem Divided.step (call : PoolCall) (h : Divided limit sum st free) (hmay : st.May call) :
    exists st' free', st.step call = some st' ∧ Divided limit sum st' free' := by
  cases call with
  | palloc =>
      cases free with
      | nil =>
          rcases h.palloc_nil with ⟨st', hstep, hdivided⟩
          exact ⟨st', [], hstep, hdivided⟩
      | cons f rest =>
          rcases h.palloc_cons with ⟨st', hstep, hdivided⟩
          exact ⟨st', rest, hstep, hdivided⟩
  | pfree paddr =>
      rcases h.pfree hmay with ⟨st', f, hstep, hdivided⟩
      exact ⟨st', f :: free, hstep, hdivided⟩
  | store f x b =>
      rcases h.store x b hmay with ⟨st', hstep, hdivided⟩
      exact ⟨st', free, hstep, hdivided⟩

/-- What `palloc` answers is not in use, whether there was a free frame or not. -/
theorem Divided.palloc_fresh (h : Divided limit sum st free) (hlimit : limit ≤ phyMemoryTop)
    {paddr : Nat} {pmem : PhyMemPool} (hrun : st.pmem.palloc = Except.ok (paddr, pmem)) :
    paddr ∉ st.inUse := by
  intro hin
  rcases h.used paddr hin with ⟨f, hf, -, hbelow, hout⟩
  cases free with
  | nil =>
      rw [(palloc_counted_nil h.stocked.pool).left] at hrun
      cases hrun
      have htop : phyMemoryTop = 1073741824 := rfl
      rw [kernelBase_eq] at hbelow
      omega
  | cons g rest =>
      rw [(palloc_counted_cons h.stocked.pool).left] at hrun
      cases hrun
      have hsame : f = g := by omega
      rw [hsame] at hout
      exact hout List.mem_cons_self

theorem Divided.run {ok : PoolState -> PoolCall -> Prop} {st' : PoolState}
    (h : Divided limit sum st free) (hok : forall r a, ok r a -> r.May a)
    (hreaches : Reaches PoolState.step ok st st') : exists free', Divided limit sum st' free' := by
  apply hreaches.invariant (P := fun r => exists free', Divided limit sum r free')
  · exact ⟨free, h⟩
  · intro r t call hex hcall hstep
    rcases hex with ⟨free', hdivided⟩
    rcases hdivided.step call (hok r call hcall) with ⟨t', free'', hstep', hdivided'⟩
    rw [hstep] at hstep'
    cases hstep'
    exact ⟨free'', hdivided'⟩

end Divisions

/-- What holds of the pool at any time. -/
structure PoolHolds (totalMemory : UInt32) (start : PhyMemPool) (st : PoolState) : Prop where
  list : exists free : List Nat, Linked st.pmem.phys.frame st.pmem.phys.freeList free ∧
    free.Nodup ∧
    (forall f, f ∈ free -> kernelSpaceSize ≤ pgSize * f ∧
      pgSize * f < min totalMemory.toNat phyMemoryTop) ∧
    (forall f, f ∈ free -> pgSize * f ∉ st.inUse) ∧
    st.pmem.freePageCnt.toNat = free.length
  total : st.pmem.freePageCnt + st.pmem.usingPageCnt = start.freePageCnt + start.usingPageCnt
  succeeds : forall call, st.May call -> exists st', st.step call = some st'
  fresh : forall paddr pmem, st.pmem.palloc = Except.ok (paddr, pmem) -> paddr ∉ st.inUse

/--
`pmem_init` accepts every memory of at least 32 MB in whole pages, and the pool that it makes
holds up under every sequence of `palloc`, `pfree` of frames in use and stores to them.
-/
theorem pagePool_holds (totalMemory : UInt32) (pmem : PhyMemPool)
    (hsize : 1024 * 1024 * 32 ≤ totalMemory.toNat) (hpages : totalMemory.toNat % pgSize = 0) :
    exists start, PhyMemPool.pmemInit totalMemory pmem = Except.ok start ∧
      forall st, Reaches PoolState.step PoolState.May ⟨start, []⟩ st ->
        PoolHolds totalMemory start st := by
  rcases pmemInit_stocked pmem hsize hpages with ⟨start, free, hrun, hstocked, -, -⟩
  refine ⟨start, hrun, ?_⟩
  intro st hreaches
  have hdivided : Divided (min totalMemory.toNat phyMemoryTop)
      (start.freePageCnt + start.usingPageCnt) ⟨start, []⟩ free :=
    { stocked := hstocked
      total := rfl
      nodup := List.nodup_nil
      used := fun p hp => nomatch hp }
  rcases hdivided.run (fun _ _ hmay => hmay) hreaches with ⟨free', h⟩
  constructor
  · refine ⟨free', h.stocked.pool.linked, h.stocked.pool.nodup, ?_, ?_, h.stocked.count⟩
    · intro f hf
      have hlow := (h.stocked.pool.inPool f hf).left
      have hpg : pgSize = 4096 := rfl
      have hkernel : kernelSpaceSize = 4194304 := rfl
      rw [hpg, hkernel]
      exact ⟨by omega, h.stocked.below f hf⟩
    · intro f hf hin
      rcases h.used _ hin with ⟨g, hg, -, -, hout⟩
      have hpg : pgSize = 4096 := rfl
      rw [hpg] at hg
      have hsame : g = f := by omega
      rw [hsame] at hout
      exact hout hf
  · exact h.total
  · intro call hmay
    rcases h.step call hmay with ⟨st', -, hstep, -⟩
    exact ⟨st', hstep⟩
  · intro paddr pmem' hpalloc
    exact h.palloc_fresh (Nat.min_le_right _ _) hpalloc

/-- A memory of 32 MB, and the first frame taken from its pool. -/
theorem pagePool_holds_32MB :
    exists start st,
      PhyMemPool.pmemInit 33554432
          { phys := { frame := fun _ _ => 0, freeList := 0, exhausted := false }
            freePageCnt := 0
            usingPageCnt := 0 } = Except.ok start ∧
        PoolState.step ⟨start, []⟩ PoolCall.palloc = some st ∧ PoolHolds 33554432 start st := by
  rcases pagePool_holds 33554432
    { phys := { frame := fun _ _ => 0, freeList := 0, exhausted := false }
      freePageCnt := 0
      usingPageCnt := 0 } (by decide) (by decide) with ⟨start, hrun, hholds⟩
  rcases (hholds _ Reaches.refl).succeeds PoolCall.palloc trivial with ⟨st, hstep⟩
  have hreaches : Reaches PoolState.step PoolState.May ⟨start, []⟩ st :=
    Reaches.next (a := PoolCall.palloc) Reaches.refl trivial hstep
  exact ⟨start, st, hrun, hstep, hholds _ hreaches⟩

end Vm
end Kernel
end NicoOS
