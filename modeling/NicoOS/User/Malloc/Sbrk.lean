import NicoOS.Kernel.Vm.Hostile
import NicoOS.Kernel.Vm.Sbrk
import NicoOS.User.Malloc.Request

/-!
# The break of the process and the page tables

What the allocator sees of `sbrk` is what `vm_grow_userheap` does to the page directory: the same
answers, and the same pages behind them, over every run of calls that find their frames.
-/

namespace NicoOS
namespace User
namespace Malloc

open Lib
open Kernel.Vm (AddressSpace Phys Layout Sound Served FindsFrames vmGrowUserheap layoutOf kernelAddr
  rounds growFrom_enough grow_accepted rounds_le userHeapTop_lt pgSize userHeapBase userHeapTop)

/-- The `int32_t` that the kernel takes a machine word for. -/
def int32Of (n : Nat) : Int := if n < 0x80000000 then n else (n : Int) - 0x100000000

/-- The address space of the directory in frame `d`, with a break in the heap. -/
structure Space (d : Nat) (x : AddressSpace × Phys) (free : List Nat) (L : Layout) : Prop where
  sound : Sound x.2 free L
  dir : L.dir = d
  pgdir : x.1.pgdir = kernelAddr d
  low : userHeapBase ≤ x.1.brk
  high : x.1.brk < userHeapTop

/-- The process has the break of the address space and its pages. -/
structure Mirrors (d : Nat) (x : AddressSpace × Phys) (p : Process) : Prop where
  brk : p.brk = x.1.brk
  mapped : forall v, p.mapped v = (layoutOf x.2 d).hasPage v

def bothStep (x : (AddressSpace × Phys) × Process) (n : Nat) :
    Option ((AddressSpace × Phys) × Process) :=
  match vmGrowUserheap x.1.1 (int32Of n) x.1.2 with
  | Except.ok ((_, vm), s) => some ((vm, s), (sbrk n x.2).2)
  | Except.error _ => none

/-- The call is one of a machine word, and finds its frames. -/
def Finds (d : Nat) (x : (AddressSpace × Phys) × Process) (n : Nat) : Prop :=
  n < addrEnd ∧ FindsFrames d x.1 (int32Of n)

section Sbrk

variable {d n : Nat} {x y : AddressSpace × Phys} {p : Process} {free : List Nat} {L : Layout}

theorem int32Of_small (h : n < 0x80000000) : int32Of n = n := if_pos h

theorem int32Of_negative (hlo : 0x80000000 ≤ n) (hhi : n < addrEnd) : int32Of n < 0 := by
  have hend : addrEnd = 0x100000000 := rfl
  unfold int32Of
  rw [if_neg (Nat.not_lt_of_le hlo)]
  lia

theorem Space.layout (h : Space d x free L) : layoutOf x.2 d = L := by
  rw [← h.dir]
  exact h.sound.layout

theorem hasPage_iff (M : Layout) (v : Nat) : M.hasPage v = true <-> M.page v ≠ none := by
  unfold Layout.hasPage
  rw [Option.isSome_iff_ne_none]

/-- A refused call changes nothing in the kernel, and nothing in the process. -/
theorem Space.refused (h : Space d x free L) (hm : Mirrors d x p) (hn : n < addrEnd)
    (hno : Not (Grants n p)) :
    vmGrowUserheap x.1 (int32Of n) x.2 = Except.ok (((sbrk n p).1, x.1), x.2) ∧
      (sbrk n p).2 = p := by
  have hlow := h.low
  rw [userHeapBase_eq] at hlow
  have hhigh := h.high
  rw [userHeapTop_eq] at hhigh
  rw [sbrk_refused hno]
  refine ⟨?_, rfl⟩
  unfold vmGrowUserheap
  rw [if_neg (by lia)]
  cases Nat.lt_or_ge n 0x80000000 with
  | inr hge => rw [if_pos (int32Of_negative hge hn)]
  | inl hlt =>
      have hout : Not (p.brk + n < userHeapTop) := fun hin => hno ⟨hlt, hin⟩
      rw [hm.brk, userHeapTop_eq] at hout
      rw [int32Of_small hlt, if_neg (by lia)]
      dsimp only
      rw [Int.toNat_natCast, if_pos]
      rw [Kernel.Vm.wrap_eq, userHeapTop_eq]
      lia

/-- A call that is granted maps the pages that the process sees. -/
theorem Space.granted (h : Space d x free L) (hm : Mirrors d x p) (hyes : Grants n p)
    (hframes : FindsFrames d x (int32Of n)) :
    exists y free' L',
      vmGrowUserheap x.1 (int32Of n) x.2 = Except.ok (((sbrk n p).1, y.1), y.2) ∧
        Space d y free' L' ∧ Mirrors d y (sbrk n p).2 := by
  have hin := hyes.inside
  rw [hm.brk] at hin
  have hlow := h.low
  rw [userHeapBase_eq] at hlow
  have hend := userHeapTop_lt hin
  rw [int32Of_small hyes.small] at hframes ⊢
  have henough : Kernel.Vm.growNeed (rounds x.1.brk (x.1.brk + n)) (x.1.brk / 4096) L.hasTable
      L.hasPage ≤ free.length := by
    rcases hframes with ⟨free', hpool, henough⟩
    rw [h.layout, hpool.linked.unique h.sound.pool.linked, Int.toNat_natCast] at henough
    exact henough
  rcases growFrom_enough h.sound hend rfl (rounds_le x.1.brk n) henough with
    ⟨s', free', L', hgrow, hserved⟩
  have hdir' : L'.dir = d := hserved.grown.dir.trans h.dir
  have hlayout' : layoutOf s' d = L' := by
    rw [← hdir']
    exact hserved.grown.sound.layout
  have hpgdir : x.1 = { pgdir := kernelAddr L.dir, brk := x.1.brk } := by
    rw [h.dir, ← h.pgdir]
  have hrun : vmGrowUserheap { pgdir := kernelAddr L.dir, brk := x.1.brk } n x.2 =
      Except.ok ((x.1.brk, { pgdir := kernelAddr L.dir, brk := x.1.brk + n }), s') := by
    have hsmall := hyes.small
    have hword : x.1.brk < 0x100000000 := by
      rw [userHeapTop_eq] at hin
      lia
    rw [grow_accepted hword (by lia) ⟨by lia, Int.natCast_nonneg n, hin⟩, Int.toNat_natCast, hgrow]
    rfl
  rcases sbrk_grants hyes with ⟨p1, hanswer, hgrown, -, -⟩
  refine ⟨({ pgdir := x.1.pgdir, brk := x.1.brk + n }, s'), free', L', ?_, ?_, ?_⟩
  · rw [hanswer, hm.brk, hpgdir]
    exact hrun
  · exact ⟨hserved.grown.sound, hdir', h.pgdir, Nat.le_trans h.low (Nat.le_add_right _ _), hin⟩
  · rw [hanswer]
    constructor
    · rw [hgrown.brk, hm.brk]
    · intro v
      have hrounds : rounds x.1.brk (x.1.brk + n) = (n + pgSize - 1) / pgSize := by
        unfold rounds
        rw [Nat.add_sub_cancel_left]
        rfl
      dsimp only
      rw [hlayout', Bool.eq_iff_iff, hgrown.mapped, growPages_iff, hasPage_iff,
        hserved.page_iff, hm.mapped, h.layout, hasPage_iff, hrounds, hm.brk]
      rfl

theorem Space.step (h : Space d x free L) (hm : Mirrors d x p) (hn : n < addrEnd)
    (hframes : FindsFrames d x (int32Of n)) :
    exists y free' L',
      vmGrowUserheap x.1 (int32Of n) x.2 = Except.ok (((sbrk n p).1, y.1), y.2) ∧
        Space d y free' L' ∧ Mirrors d y (sbrk n p).2 := by
  cases Classical.em (Grants n p) with
  | inl hyes => exact h.granted hm hyes hframes
  | inr hno =>
      rcases h.refused hm hn hno with ⟨hrun, hsame⟩
      refine ⟨x, free, L, hrun, h, ?_⟩
      rw [hsame]
      exact hm

end Sbrk

/--
Over every run of calls that find their frames the kernel gives the answers that the process
sees, and the page directory has the pages of the process.
-/
theorem sbrk_agrees_with_kernel {d : Nat} {x0 x : (AddressSpace × Phys) × Process}
    {free : List Nat} {L : Layout} (hspace : Space d x0.1 free L) (hmirrors : Mirrors d x0.1 x0.2)
    (hreach : Reaches bothStep (Finds d) x0 x) (n : Nat) (hfinds : Finds d x n) :
    Mirrors d x.1 x.2 ∧
      exists y, vmGrowUserheap x.1.1 (int32Of n) x.1.2 =
          Except.ok (((sbrk n x.2).1, y.1), y.2) ∧ Mirrors d y (sbrk n x.2).2 := by
  have hinv : (exists free L, Space d x.1 free L) ∧ Mirrors d x.1 x.2 := by
    apply hreach.invariant (P := fun z =>
      (exists free L, Space d z.1 free L) ∧ Mirrors d z.1 z.2) ⟨⟨free, L, hspace⟩, hmirrors⟩
    intro z w m hboth hboth' hstep
    rcases hboth with ⟨⟨free1, L1, hz⟩, hm⟩
    rcases hboth' with ⟨hword, hfound⟩
    rcases hz.step hm hword hfound with ⟨y, free2, L2, hrun, hy, hmy⟩
    unfold bothStep at hstep
    rw [hrun] at hstep
    rw [← Option.some.inj hstep]
    exact ⟨⟨free2, L2, hy⟩, hmy⟩
  rcases hinv with ⟨⟨free1, L1, h⟩, hm⟩
  rcases h.step hm hfinds.left hfinds.right with ⟨y, -, -, hrun, -, hmy⟩
  exact ⟨hm, y, hrun, hmy⟩

/-- The process of the address space without user pages. -/
def linkedProcess : Process where
  mem := fun _ => 0
  mapped := (layoutOf Kernel.Vm.linkedHeap.2 1024).hasPage
  brk := userHeapBase
  freep := 0

/-- Half a page of heap, in the kernel and in the process. -/
theorem linkedProcess_grown : exists y free L, Kernel.Vm.Heap 1024 y free L ∧
    y.1.brk = userHeapBase + 2048 ∧ L.page (userHeapBase / 4096) ≠ none ∧
      bothStep (Kernel.Vm.linkedHeap, linkedProcess) 2048 =
        some (y, (sbrk 2048 linkedProcess).2) := by
  rcases Kernel.Vm.linkedHeap_grown with ⟨y, free, L, hstep, hheap, hbrk, hpage, -⟩
  refine ⟨y, free, L, hheap, hbrk, hpage, ?_⟩
  have hword : int32Of 2048 = 2048 := int32Of_small (by decide)
  unfold Kernel.Vm.sbrk at hstep
  unfold bothStep
  dsimp only
  rw [hword]
  cases hrun : vmGrowUserheap Kernel.Vm.linkedHeap.1 2048 Kernel.Vm.linkedHeap.2 with
  | error e =>
      rw [hrun] at hstep
      cases hstep
  | ok r =>
      rw [hrun] at hstep
      rw [← Option.some.inj hstep]

/-- The second call finds the page of the break there already. -/
theorem sbrk_agrees_with_kernel_linked :
    exists x, bothStep (Kernel.Vm.linkedHeap, linkedProcess) 2048 = some x ∧
      Mirrors 1024 x.1 x.2 ∧
      exists y, vmGrowUserheap x.1.1 (int32Of 4096) x.1.2 =
          Except.ok (((sbrk 4096 x.2).1, y.1), y.2) ∧
        Mirrors 1024 y (sbrk 4096 x.2).2 := by
  have h := Kernel.Vm.linkedHeap_sound
  have hspace : Space 1024 Kernel.Vm.linkedHeap [1025, 1026] Kernel.Vm.bareLayout :=
    ⟨h.sound, h.dir, h.pgdir, h.low, h.high⟩
  have hmirrors : Mirrors 1024 Kernel.Vm.linkedHeap linkedProcess := ⟨rfl, fun _ => rfl⟩
  rcases linkedProcess_grown with ⟨y, free, L, hheap, hbrk, hpage, hstep⟩
  have hfirst : Finds 1024 (Kernel.Vm.linkedHeap, linkedProcess) 2048 :=
    ⟨by decide, Kernel.Vm.linkedHeap_frames⟩
  have hreach : Reaches bothStep (Finds 1024) (Kernel.Vm.linkedHeap, linkedProcess)
      (y, (sbrk 2048 linkedProcess).2) :=
    Reaches.refl.next hfirst hstep
  have hword : int32Of 4096 = 4096 := int32Of_small (by decide)
  have hfinds : Finds 1024 (y, (sbrk 2048 linkedProcess).2) 4096 := by
    constructor
    · decide
    · rw [hword]
      exact Kernel.Vm.linkedHeap_finds hheap hbrk hpage
  exact ⟨_, hstep, sbrk_agrees_with_kernel hspace hmirrors hreach 4096 hfinds⟩

end Malloc
end User
end NicoOS
