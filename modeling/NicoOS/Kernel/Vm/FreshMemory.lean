import NicoOS.Kernel.Vm.FileBytes

/-!
# What fresh user memory reads as

A page that `proc_execv` or `vm_grow_userheap` maps shows what its frame held on the free
list, apart from what the file provides.
-/

namespace NicoOS
namespace Kernel
namespace Vm

open Lib

/-!
# Zeroes
-/

/-- The bytes of the segments that the file does not provide read as 0. -/
def SegmentsZero (s : Phys) (d : Nat) (headers : List (Option Proghdr)) : Prop :=
  forall ph, some ph ∈ headers -> ph.memsz ≠ 0 -> forall v x, ph.Covers v -> x < 4096 ->
    Not (FromFile ph.vaddr ph.filesz v x) -> userByte s d (4096 * v + x) = some 0

/-- The free frames that the segments get are 0 where the file does not write. -/
def SegmentsClear (s : Phys) (free : List Nat) (headers : List (Option Proghdr)) : Prop :=
  forall ph, some ph ∈ headers -> ph.memsz ≠ 0 -> forall v f x, ph.Covers v ->
    execPage headers free v = some f -> x < 4096 -> Not (FromFile ph.vaddr ph.filesz v x) ->
      s.frame f x = 0

/-- Every byte that was not accessible before reads as 0. -/
def NewZero (s : Phys) (L : Layout) : Prop :=
  forall v x b, L.page v = none -> x < 4096 -> userByte s L.dir (4096 * v + x) = some b -> b = 0

/-- The free frames that the plan gives to the heap are 0. -/
def HeapClear (s : Phys) (free : List Nat) (L : Layout) (brk bytes : Nat) : Prop :=
  forall v f x, (v, f) ∈ plan (rounds brk (brk + bytes)) (brk / 4096) L.hasTable L.hasPage free ->
    x < 4096 -> s.frame f x = 0

section Zeroes

variable {s s' : Phys} {free : List Nat} {L : Layout}

/-- What the pages of a segment show behind `proc_execv`. -/
theorem segment_bytes {s0 s1 : Phys} {free0 free' : List Nat} {C1 C : Layout}
    {headers : List (Option Proghdr)} {ph : Proghdr} {v : Nat} {d : Nat}
    (himage : Image s0 free0 (emptyLayout d) headers s1 free C1)
    (hsound : Sound s' free' C) (hdir : C.dir = d) (hpage : C.page = execPage headers free0)
    (hkept : forall v f, C1.page v = some f -> C.page v = some f ∧ s'.frame f = s1.frame f)
    (hidle : forall f, f ∈ free0 -> s0.frame f = s.frame f) (hph : some ph ∈ headers)
    (hmem : ph.memsz ≠ 0) (hv : ph.Covers v) :
    exists f, execPage headers free0 v = some f ∧ forall x, x < 4096 ->
      Not (FromFile ph.vaddr ph.filesz v x) ->
        userByte s' d (4096 * v + x) = some (s.frame f x) := by
  rcases (himage.segments ph hph hmem).right v hv with ⟨-, f, hv1, hbytes⟩
  rcases hkept v f hv1 with ⟨hvC, hframe⟩
  have hfree : f ∈ free0 := by
    rcases himage.fresh v f hv1 with hold | hfree
    · cases hold
    · exact hfree
  refine ⟨f, by rw [<- hpage, hvC], ?_⟩
  intro x hx hout
  rw [userByte_page hsound hdir hvC hx, hframe, hbytes x hout, hidle f hfree]

theorem segments_zero_iff {older : AddressSpace} {refill : Bool}
    {inode : Option (Nat × List UInt8)} {args : List (List UInt8)} {e : Execd}
    {file : List UInt8} {eh : Elfhdr} {d : Nat} (h : Sound s free L)
    (holder : older.pgdir = kernelAddr L.dir) (hmemory : ArgsInMemory args)
    (hfollow : ArgumentsFollow refill inode args free)
    (hrun : procExecv older refill inode args s = Except.ok (some e, s'))
    (hfresh : s'.exhausted = false) (hprogram : program inode = some (file, eh))
    (hd : e.vm.pgdir = kernelAddr d) :
    SegmentsZero s' d (readProghdrs file eh.phnum eh.phoff) <->
      SegmentsClear s (freeBehind refill free) (readProghdrs file eh.phnum eh.phoff) := by
  rcases vmNew_cases refill h with ⟨s0, free0, c, hnew, hiso, -, hleft, hsame⟩ | ⟨-, e0, hnew, -⟩
  · unfold ArgumentsFollow at hfollow
    rw [freeBehind_eq hleft] at hfollow ⊢
    rw [procExecv_program hnew hprogram] at hrun
    rcases execProgram_loaded hiso holder rfl hmemory (hfollow file eh hprogram) hrun hfresh with
      ⟨-, hvm, s1, free1, C1, free', C, hload, hdry, ⟨hsound1, hdir1⟩, ⟨hsound, hdir⟩, hpage,
        hkept⟩
    have hcd : c = d := by
      rw [hvm] at hd
      exact kernelAddr_injective hd
    cases hcd
    have hword : forall ph, some ph ∈ readProghdrs file eh.phnum eh.phoff -> ph.Word :=
      fun ph hph => readProghdrs_word hph
    rcases loadProghdrs_image hiso.right rfl hword hload hdry with ⟨free2, C2, himage⟩
    have hlayout := hsound1.unique himage.sound (himage.dir.trans hdir1.symm)
    rw [hlayout] at himage
    constructor
    · intro hzero ph hph hmem v f x hv hplan hx hout
      rcases segment_bytes himage hsound hdir hpage hkept (fun f hf => hsame f (Or.inr hf)) hph
        hmem hv with ⟨g, hg, hbytes⟩
      rw [hplan] at hg
      cases hg
      have hread := hzero ph hph hmem v x hv hx hout
      rw [hbytes x hx hout] at hread
      exact Option.some.inj hread
    · intro hclear ph hph hmem v x hv hx hout
      rcases segment_bytes himage hsound hdir hpage hkept (fun f hf => hsame f (Or.inr hf)) hph
        hmem hv with ⟨f, hf, hbytes⟩
      rw [hbytes x hx hout, hclear ph hph hmem v f x hv hf hx hout]
  · unfold procExecv at hrun
    rw [hnew, error_bind] at hrun
    cases hrun

theorem heap_zero_iff {brk : Nat} {bytesCnt : Int} {vm' : AddressSpace} {old : Nat}
    (h : Sound s free L) (hbrk : brk < 0x100000000) (hbytes : bytesCnt < 0x80000000)
    (hrun : vmGrowUserheap { pgdir := kernelAddr L.dir, brk := brk } bytesCnt s =
      Except.ok ((old, vm'), s')) (hserved : old ≠ 0) (hfresh : s'.exhausted = false) :
    NewZero s' L <-> HeapClear s free L brk bytesCnt.toNat := by
  have hok : brk ≠ 0 ∧ 0 ≤ bytesCnt ∧ brk + bytesCnt.toNat < userHeapTop := by
    by_cases hok : brk ≠ 0 ∧ 0 ≤ bytesCnt ∧ brk + bytesCnt.toNat < userHeapTop
    · exact hok
    · have hinside : brk = 0 ∨ bytesCnt < 0 ∨ wrap (brk + bytesCnt.toNat) < brk ∨
          wrap (brk + bytesCnt.toNat) ≥ userHeapTop := by
        have htopEq : userHeapTop = 2147467264 := rfl
        rw [wrap_eq]
        omega
      unfold vmGrowUserheap at hrun
      dsimp only at hrun
      split at hrun
      · cases hrun
      · split at hrun
        · cases hrun
          exact absurd rfl hserved
        · rename_i hnull hneg
          rcases hinside with hzero | hneg' | hout
          · exact absurd hzero hnull
          · exact absurd hneg' hneg
          · rw [if_pos hout] at hrun
            cases hrun
            exact absurd rfl hserved
  rw [grow_accepted hbrk hbytes hok] at hrun
  have htop := userHeapTop_lt hok.right.right
  by_cases henough : growNeed (rounds brk (brk + bytesCnt.toNat)) (brk / 4096) L.hasTable
      L.hasPage ≤ free.length
  · rcases growFrom_enough h htop rfl (rounds_le brk bytesCnt.toNat) henough with
      ⟨s1, free1, L1, hgrow, hranges⟩
    rw [hgrow, ok_bind, if_pos rfl] at hrun
    cases hrun
    have hgrown := hranges.grown
    constructor
    · intro hzero v f x hplan hx
      have hpage : L1.page v = some f := (hranges.page v f).mpr (Or.inr hplan)
      have hnone : L.page v = none := plan_unmapped hplan
      rw [<- hgrown.pages v f hpage]
      exact hzero v x _ hnone hx (userByte_page hgrown.sound hgrown.dir hpage hx)
    · intro hclear v x b hnone hx hread
      cases hpage : L1.page v with
      | none =>
          have hdiv : (4096 * v + x) / 4096 = v := by omega
          unfold userByte at hread
          rw [<- hgrown.dir, hgrown.sound.layout, hdiv, hpage] at hread
          cases hread
      | some f =>
          rw [userByte_page hgrown.sound hgrown.dir hpage hx] at hread
          cases hread
          rw [hgrown.pages v f hpage]
          rcases (hranges.page v f).mp hpage with hold | hplan
          · rw [hnone] at hold
            cases hold
          · exact hclear v f x hplan hx
  · have hshort := growFrom_short h htop rfl (rounds_le brk bytesCnt.toNat)
      (Nat.lt_of_not_le henough)
    rcases bind_ok hrun with ⟨a, hgrow, hrest⟩
    have hend := hshort.of_ok hgrow
    rw [if_pos hend.left] at hrest
    cases hrest
    exact absurd hend.right (not_dry_of_fresh hfresh)

/--
Fresh user memory reads as 0 exactly where the frames that the free list has for it are 0:
behind a `proc_execv` that copies no argument over the end of a frame, outside of what the
file provides, and behind `vm_grow_userheap`.
-/
theorem fresh_memory_zero_iff (s : Phys) (free : List Nat) (L : Layout) (h : Sound s free L) :
    (forall (older : AddressSpace) (refill : Bool) (inode : Option (Nat × List UInt8))
        (args : List (List UInt8)) (e : Execd) (s' : Phys) (file : List UInt8) (eh : Elfhdr)
        (d : Nat),
      older.pgdir = kernelAddr L.dir -> ArgsInMemory args ->
      ArgumentsFollow refill inode args free ->
      procExecv older refill inode args s = Except.ok (some e, s') -> s'.exhausted = false ->
      program inode = some (file, eh) -> e.vm.pgdir = kernelAddr d ->
      (SegmentsZero s' d (readProghdrs file eh.phnum eh.phoff) <->
        SegmentsClear s (freeBehind refill free) (readProghdrs file eh.phnum eh.phoff))) ∧
    forall (brk : Nat) (bytesCnt : Int) (old : Nat) (vm' : AddressSpace) (s' : Phys),
      brk < 0x100000000 -> bytesCnt < 0x80000000 ->
      vmGrowUserheap { pgdir := kernelAddr L.dir, brk := brk } bytesCnt s =
        Except.ok ((old, vm'), s') -> old ≠ 0 -> s'.exhausted = false ->
      (NewZero s' L <-> HeapClear s free L brk bytesCnt.toNat) := by
  constructor
  · intro older refill inode args e s' file eh d holder hmemory hfollow hrun hfresh hprogram hd
    exact segments_zero_iff h holder hmemory hfollow hrun hfresh hprogram hd
  · intro brk bytesCnt old vm' s' hbrk hbytes hrun hserved hfresh
    exact heap_zero_iff h hbrk hbytes hrun hserved hfresh

end Zeroes

theorem linked_grow :
    exists s' free' L', vmGrowUserheap { pgdir := kernelAddr 1024, brk := userHeapBase } 4096
        linkedPhys =
        Except.ok ((userHeapBase, { pgdir := kernelAddr 1024, brk := userHeapBase + 4096 }), s') ∧
      Served linkedPhys [1025, 1026] bareLayout 1 (userHeapBase / 4096) s' free' L' := by
  have htop : userHeapBase + 4096 < kernelBase := by decide
  have hrounds : rounds userHeapBase (userHeapBase + 4096) = 1 := by decide
  have hneed : growNeed 1 (userHeapBase / 4096) bareLayout.hasTable bareLayout.hasPage ≤
      [1025, 1026].length := by decide
  rcases growFrom_enough (n := 2) linkedSound htop hrounds (by decide) hneed with
    ⟨s', free', L', hrun, hserved⟩
  refine ⟨s', free', L', ?_, hserved⟩
  have hdir : bareLayout.dir = 1024 := rfl
  have hbytes : (4096 : Int).toNat = 4096 := rfl
  have hfuel : 4096 / pgSize + 1 = 2 := rfl
  rw [hdir] at hrun
  rw [grow_accepted (by decide) (by decide) (by decide), hbytes, hfuel, hrun, ok_bind, if_pos rfl]

/-- A program with a segment of one byte, and a heap that gets its first page. -/
theorem fresh_memory_zero_iff_byteElf :
    (exists e s', procExecv roomyVm false (some (inodeFile, byteElf)) pagedArgs rowPhys =
        Except.ok (some e, s') ∧
      forall d, e.vm.pgdir = kernelAddr d ->
        (SegmentsZero s' d [some clippedHeader] <->
          SegmentsClear rowPhys (List.range' 1026 7) [some clippedHeader])) ∧
    exists s', vmGrowUserheap { pgdir := kernelAddr 1024, brk := userHeapBase } 4096 linkedPhys =
        Except.ok ((userHeapBase, { pgdir := kernelAddr 1024, brk := userHeapBase + 4096 }), s') ∧
      (NewZero s' bareLayout <->
        HeapClear linkedPhys [1025, 1026] bareLayout userHeapBase 4096) := by
  constructor
  · rcases byte_program with ⟨eh, hprogram, hheaders⟩
    rcases clipped_ends hprogram hheaders byteHeader_loads pagedArgs_inMemory pagedArgs_follow
      (List.cons_ne_nil _ _) with ⟨r, s', hrun, hfresh, hnone⟩
    cases r with
    | none => exact absurd pagedArgs_room (hnone.mp rfl)
    | some e =>
        refine ⟨e, s', hrun, ?_⟩
        intro d hd
        rw [<- hheaders]
        exact (fresh_memory_zero_iff rowPhys (List.range' 1025 8) bareLayout rowSound).left roomyVm
          false (some (inodeFile, byteElf)) pagedArgs e s' byteElf eh d rfl pagedArgs_inMemory
          (fun _ _ _ _ => pagedArgs_follow _) hrun hfresh hprogram hd
  · rcases linked_grow with ⟨s', free', L', hrun, hserved⟩
    refine ⟨s', hrun, ?_⟩
    exact (fresh_memory_zero_iff linkedPhys [1025, 1026] bareLayout linkedSound).right userHeapBase
      4096 userHeapBase _ s' (by decide) (by decide) hrun (by decide)
      hserved.grown.exhausted

/-- The new heap page shows a byte of the link that its frame held on the free list. -/
theorem grow_shows_link :
    exists s', vmGrowUserheap { pgdir := kernelAddr 1024, brk := userHeapBase } 4096 linkedPhys =
        Except.ok ((userHeapBase, { pgdir := kernelAddr 1024, brk := userHeapBase + 4096 }), s') ∧
      userByte linkedPhys 1024 (userHeapBase + 1) = none ∧
      userByte s' 1024 (userHeapBase + 1) = some 0x20 := by
  rcases linked_grow with ⟨s', free', L', hrun, hserved⟩
  have hplan : (userHeapBase / 4096, 1025) ∈ plan 1 (userHeapBase / 4096) bareLayout.hasTable
      bareLayout.hasPage [1025, 1026] := by decide
  have hpage : L'.page (userHeapBase / 4096) = some 1025 :=
    (hserved.page _ _).mpr (Or.inr hplan)
  have hbyte : linkedPhys.frame 1025 1 = 0x20 := by decide +kernel
  have haddr : userHeapBase + 1 = 4096 * (userHeapBase / 4096) + 1 := by decide
  refine ⟨s', hrun, ?_, ?_⟩
  · have hbefore : (layoutOf linkedPhys 1024).page = bareLayout.page :=
      congrArg Layout.page linkedSound.layout
    unfold userByte
    rw [hbefore]
    rfl
  · have hdir : L'.dir = 1024 := hserved.grown.dir
    have hone : 1 < 4096 := by decide
    rw [haddr, userByte_page hserved.grown.sound hdir hpage hone, hserved.grown.pages _ _ hpage,
      hbyte]

end Vm
end Kernel
end NicoOS
