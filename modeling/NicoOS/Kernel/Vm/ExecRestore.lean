import NicoOS.Kernel.Vm.FileBytes
import NicoOS.Fs.Syscall.ExecRecords

/-!
# What a failed `proc_execv` leaves

Where `proc_execv` returns -1 the task, its address space, the free frames and the
records of the file system are what they were, unless an argument has been copied over
the end of a frame.
-/

namespace NicoOS
namespace Kernel
namespace Vm

open Lib

/-!
# The task
-/

/-- The part of the task that `proc_execv` changes. -/
structure TaskImage where
  vm : AddressSpace
  name : List UInt8
  ebx : Nat
  ecx : Nat
  userEsp : Nat
  eip : Nat

/-- The return value of `proc_execv` and the task behind it. -/
def TaskImage.exec (task : TaskImage) : Option Execd -> Int × TaskImage
  | none => (-1, task)
  | some e => (0,
      { vm := e.vm
        name := e.name
        ebx := e.ebx
        ecx := e.ecx
        userEsp := e.userEsp
        eip := e.eip })

def execTask (task : TaskImage) (refill : Bool) (inode : Option (Nat × List UInt8))
    (args : List (List UInt8)) (s : Phys) : Run ((Int × TaskImage) × Phys) := do
  let (r, s) <- procExecv task.vm refill inode args s
  Except.ok (task.exec r, s)

theorem execTask_failed {task task' : TaskImage} {refill : Bool}
    {inode : Option (Nat × List UInt8)} {args : List (List UInt8)} {s s' : Phys}
    (h : execTask task refill inode args s = Except.ok ((-1, task'), s')) :
    task' = task ∧ procExecv task.vm refill inode args s = Except.ok (none, s') := by
  unfold execTask at h
  rcases bind_ok h with ⟨⟨r, s1⟩, hrun, hrest⟩
  cases r with
  | none =>
      cases hrest
      exact ⟨rfl, hrun⟩
  | some e => cases hrest

/-!
# Memory
-/

/--
The address space of the task, every frame that was not free and the set of free frames
are as before; `kalloc` may have kept the first free frame.
-/
structure Restored (refill : Bool) (s : Phys) (free : List Nat) (L : Layout) (s' : Phys) :
    Prop where
  frees : exists free', Pool s' free' ∧
    forall f, f ∈ free' <-> f ∈ (if refill then free.tail else free)
  space : layoutOf s' L.dir = L
  frames : forall f, Not (f ∈ free) -> s'.frame f = s.frame f

section Restore

variable {s s0 s' : Phys} {free free0 : List Nat} {L : Layout}

/-- A new address space that is given back leaves what was there before `vm_new`. -/
theorem Undone.restored {refill : Bool} {d : Nat} (h : Sound s free L)
    (hundone : Undone s0 free0 (emptyLayout d) s')
    (hleft : d :: free0 = (if refill then free.tail else free))
    (hsame : forall f, Not (f ∈ free) ∨ f ∈ free0 -> s0.frame f = s.frame f) :
    Restored refill s free L s' := by
  have hsub : forall f, f ∈ d :: free0 -> f ∈ free := by
    intro f hf
    rw [hleft] at hf
    cases refill with
    | false => exact hf
    | true => exact List.mem_of_mem_tail hf
  have hframes : forall f, Not (f ∈ free) -> s'.frame f = s.frame f := by
    intro f hf
    rw [hundone.others f, hsame f (Or.inl hf)]
    · intro x hx
      cases x with
      | dir =>
          cases hx
          exact hf (hsub d List.mem_cons_self)
      | table i => cases hx
      | page v => cases hx
    · exact fun hmem => hf (hsub f (List.mem_cons_of_mem d hmem))
  rcases hundone.frees with ⟨free', hpool, hmem⟩
  have hiff : forall f, f ∈ free' <-> f ∈ d :: free0 := by
    intro f
    rw [hmem, List.mem_cons]
    constructor
    · intro hor
      rcases hor with hfree | ⟨x, hx⟩
      · exact Or.inr hfree
      · cases x with
        | dir =>
            cases hx
            exact Or.inl rfl
        | table i => cases hx
        | page v => cases hx
    · intro hor
      rcases hor with hd | hfree
      · exact Or.inr ⟨Slot.dir, congrArg some hd.symm⟩
      · exact Or.inl hfree
  have hkept : forall x f, L.frame x = some f -> s'.frame f = s.frame f :=
    fun x f hx => hframes f (h.used x f hx)
  constructor
  · refine ⟨free', hpool, ?_⟩
    intro f
    rw [hiff, hleft]
  · have hsound : Sound s' free' L := by
      have hfree : forall f, f ∈ free' -> f ∈ free ∨ forall x, L.frame x ≠ some f :=
        fun f hf => Or.inl (hsub f ((hiff f).mp hf))
      exact h.untouched hpool hfree hkept (hframes kpgdirFrame h.kpgdir_used)
    exact hsound.layout
  · exact hframes

/-- A run of `proc_execv` that returns -1 and has found its frames. -/
theorem procExecv_restored {older : AddressSpace} {refill : Bool}
    {inode : Option (Nat × List UInt8)} {args : List (List UInt8)} (h : Sound s free L)
    (holder : older.pgdir = kernelAddr L.dir) (hmemory : ArgsInMemory args)
    (hfollow : ArgumentsFollow refill inode args free)
    (hrun : procExecv older refill inode args s = Except.ok (none, s'))
    (hfound : s'.exhausted = false) : Restored refill s free L s' := by
  unfold procExecv at hrun
  rcases vmNew_cases refill h with ⟨s0, free0, d, hnew, hiso, -, hleft, hsame⟩ | ⟨-, e, hnew, -⟩
  · unfold ArgumentsFollow at hfollow
    rw [freeBehind_eq hleft] at hfollow
    rw [hnew, ok_bind] at hrun
    dsimp only at hrun
    unfold execInto at hrun
    cases hprogram : program inode with
    | none =>
        rcases execBad_ok { pgdir := kernelAddr d, brk := userHeapBase } hiso holder rfl
          with ⟨s1, hbad, hundone, -⟩
        rw [hprogram] at hrun
        dsimp only at hrun
        rw [hbad] at hrun
        cases hrun
        exact hundone.restored h hleft hsame
    | some p =>
        rcases p with ⟨file, eh⟩
        rw [hprogram] at hrun
        have hmeets := execProgram_meets { pgdir := kernelAddr d, brk := userHeapBase }
          file eh hiso holder rfl hmemory (hfollow file eh hprogram)
        rcases hmeets.of_ok hrun with hex | ⟨-, ⟨-, -, hundone⟩ | ⟨C', -, hdone, -⟩⟩
        · rw [hfound] at hex
          cases hex
        · exact hundone.restored h hleft hsame
        · rcases hdone.result with ⟨arg, rest, e, -, hanswer, -⟩
          cases hanswer
  · rw [hnew, error_bind] at hrun
    cases hrun

end Restore

/--
A failed `proc_execv` changes nothing, where no argument is copied over the end of a frame:
not the task, not its memory and the free frames, and not the records of the file system,
whatever path is looked up and whatever the memory answers.
-/
theorem failed_exec_restores (task : TaskImage) (refill : Bool)
    (inode : Option (Nat × List UInt8)) (args : List (List UInt8)) (s : Phys) (free : List Nat)
    (L : Layout) (h : Sound s free L) (hvm : task.vm.pgdir = kernelAddr L.dir)
    (hmemory : ArgsInMemory args) (hfollow : ArgumentsFollow refill inode args free)
    (task' : TaskImage) (s' : Phys)
    (hrun : execTask task refill inode args s = Except.ok ((-1, task'), s'))
    (hfound : s'.exhausted = false) (t : Nat) (path : Fs.Syscall.Name)
    (result : Fs.Syscall.ExecResult) (fs fs' : Fs.Syscall.State)
    (hfs : Program.exec (Fs.Syscall.perform t) (Fs.Syscall.procExecv path result) fs =
      Except.ok (-1, fs')) :
    task' = task ∧ Restored refill s free L s' ∧ Fs.Syscall.SameRecords fs fs' := by
  rcases execTask_failed hrun with ⟨hsame, hexec⟩
  exact ⟨hsame, procExecv_restored h hvm hmemory hfollow hexec hfound,
    Fs.Syscall.procExecv_records hfs⟩

/-!
# An argument without room
-/

def roomyTask : TaskImage :=
  { vm := roomyVm, name := [105, 110, 105, 116, 0], ebx := 0, ecx := 0, userEsp := 0, eip := 0 }

/-- The second argument begins where the last page below the stack does. -/
def longArgs : List (List UInt8) := [[97], List.replicate 20469 98]

theorem longArgs_below : below 2147483638 (List.replicate 20469 98) = 2147463168 := by
  rw [below_eq, List.length_replicate]

theorem longArgs_inMemory : ArgsInMemory longArgs := by
  constructor
  · decide
  · intro arg harg
    unfold longArgs at harg
    rcases List.mem_cons.mp harg with harg | harg
    · rw [harg]
      decide
    · rw [List.mem_singleton.mp harg, List.length_replicate]
      decide

theorem longArgs_follow (page : Nat -> Option Nat) : ArgsFollow page (argvPtr 2) longArgs := by
  rcases pagedArgs_below with ⟨-, hfirst, -⟩
  unfold longArgs ArgsFollow
  rw [hfirst]
  constructor
  · exact stepsFollow_inside (by decide)
  · intro _
    unfold ArgsFollow
    rw [longArgs_below]
    constructor
    · exact stepsFollow_aligned (by decide)
    · exact fun hroom => absurd hroom (by decide)

theorem longArgs_noRoom : Not (ArgsRoom (argvPtr 2) longArgs) := by
  rcases pagedArgs_below with ⟨-, hfirst, -⟩
  unfold longArgs ArgsRoom
  rw [hfirst]
  intro hroom
  have hsecond := hroom.right.left
  rw [longArgs_below] at hsecond
  exact absurd hsecond (by decide)

/-- The byte of the file is in memory when the second argument is refused. -/
theorem longArgs_refused :
    exists s', execTask roomyTask false (some (inodeFile, byteElf)) longArgs rowPhys =
      Except.ok ((-1, roomyTask), s') ∧ s'.exhausted = false := by
  rcases byte_program with ⟨eh, hprogram, hheaders⟩
  rcases clipped_ends hprogram hheaders byteHeader_loads longArgs_inMemory longArgs_follow
    (List.cons_ne_nil _ _) with ⟨r, s', hrun, hfresh, hnone⟩
  refine ⟨s', ?_, hfresh⟩
  have hr : r = none := hnone.mpr longArgs_noRoom
  have hvm : roomyTask.vm = roomyVm := rfl
  unfold execTask
  rw [hvm, hrun, hr, ok_bind]
  rfl

/-- `proc_execv` of a file reads its first block, which is a hole, and fails behind it. -/
theorem file_lookup :
    exists fs', Program.exec (Fs.Syscall.perform Fs.Syscall.initTask)
      (Fs.Syscall.procExecv [47, 102] ⟨true, [0], true, true, false⟩)
      (Fs.Syscall.boot Fs.Syscall.holedDisk) = Except.ok (-1, fs') := by
  have hvalue : (Program.exec (Fs.Syscall.perform Fs.Syscall.initTask)
      (Fs.Syscall.procExecv [47, 102] ⟨true, [0], true, true, false⟩)
      (Fs.Syscall.boot Fs.Syscall.holedDisk)).toOption.map Prod.fst = some (-1) := by
    decide +kernel
  rcases Option.map_eq_some_iff.mp hvalue with ⟨⟨r, fs'⟩, hrun, hr⟩
  cases hr
  refine ⟨fs', ?_⟩
  cases hexec : Program.exec (Fs.Syscall.perform Fs.Syscall.initTask)
      (Fs.Syscall.procExecv [47, 102] ⟨true, [0], true, true, false⟩)
      (Fs.Syscall.boot Fs.Syscall.holedDisk) with
  | ok a =>
      rw [hexec] at hrun
      cases hrun
      rfl
  | error e =>
      rw [hexec] at hrun
      cases hrun

theorem failed_exec_restores_longArgs :
    exists task' s' fs',
      execTask roomyTask false (some (inodeFile, byteElf)) longArgs rowPhys =
        Except.ok ((-1, task'), s') ∧
      task' = roomyTask ∧ Restored false rowPhys (List.range' 1025 8) bareLayout s' ∧
      Fs.Syscall.SameRecords (Fs.Syscall.boot Fs.Syscall.holedDisk) fs' := by
  rcases longArgs_refused with ⟨s', hrun, hex⟩
  rcases file_lookup with ⟨fs', hfs⟩
  exact ⟨roomyTask, s', fs', hrun, failed_exec_restores roomyTask false
    (some (inodeFile, byteElf)) longArgs rowPhys (List.range' 1025 8) bareLayout rowSound rfl
    longArgs_inMemory (fun _ _ _ _ => longArgs_follow _) roomyTask s' hrun hex
    Fs.Syscall.initTask [47, 102] ⟨true, [0], true, true, false⟩
    (Fs.Syscall.boot Fs.Syscall.holedDisk) fs' hfs⟩

/-!
# An argument across two pages
-/

/-- Six free frames in a row but for the one behind 1029, which is to hold a directory. -/
def gappyFree : List Nat := [1025, 1026, 1027, 1028, 1029, 1031]

def gappyStart : Phys := freeFrames (1030 :: gappyFree)

theorem gappyPool : Pool gappyStart (1030 :: gappyFree) :=
  freeFrames_pool (by decide) (by decide)

def gappyPhys : Phys := newDir gappyStart 1030

theorem gappySound : Sound gappyPhys gappyFree (emptyLayout 1030) := newDir_sound gappyPool

def gappyTask : TaskImage :=
  { vm := { pgdir := kernelAddr 1030, brk := userHeapBase }
    name := [105, 110, 105, 116, 0]
    ebx := 0
    ecx := 0
    userEsp := 0
    eip := 0 }

/-- One argument across the last two pages of the stack, and one that has no room. -/
def wideArgs : List (List UInt8) := [List.replicate 4088 97, List.replicate 20000 97]

theorem wideArgs_below :
    argvPtr 2 = 2147483640 ∧ below (argvPtr 2) (List.replicate 4088 97) = 2147479551 ∧
      below 2147479551 (List.replicate 20000 97) = 2147459550 := by
  have hptr : argvPtr 2 = 2147483640 := by
    unfold argvPtr
    rw [wrap_eq]
    rfl
  refine ⟨hptr, ?_, ?_⟩
  · rw [below_eq, hptr, List.length_replicate]
  · rw [below_eq, List.length_replicate]

/-- A copy over the end of a frame writes to that frame and the next one. -/
theorem copiedTo_other {s : Phys} {f o g : Nat} {bytes : List UInt8} (ho : o < 4096)
    (hlen : bytes.length ≤ 4096) (hf : g ≠ f) (hnext : g ≠ f + 1) :
    (copiedTo s (kernelAddr f + o) bytes).frame g = s.frame g := by
  have hpgSize : pgSize = 4096 := rfl
  funext x
  apply if_neg
  rw [kernelAddr_eq, kernelAddr_eq, hpgSize]
  omega

section Wide

variable {s : Phys} {free : List Nat} {C : Layout} {vm : AddressSpace}

/-- A string of 4089 bytes is copied over the end of frame 1029. -/
theorem wide_first {src : List UInt8} (h : Sound s free C) (hvm : vm.pgdir = kernelAddr C.dir)
    (hpage : C.page 524286 = some 1029) (hunused : C.Unused 1030) (hfree : Not (1030 ∈ free))
    (hlen : src.length = 4089) (hsecond : src[1]? = some 97) :
    exists s', vmCopyout vm 2147479551 src s = Except.ok (true, s') ∧
      Sound s' free C ∧ s'.frame 1030 0 = 97 ∧ s'.exhausted = s.exhausted := by
  have hdst : 2147479551 < kernelBase := by decide
  have hdiv : C.page (2147479551 / 4096) = some 1029 := hpage
  have hsame : forall g, g ≠ 1029 -> g ≠ 1030 ->
      (copiedTo s (kernelAddr 1029 + 4095) src).frame g = s.frame g :=
    fun g hg hnext => copiedTo_other (by decide) (by rw [hlen]; decide) hg hnext
  have hslot : forall x f, C.frame x = some f -> x ≠ Slot.page 524286 -> f ≠ 1029 ∧ f ≠ 1030 := by
    intro x f hx hne
    constructor
    · intro e
      exact hne (h.own x (Slot.page 524286) f hx (e ▸ hpage))
    · intro e
      exact hunused x (e ▸ hx)
  refine ⟨copiedTo s (kernelAddr 1029 + 4095) src, ?_, ?_, ?_, rfl⟩
  · have hfuel : 4089 / pgSize + 1 = 1 := rfl
    have hmin : min 4096 4089 = 4089 := rfl
    have hmod : 2147479551 % 4096 = 4095 := rfl
    have hcopy : copyBytes (kernelAddr 1029 + 4095) src s =
        Except.ok (copiedTo s (kernelAddr 1029 + 4095) src) := by
      unfold copyBytes
      rw [if_pos]
      · rfl
      · rw [hlen]
        decide
    unfold vmCopyout
    rw [hvm, hlen, hfuel, vmCopyoutFrom_step 0 h hdst hdiv (by rw [hlen]; decide), hlen, hmin,
      List.take_of_length_le (Nat.le_of_eq hlen), hmod, hcopy, ok_bind]
    rfl
  · apply h.congr
    · refine h.pool.congr rfl ?_
      intro f hf
      apply hsame
      · exact fun e => h.used (Slot.page 524286) 1029 hpage (e ▸ hf)
      · exact fun e => hfree (e ▸ hf)
    · exact fun f hf => Or.inl hf
    · intro i
      rcases hslot Slot.dir C.dir rfl (fun e => by cases e) with ⟨h1, h2⟩
      exact entry_congr (hsame C.dir h1 h2) i
    · intro i t ht j
      rcases hslot (Slot.table i) t ht (fun e => by cases e) with ⟨h1, h2⟩
      exact entry_congr (hsame t h1 h2) j
    · intro i _ _
      exact entry_congr (hsame kpgdirFrame (by decide) (by decide)) i
  · have hhit : 0 < pgSize ∧ kernelAddr 1029 + 4095 ≤ kernelAddr 1030 + 0 ∧
        kernelAddr 1030 + 0 < kernelAddr 1029 + 4095 + src.length := by
      rw [hlen]
      decide
    have hindex : kernelAddr 1030 + 0 - (kernelAddr 1029 + 4095) = 1 := rfl
    show (if _ then _ else _) = (97 : UInt8)
    rw [if_pos hhit, hindex, List.getD_eq_getElem?_getD, hsecond]
    rfl

theorem wide_length {n : Nat} : (List.replicate n 97 ++ [0] : List UInt8).length = n + 1 := by
  rw [List.length_append, List.length_replicate]
  rfl

theorem wide_second : (List.replicate 4088 97 ++ [0] : List UInt8)[1]? = some 97 := by
  rw [List.getElem?_append_left (by rw [List.length_replicate]; decide), List.getElem?_replicate,
    if_pos (by decide)]

/-- The arguments are refused, but the first one has been written to frame 1030. -/
theorem wide_refused (older vm : AddressSpace) (eh : Elfhdr) (h : Sound s free C)
    (hvm : vm.pgdir = kernelAddr C.dir) (holder : older.pgdir = kernelAddr 1030)
    (hstack : forall v, StackPage v -> C.page v ≠ none)
    (hgap : forall v, userHeapBase / 4096 ≤ v -> v < bottomUserStack / 4096 -> C.page v = none)
    (hpage : C.page 524286 = some 1029) (hunused : C.Unused 1030) (hfree : Not (1030 ∈ free)) :
    exists s', execArgs older vm eh wideArgs s = Except.ok (none, s') ∧ s'.frame 1030 0 = 97 ∧
      s'.exhausted = s.exhausted := by
  rcases wideArgs_below with ⟨hptr, hfirst, hsecond⟩
  rcases wide_first h hvm hpage hunused hfree wide_length wide_second with
    ⟨s1, hcopy, hs1, hbyte, hex1⟩
  rcases vmCopyout_stack 2147483640 (pointerBytes 2147479551) hs1 hvm hstack
    (by decide) (by decide) (stepsFollow_inside (by decide)) with ⟨s2, hpointer, hbuilds, -⟩
  have hmissing : C.page (2147459550 / 4096) = none := hgap _ (by decide) (by decide)
  rcases vmCopyout_below 2147459550 (List.replicate 20000 97 ++ [0]) hbuilds.grows.sound hvm hgap
    (by decide) (by rw [wide_length]; decide) (by rw [wide_length]; decide)
    (by rw [wide_length]; decide) (stepsFollow_missing hmissing) with
    ⟨s3, hgapSecond, hbuilds3⟩
  have hargs : copyArgvIntoStack vm wideArgs s = Except.ok (none, s3) := by
    have hslot : wrap (2147483640 + 4 * 0) = 2147483640 := by
      rw [wrap_eq]
    have hlen : wideArgs.length = 2 := rfl
    unfold copyArgvIntoStack
    rw [hlen]
    unfold wideArgs copyArgsFrom
    rw [hfirst, hcopy, ok_bind]
    dsimp only
    rw [if_pos rfl, hptr, hslot, hpointer, ok_bind]
    dsimp only
    rw [if_pos rfl]
    unfold copyArgsFrom
    rw [hsecond, hgapSecond, ok_bind]
    rfl
  have hbuilt := hbuilds.trans hbuilds3
  rcases pgdirFree_freed hbuilt.grows.sound with ⟨s4, free4, hrelease, hfreed⟩
  refine ⟨s4, ?_, ?_, hfreed.exhausted.trans (hbuilt.exhausted.trans hex1)⟩
  · unfold execArgs
    rw [hargs, ok_bind]
    dsimp only
    unfold execBad vmFree
    rw [if_neg, hvm, hrelease, ok_bind]
    intro hor
    rcases hor with hkernel | hsame
    · rw [hvm] at hkernel
      exact Sound.ne_kpgdir h.dir_inPool (kernelAddr_injective hkernel).symm
    · rw [holder, hvm] at hsame
      exact hunused Slot.dir (congrArg some (kernelAddr_injective hsame).symm)
  · rw [hfreed.same 1030 (fun hx => by rcases hx with ⟨x, hx⟩; exact hunused x hx),
      hbuilt.grows.others 1030 hunused hfree]
    exact hbyte

end Wide

/-- The argument lands in the task's own directory, and stays there. -/
theorem failed_exec_overwrites :
    Sound gappyPhys gappyFree (emptyLayout 1030) ∧
      exists s', execTask gappyTask false (some (inodeFile, plainElf)) wideArgs gappyPhys =
          Except.ok ((-1, gappyTask), s') ∧
        s'.exhausted = false ∧
        Not (Restored false gappyPhys gappyFree (emptyLayout 1030) s') := by
  refine ⟨gappySound, ?_⟩
  rcases plain_program with ⟨eh, hprogram, hheaders⟩
  rcases vmNew_cases false gappySound with ⟨s0, free0, d, hnew, hiso, hex, hleft, -⟩ | ⟨hshort, -⟩
  · have hd : d = 1025 := (List.cons.inj hleft).left
    have hfree0 : free0 = [1026, 1027, 1028, 1029, 1031] := (List.cons.inj hleft).right
    cases hd
    have hclear : forall v, StackPage v -> (emptyLayout 1025).page v = none := fun _ _ => rfl
    have hstack := setupUstack_meets { pgdir := kernelAddr 1025, brk := userHeapBase } hiso.right
      rfl hclear
    have hneed : stackNeed (emptyLayout 1025) = 5 := rfl
    rw [hneed, hfree0] at hstack
    rcases hstack.ok (fun e he => absurd he.left (by decide)) with
      ⟨⟨ready, s1⟩, hsetup, ⟨hshort, -⟩ | ⟨hready, free1, C, hbuilds, hpages, hplan⟩⟩
    · exact absurd hshort (by decide)
    · dsimp only at hready hbuilds hpages hplan
      have hused : forall x f, C.frame x = some f -> f = 1025 ∨ f ∈ free0 := by
        intro x f hx
        rcases hbuilds.grows.fresh x f hx with hold | hfresh
        · cases x with
          | dir =>
              cases hold
              exact Or.inl rfl
          | table i => cases hold
          | page v => cases hold
        · right
          rw [hfree0]
          exact hfresh
      have hnot : Not (1030 ∈ free0) := by
        rw [hfree0]
        decide
      have hunused : C.Unused 1030 := by
        intro x hx
        rcases hused x 1030 hx with hdir | hmem
        · cases hdir
        · exact hnot hmem
      have hfree : Not (1030 ∈ free1) := by
        intro hmem
        apply hnot
        rw [hfree0]
        exact hbuilds.grows.taken 1030 hmem
      have hpage : C.page 524286 = some 1029 := (hplan.page 524286 1029).mpr (Or.inr (by decide))
      have hgap : forall v, userHeapBase / 4096 ≤ v -> v < bottomUserStack / 4096 ->
          C.page v = none := by
        intro v _ hhigh
        by_contra hv
        rcases (hpages v).mp hv with hold | hnew
        · exact hold rfl
        · have hlow := hnew.left
          lia
      rcases wide_refused gappyTask.vm { pgdir := kernelAddr 1025, brk := userHeapBase } eh
        hbuilds.grows.sound (by rw [hbuilds.grows.dir]; rfl)
        rfl (fun v hv => (hpages v).mpr (Or.inr hv)) hgap hpage hunused hfree with
        ⟨s2, hrun, hbyte, hex2⟩
      refine ⟨s2, ?_, hex2.trans (hbuilds.exhausted.trans hex), ?_⟩
      · have hexec : procExecv gappyTask.vm false (some (inodeFile, plainElf)) wideArgs gappyPhys =
            Except.ok (none, s2) := by
          unfold procExecv
          rw [hnew, ok_bind]
          dsimp only
          unfold execInto
          rw [hprogram]
          dsimp only
          unfold execProgram
          rw [hheaders]
          unfold loadProghdrs
          rw [ok_bind]
          dsimp only
          rw [if_pos rfl]
          unfold execStack
          rw [hsetup, ok_bind]
          dsimp only
          rw [if_pos hready]
          exact hrun
        unfold execTask
        rw [hexec, ok_bind]
        rfl
      · intro hrestored
        have hframe := hrestored.frames 1030 (by decide)
        rw [hframe] at hbyte
        exact absurd hbyte (by decide)
  · exact absurd hshort (by decide)

end Vm
end Kernel
end NicoOS
