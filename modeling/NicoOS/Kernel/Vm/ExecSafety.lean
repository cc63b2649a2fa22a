import NicoOS.Kernel.Vm.Hostile

/-!
# What `proc_execv` survives

Whatever the file holds, `proc_execv` comes to an end and keeps its mappings, unless two
segments share a page, the name is missing or too long, or an argument is copied over the
end of a frame.
-/

namespace NicoOS
namespace Kernel
namespace Vm

open Lib

def ExecPage (v : Nat) : Prop := ProgramPage v ∨ StackPage v

/-- The space behind the first `n` program headers, and the answer of `load_proghdrs`. -/
def LoadedUpTo (refill : Bool) (inode : Option (Nat × List UInt8)) (s : Phys) (n : Nat)
    (vm : AddressSpace) (b : Bool) (s1 : Phys) : Prop :=
  exists file eh s0, program inode = some (file, eh) ∧ vmNew refill s = Except.ok (some vm, s0) ∧
    loadProghdrs vm file ((readProghdrs file eh.phnum eh.phoff).take n) s0 = Except.ok (b, s1)

/-- What is asked of `proc_execv`, whatever the file and the arguments are. -/
structure Survives (older : AddressSpace) (refill : Bool) (inode : Option (Nat × List UInt8))
    (args : List (List UInt8)) (s : Phys) : Prop where
  ends : exists r, procExecv older refill inode args s = Except.ok r
  loading : forall n vm b s1 d v f, LoadedUpTo refill inode s n vm b s1 -> s1.exhausted = false ->
    vm.pgdir = kernelAddr d -> (layoutOf s1 d).page v = some f -> ProgramPage v
  inside : forall e s', procExecv older refill inode args s = Except.ok (some e, s') ->
    forall d v f, e.vm.pgdir = kernelAddr d -> (layoutOf s' d).page v = some f -> ExecPage v
  kept : forall e s', procExecv older refill inode args s = Except.ok (some e, s') ->
    forall n vm s1 d v f, LoadedUpTo refill inode s n vm true s1 -> vm.pgdir = kernelAddr d ->
      (layoutOf s1 d).page v = some f -> e.vm = vm ∧ (layoutOf s' d).page v = some f
  name : forall e s', procExecv older refill inode args s = Except.ok (some e, s') ->
    e.name.length ≤ taskNameLength

/-- The headers of the program ask for pages of their own. -/
def SegmentsApart (inode : Option (Nat × List UInt8)) : Prop :=
  forall file eh, program inode = some (file, eh) ->
    HeadersApart file (fun _ => False) (readProghdrs file eh.phnum eh.phoff)

def ProgramLoads (inode : Option (Nat × List UInt8)) : Prop :=
  exists file eh, program inode = some (file, eh) ∧
    Accepted file (readProghdrs file eh.phnum eh.phoff)

def freeBehind (refill : Bool) (free : List Nat) : List Nat :=
  (if refill then free.tail else free).tail

theorem freeBehind_eq {refill : Bool} {d : Nat} {free free' : List Nat}
    (h : d :: free' = (if refill then free.tail else free)) : freeBehind refill free = free' := by
  unfold freeBehind
  rw [<- h, List.tail_cons]

/-- Where the program is loaded, no argument is copied over the end of a frame. -/
def ArgumentsFollow (refill : Bool) (inode : Option (Nat × List UInt8))
    (args : List (List UInt8)) (free : List Nat) : Prop :=
  forall file eh, program inode = some (file, eh) ->
    Accepted file (readProghdrs file eh.phnum eh.phoff) ->
      ArgsFollow (execPage (readProghdrs file eh.phnum eh.phoff) (freeBehind refill free))
        (argvPtr args.length) args

/-- Where the arguments are copied there is a first one, and it fits the name. -/
def NameFits (inode : Option (Nat × List UInt8)) (args : List (List UInt8)) : Prop :=
  ProgramLoads inode -> ArgsRoom (argvPtr args.length) args ->
    exists arg rest, args = arg :: rest ∧ arg.length + 1 ≤ taskNameLength

section Exec

variable {s : Phys} {free : List Nat} {L C : Layout} {older vm : AddressSpace}

theorem kernelAddr_injective {f g : Nat} (h : kernelAddr f = kernelAddr g) : f = g := by
  rw [kernelAddr_eq, kernelAddr_eq] at h
  omega

/-!
# Ends
-/

/-- `vm_free` of one address space while another is the task's. -/
theorem vmFree_isolated {current vm : AddressSpace} (h : Isolated s free L C)
    (hcurrent : current.pgdir = kernelAddr C.dir) (hvm : vm.pgdir = kernelAddr L.dir) :
    exists s' free', vmFree current vm s = Except.ok s' ∧ Sound s' free' C ∧
      Freed s free (fun f => exists x, L.frame x = some f)
        (fun f => exists x, L.frame x = some f) s' free' := by
  rcases h.release with ⟨s', free', hrun, hsound, hfreed⟩
  refine ⟨s', free', ?_, hsound, hfreed⟩
  unfold vmFree
  rw [if_neg, hvm]
  · exact hrun
  · intro hor
    rcases hor with hkernel | hsame
    · rw [hvm] at hkernel
      exact Sound.ne_kpgdir h.left.dir_inPool (kernelAddr_injective hkernel).symm
    · rw [hcurrent, hvm] at hsame
      exact h.apart Slot.dir Slot.dir L.dir rfl (congrArg some (kernelAddr_injective hsame))

theorem execBad_ok (vm : AddressSpace) (h : Isolated s free L C)
    (holder : older.pgdir = kernelAddr L.dir) (hvm : vm.pgdir = kernelAddr C.dir) :
    exists s', execBad older vm s = Except.ok (none, s') ∧ Undone s free C s' ∧
      s'.exhausted = s.exhausted := by
  rcases vmFree_isolated h.symm holder hvm with ⟨s', free', hrun, -, hfreed⟩
  refine ⟨s', ?_, ⟨⟨free', hfreed.pool, hfreed.mem⟩, ?_⟩, hfreed.exhausted⟩
  · unfold execBad
    rw [hrun, ok_bind]
  · intro f hunused _
    apply hfreed.same
    intro hex
    rcases hex with ⟨x, hx⟩
    exact hunused x hx

/-- The end with a new address space. -/
structure Replaced (vm : AddressSpace) (C : Layout) (args : List (List UInt8))
    (a : Option Execd × Phys) : Prop where
  result : exists arg rest e, args = arg :: rest ∧ a.1 = some e ∧ e.vm = vm ∧
    e.name = arg ++ [0]
  sound : exists free', Sound a.2 free' C

theorem execGood_ok (arg : List UInt8) (rest : List (List UInt8)) (eh : Elfhdr) (esp : Nat)
    (h : Isolated s free L C) (holder : older.pgdir = kernelAddr L.dir)
    (hvm : vm.pgdir = kernelAddr C.dir) :
    exists a, execGood older vm eh (arg :: rest) esp s = Except.ok a ∧
      Replaced vm C (arg :: rest) a ∧ a.2.exhausted = s.exhausted := by
  rcases vmFree_isolated h hvm holder with ⟨s', free', hrun, hsound, hfreed⟩
  unfold execGood
  dsimp only
  rw [hrun, ok_bind]
  refine ⟨_, rfl, ⟨⟨arg, rest, _, rfl, rfl, rfl, rfl⟩, free', hsound⟩, hfreed.exhausted⟩

/-!
# Arguments and the name
-/

/-- What is known of the last part of `proc_execv`. -/
inductive ArgsEnd (vm : AddressSpace) (s : Phys) (free : List Nat) (C : Layout)
    (args : List (List UInt8)) : Run (Option Execd × Phys) -> Prop where
  | refused {s' : Phys} (room : Not (ArgsRoom (argvPtr args.length) args))
      (undone : Undone s free C s') (fresh : s'.exhausted = s.exhausted) :
      ArgsEnd vm s free C args (Except.ok (none, s'))
  | replaced {a : Option Execd × Phys} (room : ArgsRoom (argvPtr args.length) args)
      (done : Replaced vm C args a) (fresh : a.2.exhausted = s.exhausted) :
      ArgsEnd vm s free C args (Except.ok a)
  | nameless {e : Stop × Phys} (none : args = []) (fresh : e.2.exhausted = s.exhausted) :
      ArgsEnd vm s free C args (Except.error e)

theorem ArgsInMemory.argvPtr_low {args : List (List UInt8)} (h : ArgsInMemory args) :
    0x40000000 ≤ argvPtr args.length := by
  have hargc := h.left
  have hkernel := kernelBase_eq
  have hsum := argvPtr_sum (show 4 * args.length ≤ kernelBase by omega)
  rw [hkernel] at hsum
  omega

theorem execArgs_end {args : List (List UInt8)} (eh : Elfhdr) (h : Isolated s free L C)
    (holder : older.pgdir = kernelAddr L.dir) (hvm : vm.pgdir = kernelAddr C.dir)
    (hstack : forall v, StackPage v -> C.page v ≠ none)
    (hgap : forall v, userHeapBase / 4096 ≤ v -> v < bottomUserStack / 4096 -> C.page v = none)
    (hmemory : ArgsInMemory args) (hfollow : ArgsFollow C.page (argvPtr args.length) args) :
    ArgsEnd vm s free C args (execArgs older vm eh args s) := by
  rcases copyArgsFrom_ok args.length 0 h.right hvm hstack hgap hmemory.left (by lia)
    (Nat.le_refl _) hmemory.argvPtr_low hmemory.right hfollow with
    ⟨r, s1, hrun, hbuilds, hroom, -⟩
  have h1 : Isolated s1 free L C := (h.symm.grows hbuilds.grows).symm
  unfold execArgs copyArgvIntoStack
  rw [hrun, ok_bind]
  dsimp only
  cases r with
  | none =>
      rcases execBad_ok vm h1 holder hvm with ⟨s2, hbad, hundone, hex⟩
      dsimp only
      rw [hbad]
      exact ArgsEnd.refused (hroom.mp rfl) (hbuilds.undone hundone) (hex.trans hbuilds.exhausted)
  | some esp =>
      have hall : ArgsRoom (argvPtr args.length) args := by
        by_contra hno
        cases hroom.mpr hno
      dsimp only
      cases args with
      | nil => exact ArgsEnd.nameless rfl hbuilds.exhausted
      | cons arg rest =>
          rcases execGood_ok arg rest eh esp h1 holder hvm with
            ⟨a, hgood, hdone, hex⟩
          rw [hgood]
          exact ArgsEnd.replaced hall hdone (hex.trans hbuilds.exhausted)

/-!
# Runs that found the list empty
-/

/-- The run keeps the record that the list was empty. -/
def KeepsRecord (r : Run (Option Execd × Phys)) : Prop :=
  Meets (fun a => a.2.exhausted = true) (fun e => e.2.exhausted = true) r

theorem vmFree_keeps {current vm : AddressSpace} (h : s.exhausted = true) :
    StaysExhausted (vmFree current vm s) := by
  unfold vmFree
  split
  · exact h
  · exact pgdirFree_keeps h _

theorem execBad_keeps (h : s.exhausted = true) : KeepsRecord (execBad older vm s) := by
  unfold execBad
  exact (vmFree_keeps h).bind (fun s1 h1 => h1)

theorem execGood_keeps (h : s.exhausted = true) (eh : Elfhdr) (args : List (List UInt8))
    (esp : Nat) : KeepsRecord (execGood older vm eh args esp s) := by
  unfold execGood
  split
  · exact h
  · exact (vmFree_keeps h).bind (fun s1 h1 => h1)

theorem execArgs_keeps (h : Dry s) (eh : Elfhdr) (args : List (List UInt8)) :
    KeepsRecord (execArgs older vm eh args s) := by
  unfold execArgs copyArgvIntoStack
  refine ((h.copyArgsFrom vm _ _ _ args).mono (fun _ ha => ha) (fun e he => he.exhausted)).bind ?_
  intro r h1
  rcases r with ⟨copied, s1⟩
  cases copied with
  | none => exact execBad_keeps h1.exhausted
  | some esp => exact execGood_keeps h1.exhausted eh args esp

theorem execStack_keeps (h : Dry s) (eh : Elfhdr) (args : List (List UInt8)) :
    KeepsRecord (execStack older vm eh args s) := by
  unfold execStack
  refine Meets.bind ((h.setupUstack vm).mono (fun _ ha => ha) (fun e he => he.exhausted)) ?_
  intro r h1
  rcases r with ⟨ready, s1⟩
  dsimp only at h1 ⊢
  split
  · exact execArgs_keeps h1 eh args
  · exact execBad_keeps h1.exhausted

/-!
# The new address space
-/

def emptyLayout (d : Nat) : Layout := ⟨d, fun _ => none, fun _ => none⟩

theorem vmNew_nil {refill : Bool} {s1 : Phys}
    (hkalloc : kallocVm refill s = Except.ok (true, s1)) (h : Pool s1 []) :
    vmNew refill s = Except.error (Stop.fault, { s1 with exhausted := true }) := by
  unfold vmNew
  rw [hkalloc, ok_bind]
  dsimp only
  rw [pgdirNew_nil h, error_bind]

theorem vmNew_cons {refill : Bool} {s1 : Phys} {d : Nat} {rest : List Nat}
    (hkalloc : kallocVm refill s = Except.ok (true, s1)) (h : Pool s1 (d :: rest)) :
    vmNew refill s =
      Except.ok (some { pgdir := kernelAddr d, brk := userHeapBase }, newDir s1 d) := by
  unfold vmNew
  rw [hkalloc, ok_bind]
  dsimp only
  rw [pgdirNew_cons h, ok_bind]
  dsimp only
  rw [if_neg (kernelAddr_ne_zero d)]

/-- A new directory shares no frame with the address space of the task. -/
theorem isolated_newDir {d : Nat} {rest : List Nat} (h : Sound s (d :: rest) L) :
    Isolated (newDir s d) rest L (emptyLayout d) := by
  refine ⟨sound_newDir h, newDir_sound h.pool, ?_⟩
  intro x y f hx hy
  cases y with
  | dir =>
      cases hy
      exact h.used x d hx List.mem_cons_self
  | table i => cases hy
  | page v => cases hy

theorem vmNew_cases (refill : Bool) (h : Sound s free L) :
    (exists s' free' d, vmNew refill s =
        Except.ok (some { pgdir := kernelAddr d, brk := userHeapBase }, s') ∧
      Isolated s' free' L (emptyLayout d) ∧ s'.exhausted = s.exhausted ∧
      d :: free' = (if refill then free.tail else free) ∧
      forall f, Not (f ∈ free) ∨ f ∈ free' -> s'.frame f = s.frame f) ∨
    (free.length < (if refill then 2 else 1) ∧
      exists e, vmNew refill s = Except.error e ∧ e.2.exhausted = true) := by
  cases refill with
  | false =>
      cases free with
      | nil => exact Or.inr ⟨Nat.one_pos, _, vmNew_nil rfl h.pool, rfl⟩
      | cons d rest =>
          refine Or.inl
            ⟨newDir s d, rest, d, vmNew_cons rfl h.pool, isolated_newDir h, rfl, rfl, ?_⟩
          have hnew := (List.nodup_cons.mp h.pool.nodup).left
          intro f hor
          rcases hor with hf | hf
          · exact newDir_frame (fun e => hf (e ▸ List.mem_cons_self))
          · exact newDir_frame (fun e => hnew (e ▸ hf))
  | true =>
      cases free with
      | nil =>
          right
          refine ⟨Nat.two_pos, (Stop.fault, { s with exhausted := true }), ?_, rfl⟩
          unfold vmNew kallocVm
          rw [if_pos rfl, h.pool.palloc_nil, ok_bind]
          dsimp only
          rw [pageAt_kernelBase, error_bind, error_bind]
      | cons p rest =>
          have hkalloc := kallocVm_cons h.pool
          cases rest with
          | nil => exact Or.inr ⟨Nat.one_lt_two, _, vmNew_nil hkalloc h.pool.kalloc, rfl⟩
          | cons d rest =>
              refine Or.inl ⟨newDir ((s.pop p).clear p) d, rest, d,
                vmNew_cons hkalloc h.pool.kalloc, isolated_newDir h.kalloc, rfl, rfl, ?_⟩
              rcases List.nodup_cons.mp h.pool.nodup with ⟨hp, hrest⟩
              have hd := (List.nodup_cons.mp hrest).left
              intro f hor
              rcases hor with hf | hf
              · have hfd : f ≠ d :=
                  fun e => hf (e ▸ List.mem_cons_of_mem p List.mem_cons_self)
                rw [newDir_frame hfd]
                exact clear_of_ne (fun e => hf (e ▸ List.mem_cons_self))
              · have hfd : f ≠ d := fun e => hd (e ▸ hf)
                rw [newDir_frame hfd]
                exact clear_of_ne (fun e => hp (e ▸ List.mem_cons_of_mem d hf))

/-!
# The stages together
-/

/-- What `proc_execv` answers once the program is loaded into the layout `C`. -/
structure StackEnd (vm : AddressSpace) (s : Phys) (free : List Nat) (C : Layout)
    (args : List (List UInt8)) (a : Option Execd × Phys) : Prop where
  answer : (a.1 = none ∧ Not (ArgsRoom (argvPtr args.length) args) ∧ Undone s free C a.2) ∨
    (ArgsRoom (argvPtr args.length) args ∧ exists C', C'.dir = C.dir ∧ Replaced vm C' args a ∧
      (forall v f, C.page v = some f -> C'.page v = some f) ∧
      forall v, C'.page v ≠ none -> ExecPage v)
  exhausted : a.2.exhausted = s.exhausted

/-- A program leaves the pages from the heap on to the stack. -/
theorem unmapped_of_program (hpages : forall v, C.page v ≠ none -> ProgramPage v) {v : Nat}
    (hv : userHeapBase / 4096 ≤ v) : C.page v = none := by
  have hbase : userHeapBase = 134512640 := rfl
  by_contra hpage
  have hlow := (hpages v hpage).right
  lia

theorem clear_of_program (hpages : forall v, C.page v ≠ none -> ProgramPage v) {v : Nat}
    (hv : StackPage v) : C.page v = none := by
  have hbottom : bottomUserStack = 2147467264 := rfl
  have hbase : userHeapBase = 134512640 := rfl
  have hlow := hv.left
  exact unmapped_of_program hpages (by omega)

/-- Behind `setup_ustack` the pages between the heap and the stack are still free. -/
theorem gap_of_program {C1 : Layout} (hpages : forall v, C.page v ≠ none -> ProgramPage v)
    (hstack : forall v, C1.page v ≠ none <-> C.page v ≠ none ∨ StackPage v) {v : Nat}
    (hlow : userHeapBase / 4096 ≤ v) (hhigh : v < bottomUserStack / 4096) :
    C1.page v = none := by
  by_contra hpage
  rcases (hstack v).mp hpage with hold | hnew
  · exact hold (unmapped_of_program hpages hlow)
  · have hlow' := hnew.left
    lia

theorem execStack_meets {args : List (List UInt8)} (eh : Elfhdr) (h : Isolated s free L C)
    (holder : older.pgdir = kernelAddr L.dir) (hvm : vm.pgdir = kernelAddr C.dir)
    (hpages : forall v, C.page v ≠ none -> ProgramPage v)
    (hmemory : ArgsInMemory args)
    (hfollow : forall free1 C1,
      Planned [(bottomUserStack / 4096, npagesUserStack)] free C free1 C1 ->
      ArgsFollow C1.page (argvPtr args.length) args) :
    Meets
      (fun a => (free.length < stackNeed C ∧ a.2.exhausted = true) ∨
        StackEnd vm s free C args a)
      (fun e => (free.length < stackNeed C ∧ e.2.exhausted = true) ∨
        (args = [] ∧ e.2.exhausted = s.exhausted))
      (execStack older vm eh args s) := by
  have hclear : forall v, StackPage v -> C.page v = none :=
    fun v hv => clear_of_program hpages hv
  unfold execStack
  refine Meets.bind ((setupUstack_meets vm h.right hvm hclear).mono (fun _ ha => ha)
    (fun e he => Or.inl ⟨he.left, he.right.exhausted⟩)) ?_
  intro r hor
  rcases r with ⟨ready, s1⟩
  rcases hor with ⟨hshort, hdry⟩ | ⟨hready, free1, C1, hbuilds, hstack, hplanned⟩
  · dsimp only at hdry ⊢
    split
    · exact (execArgs_keeps hdry eh args).mono (fun a ha => Or.inl ⟨hshort, ha⟩)
        (fun e he => Or.inl ⟨hshort, he⟩)
    · exact (execBad_keeps hdry.exhausted).mono (fun a ha => Or.inl ⟨hshort, ha⟩)
        (fun e he => Or.inl ⟨hshort, he⟩)
  · dsimp only at hready hbuilds ⊢
    rw [if_pos hready]
    have h1 : Isolated s1 free1 L C1 := (h.symm.grows hbuilds.grows).symm
    have hvm1 : vm.pgdir = kernelAddr C1.dir := by
      rw [hbuilds.grows.dir]
      exact hvm
    have hthere : forall v, StackPage v -> C1.page v ≠ none :=
      fun v hv => (hstack v).mpr (Or.inr hv)
    have hgap : forall v, userHeapBase / 4096 ≤ v -> v < bottomUserStack / 4096 ->
        C1.page v = none := fun v hlow hhigh => gap_of_program hpages hstack hlow hhigh
    have hend := execArgs_end eh h1 holder hvm1 hthere hgap hmemory (hfollow free1 C1 hplanned)
    cases hrun : execArgs older vm eh args s1 with
    | ok a =>
        rw [hrun] at hend
        right
        cases hend with
        | refused room undone fresh =>
            exact ⟨Or.inl ⟨rfl, room, hbuilds.undone undone⟩, fresh.trans hbuilds.exhausted⟩
        | replaced room done fresh =>
            refine ⟨Or.inr ⟨room, C1, hbuilds.grows.dir, done,
              fun v f hv => hbuilds.keeps (Slot.page v) f hv, ?_⟩,
              fresh.trans hbuilds.exhausted⟩
            intro v hv
            rcases (hstack v).mp hv with hold | hnew
            · exact Or.inl (hpages v hold)
            · exact Or.inr hnew
    | error e =>
        rw [hrun] at hend
        right
        cases hend with
        | nameless none fresh => exact ⟨none, fresh.trans hbuilds.exhausted⟩

theorem emptyLayout_page (d v : Nat) : (emptyLayout d).page v ≠ none <-> False :=
  ⟨fun h => h rfl, False.elim⟩

/-- Behind `setup_ustack` the pages are those of the plan. -/
theorem Planned.execPage {headers : List (Option Proghdr)} {free0 free1 : List Nat} {d : Nat}
    {C1 : Layout} (h : Planned (ranges headers) free0 (emptyLayout d) free C)
    (h1 : Planned [(bottomUserStack / 4096, npagesUserStack)] free C free1 C1) :
    C1.page = Vm.execPage headers free0 := by
  have hall := h.append h1
  funext v
  symm
  apply lookup_plan
  intro v f
  rw [hall.page]
  constructor
  · intro hor
    rcases hor with hold | hplan
    · cases hold
    · exact hplan
  · exact Or.inr

/-- What `proc_execv` answers once the ELF header is verified. -/
def ProgramEnd (vm : AddressSpace) (file : List UInt8) (headers : List (Option Proghdr))
    (args : List (List UInt8)) (d : Nat) (s : Phys) (free : List Nat)
    (a : Option Execd × Phys) : Prop :=
  HeadersApart file (fun _ => False) headers ∧
    ((a.1 = none ∧ Not (Accepted file headers ∧ ArgsRoom (argvPtr args.length) args) ∧
        Undone s free (emptyLayout d) a.2) ∨
      exists C', C'.dir = d ∧ Replaced vm C' args a ∧
        (Accepted file headers ∧ ArgsRoom (argvPtr args.length) args) ∧
        (forall n s1 v f, loadProghdrs vm file (headers.take n) s = Except.ok (true, s1) ->
          (layoutOf s1 d).page v = some f -> C'.page v = some f) ∧
        forall v, C'.page v ≠ none -> ExecPage v)

theorem execProgram_meets {args : List (List UInt8)} {d : Nat} (vm : AddressSpace)
    (file : List UInt8) (eh : Elfhdr) (h : Isolated s free L (emptyLayout d))
    (holder : older.pgdir = kernelAddr L.dir) (hvm : vm.pgdir = kernelAddr d)
    (hmemory : ArgsInMemory args)
    (hfollow : Accepted file (readProghdrs file eh.phnum eh.phoff) ->
      ArgsFollow (execPage (readProghdrs file eh.phnum eh.phoff) free) (argvPtr args.length) args) :
    Meets
      (fun a => a.2.exhausted = true ∨
        ProgramEnd vm file (readProghdrs file eh.phnum eh.phoff) args d s free a)
      (fun e => e.2.exhausted = true ∨
        Not (HeadersApart file (fun _ => False) (readProghdrs file eh.phnum eh.phoff)) ∨
        (args = [] ∧ Accepted file (readProghdrs file eh.phnum eh.phoff)))
      (execProgram older vm file eh args s) := by
  generalize hheaders : readProghdrs file eh.phnum eh.phoff = headers at hfollow ⊢
  have hword : forall ph, some ph ∈ headers -> ph.Word := by
    intro ph hph
    rw [<- hheaders] at hph
    exact readProghdrs_word hph
  unfold execProgram
  rw [hheaders]
  refine Meets.bind ((loadProghdrs_meets (fun _ => False) h.right hvm
    hword (emptyLayout_page d)).mono (fun _ ha => ha) ?_) ?_
  · intro e hor
    rcases hor with hdry | hmet
    · exact Or.inl hdry.exhausted
    · exact Or.inr (Or.inl hmet)
  · intro r hor
    rcases r with ⟨loaded, s1⟩
    rcases hor with hdry | ⟨hapart, haccepted, free1, C, hloaded, hplanned⟩
    · dsimp only at hdry ⊢
      split
      · exact (execStack_keeps hdry eh args).mono (fun a ha => Or.inl ha) (fun e he => Or.inl he)
      · exact (execBad_keeps hdry.exhausted).mono (fun a ha => Or.inl ha) (fun e he => Or.inl he)
    · dsimp only at haccepted hloaded ⊢
      have hdir : C.dir = d := hloaded.builds.grows.dir
      have h1 : Isolated s1 free1 L C := (h.symm.grows hloaded.builds.grows).symm
      have hvm1 : vm.pgdir = kernelAddr C.dir := by
        rw [hdir]
        exact hvm
      have hpages : forall v, C.page v ≠ none -> ProgramPage v := by
        intro v hv
        rcases hloaded.inside v hv with hold | hprogram
        · exact ((emptyLayout_page d v).mp hold).elim
        · exact hprogram
      by_cases hyes : loaded = true
      · rw [if_pos hyes]
        have hall := haccepted.mp hyes
        have hfollow1 : forall free2 C1,
            Planned [(bottomUserStack / 4096, npagesUserStack)] free1 C free2 C1 ->
              ArgsFollow C1.page (argvPtr args.length) args := by
          intro free2 C1 hstack
          rw [(hplanned hyes).execPage hstack]
          exact hfollow hall
        refine (execStack_meets eh h1 holder hvm1 hpages hmemory hfollow1).mono ?_ ?_
        · rintro a (⟨-, hex⟩ | ⟨⟨hnone, hroom, hundone⟩ |
            ⟨hroom, C', hdir', hdone, hkept, hinside⟩, -⟩)
          · exact Or.inl hex
          · exact Or.inr ⟨hapart, Or.inl ⟨hnone, fun hboth => hroom hboth.right,
              hloaded.builds.undone hundone⟩⟩
          · right
            refine ⟨hapart, Or.inr ⟨C', hdir'.trans hdir, hdone, ⟨hall, hroom⟩, ?_, hinside⟩⟩
            intro n s2 v f hrun hv
            exact hkept v f (hloaded.kept n s2 v f hrun hv)
        · intro e hor
          rcases hor with ⟨-, hex⟩ | ⟨hnil, -⟩
          · exact Or.inl hex
          · exact Or.inr (Or.inr ⟨hnil, hall⟩)
      · rw [if_neg hyes]
        rcases execBad_ok vm h1 holder hvm1 with ⟨s2, hbad, hundone, -⟩
        rw [hbad]
        exact Or.inr ⟨hapart, Or.inl ⟨rfl, fun hboth => hyes (haccepted.mpr hboth.left),
          hloaded.builds.undone hundone⟩⟩

/-- The space behind some of the headers has pages of the program only. -/
theorem loadedUpTo_program {refill : Bool} {inode : Option (Nat × List UInt8)} {n d v f : Nat}
    {b : Bool} {s1 : Phys} (h : Sound s free L) (hup : LoadedUpTo refill inode s n vm b s1)
    (hfresh : s1.exhausted = false) (hvm : vm.pgdir = kernelAddr d)
    (hv : (layoutOf s1 d).page v = some f) : ProgramPage v := by
  rcases hup with ⟨file, eh, s0, -, hnew, hload⟩
  rcases vmNew_cases refill h with ⟨s0', free0, c, hrun, hiso, -⟩ | ⟨-, e, hrun, -⟩
  · rw [hrun] at hnew
    cases hnew
    have hc : c = d := kernelAddr_injective hvm
    cases hc
    have hword : forall ph, some ph ∈ (readProghdrs file eh.phnum eh.phoff).take n -> ph.Word :=
      fun ph hph => readProghdrs_word (List.mem_of_mem_take hph)
    rcases (loadProghdrs_meets (fun _ => False) hiso.right hvm hword
      (emptyLayout_page d)).of_ok hload with hdry | ⟨-, -, free1, C, hloaded, -⟩
    · exact absurd hdry (not_dry_of_fresh hfresh)
    · have hdir : C.dir = d := hloaded.builds.grows.dir
      have hlayout := hloaded.builds.grows.sound.layout
      rw [hdir] at hlayout
      have hpage : C.page v ≠ none := by
        rw [<- hlayout, hv]
        exact Option.some_ne_none f
      rcases hloaded.inside v hpage with hold | hprogram
      · exact ((emptyLayout_page d v).mp hold).elim
      · exact hprogram
  · rw [hrun] at hnew
    cases hnew

/-!
# Survival
-/

theorem ProgramEnd.survives {refill : Bool} {inode : Option (Nat × List UInt8)}
    {args : List (List UInt8)} {d : Nat} {file : List UInt8} {eh : Elfhdr} {s0 : Phys}
    {free0 : List Nat} {a : Option Execd × Phys} (h : Sound s free L)
    (hprogram : program inode = some (file, eh))
    (hnew : vmNew refill s = Except.ok (some vm, s0)) (hvm : vm.pgdir = kernelAddr d)
    (hrun : procExecv older refill inode args s = Except.ok a)
    (hend : ProgramEnd vm file (readProghdrs file eh.phnum eh.phoff) args d s0 free0 a)
    (hname : NameFits inode args) : Survives older refill inode args s := by
  rcases hend with ⟨-, ⟨hnone, -⟩ | ⟨C', hdir, hdone, ⟨hall, hroom⟩, hkept, hinside⟩⟩
  · constructor
    · exact ⟨a, hrun⟩
    · exact fun n vm b s1 d v f hup hfresh hvm hv => loadedUpTo_program h hup hfresh hvm hv
    all_goals
      intro e s' hsome
      rw [hrun] at hsome
      cases hsome
      cases hnone
  · rcases hdone with ⟨⟨arg, rest, e, hargs, hanswer, hevm, hename⟩, free', hsound⟩
    have hlayout := hsound.layout
    rw [hdir] at hlayout
    have hsame : forall e' s', procExecv older refill inode args s = Except.ok (some e', s') ->
        e' = e ∧ s' = a.2 := by
      intro e' s' hsome
      rw [hrun] at hsome
      cases hsome
      cases hanswer
      exact ⟨rfl, rfl⟩
    constructor
    · exact ⟨a, hrun⟩
    · exact fun n vm b s1 d v f hup hfresh hvm hv => loadedUpTo_program h hup hfresh hvm hv
    · intro e' s' hsome d' v f hd' hv
      rcases hsame e' s' hsome with ⟨he, hs⟩
      rw [he, hevm, hvm] at hd'
      rw [hs, <- kernelAddr_injective hd', hlayout] at hv
      apply hinside
      rw [hv]
      exact Option.some_ne_none f
    · intro e' s' hsome n vm' s1 d' v f hup hd' hv
      rcases hsame e' s' hsome with ⟨he, hs⟩
      rcases hup with ⟨file', eh', s0', hprogram', hnew', hload⟩
      rw [hprogram] at hprogram'
      rw [hnew] at hnew'
      cases hprogram'
      cases hnew'
      rw [hvm] at hd'
      rw [<- kernelAddr_injective hd'] at hv ⊢
      refine ⟨he ▸ hevm, ?_⟩
      rw [hs, hlayout]
      exact hkept n s1 v f hload hv
    · intro e' s' hsome
      rcases hname ⟨file, eh, hprogram, hall⟩ hroom with ⟨arg', rest', hargs', hlen⟩
      rw [hargs] at hargs'
      cases hargs'
      rw [(hsame e' s' hsome).left, hename, List.length_append]
      exact hlen

end Exec

theorem not_found_of_exhausted {r : Run (Option Execd × Phys)}
    (hfound : (final r).exhausted = false) {s : Phys} (hfinal : final r = s)
    (hex : s.exhausted = true) : False := by
  rw [hfinal, hex] at hfound
  cases hfound

def roomyFree : List Nat := [1025, 1026, 1027, 1028, 1029, 1030]

def roomyPhys : Phys := freeFrames roomyFree

def roomyVm : AddressSpace := { pgdir := kernelAddr 1024, brk := userHeapBase }

theorem roomySound : Sound roomyPhys roomyFree bareLayout :=
  bare_sound (by decide) (by decide)

def plainElf : List UInt8 :=
  [0x7F, 0x45, 0x4C, 0x46] ++ List.replicate 12 0 ++ [2, 0] ++ List.replicate 34 0

theorem plain_program :
    exists eh, program (some (inodeFile, plainElf)) = some (plainElf, eh) ∧
      readProghdrs plainElf eh.phnum eh.phoff = [] := by
  have hread : inodeRead plainElf 0 52 = some plainElf := by
    unfold inodeRead
    rw [if_neg]
    · rfl
    · intro hor
      rcases hor with hover | hwrap
      · exact absurd hover (Nat.not_lt_zero _)
      · exact absurd hwrap (Nat.not_lt_zero _)
  have hrecord : readRecord plainElf 0 52 = some plainElf := by
    unfold readRecord
    rw [hread]
    rfl
  have hheader : exists eh, readElfhdr plainElf = some eh ∧ verifyElfhdr eh = true ∧
      readProghdrs plainElf eh.phnum eh.phoff = [] := by
    unfold readElfhdr
    rw [hrecord]
    exact ⟨_, rfl, rfl, rfl⟩
  rcases hheader with ⟨eh, hread, hverify, hheaders⟩
  refine ⟨eh, ?_, hheaders⟩
  unfold program
  dsimp only
  rw [if_neg (fun hne => hne rfl), hread]
  dsimp only
  rw [if_pos hverify]

theorem plain_meets (args : List (List UInt8)) (hmemory : ArgsInMemory args)
    (hfollow : forall page, ArgsFollow page (argvPtr args.length) args) :
    exists vm s0 free0 C, s0.exhausted = false ∧ Meets (fun a => StackEnd vm s0 free0 C args a)
      (fun e => args = [] ∧ e.2.exhausted = s0.exhausted)
      (procExecv roomyVm false (some (inodeFile, plainElf)) args roomyPhys) := by
  rcases plain_program with ⟨eh, hprogram, hheaders⟩
  rcases vmNew_cases false roomySound with ⟨s0, free0, d, hnew, hiso, hex, hleft, -⟩ | ⟨hshort, -⟩
  · have hrun : procExecv roomyVm false (some (inodeFile, plainElf)) args roomyPhys =
        execStack roomyVm { pgdir := kernelAddr d, brk := userHeapBase } eh args s0 := by
      unfold procExecv
      rw [hnew, ok_bind]
      dsimp only
      unfold execInto
      rw [hprogram]
      dsimp only
      unfold execProgram
      rw [hheaders]
      rfl
    have hneed : stackNeed (emptyLayout d) = 5 := rfl
    have hfree : free0.length = 5 := by
      have hrest := (List.cons.inj hleft).right
      rw [hrest]
      rfl
    have hfresh : s0.exhausted = false := hex
    refine ⟨{ pgdir := kernelAddr d, brk := userHeapBase }, s0, free0, emptyLayout d, hfresh, ?_⟩
    rw [hrun]
    refine (execStack_meets eh hiso rfl rfl (fun v hv => absurd rfl hv) hmemory
      (fun free1 C1 _ => hfollow C1.page)).mono ?_ ?_
    · intro a hor
      rcases hor with ⟨hshort, -⟩ | hend
      · rw [hneed, hfree] at hshort
        exact absurd hshort (Nat.lt_irrefl 5)
      · exact hend
    · intro e hor
      rcases hor with ⟨hshort, -⟩ | hnameless
      · rw [hneed, hfree] at hshort
        exact absurd hshort (Nat.lt_irrefl 5)
      · exact hnameless
  · exact absurd hshort (by decide)

theorem plain_found {args : List (List UInt8)} (hmemory : ArgsInMemory args)
    (hfollow : forall page, ArgsFollow page (argvPtr args.length) args) :
    (final (procExecv roomyVm false (some (inodeFile, plainElf)) args roomyPhys)).exhausted =
      false := by
  rcases plain_meets args hmemory hfollow with ⟨vm, s0, free0, C, hfresh, hmeets⟩
  apply final_of_meets
  exact hmeets.mono (fun a ha => ha.exhausted.trans hfresh) (fun e he => he.right.trans hfresh)

/-- A name, and a string over two pages that begins where a page begins. -/
def pagedArgs : List (List UInt8) := [[97], List.replicate 8181 98]

theorem pagedArgs_below :
    argvPtr 2 = 2147483640 ∧ below (argvPtr 2) [97] = 2147483638 ∧
      below 2147483638 (List.replicate 8181 98) = 2147475456 := by
  have hptr : argvPtr 2 = 2147483640 := by
    unfold argvPtr
    rw [wrap_eq]
    rfl
  refine ⟨hptr, ?_, ?_⟩
  · rw [below_eq, hptr]
    rfl
  · rw [below_eq, List.length_replicate]

theorem pagedArgs_inMemory : ArgsInMemory pagedArgs := by
  constructor
  · decide
  · intro arg harg
    unfold pagedArgs at harg
    rcases List.mem_cons.mp harg with harg | harg
    · rw [harg]
      decide
    · rw [List.mem_singleton.mp harg, List.length_replicate]
      decide

theorem pagedArgs_follow (page : Nat -> Option Nat) : ArgsFollow page (argvPtr 2) pagedArgs := by
  rcases pagedArgs_below with ⟨-, hfirst, hsecond⟩
  unfold pagedArgs ArgsFollow
  rw [hfirst]
  constructor
  · exact stepsFollow_inside (by decide)
  · intro _
    unfold ArgsFollow
    rw [hsecond]
    exact ⟨stepsFollow_aligned (by decide), fun _ => trivial⟩

theorem noArgs_inMemory : ArgsInMemory [] := ⟨by decide, fun arg harg => by cases harg⟩

end Vm
end Kernel
end NicoOS
