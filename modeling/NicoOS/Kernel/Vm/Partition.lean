import NicoOS.Kernel.Vm.Exec
import Mathlib.Logic.Function.Basic

/-!
# Ownership of frames

Any number of address spaces that the kernel makes, grows, copies and frees: who owns
which frame, and which frames come back.
-/

namespace NicoOS
namespace Kernel
namespace Vm

open Lib

/-!
# Address spaces and calls
-/

/-- The memory of the frames, and each `struct vm` at the address that `kalloc` gave it. -/
structure Machine where
  phys : Phys
  space : Nat -> Option AddressSpace

def AddressSpace.dir (vm : AddressSpace) : Nat := (vm.pgdir - kernelBase) / pgSize

namespace Machine

def vmAt (m : Machine) (p : Nat) : Run AddressSpace :=
  match m.space p with
  | some vm => Except.ok vm
  | none => Except.error (Stop.fault, m.phys)

/-- The frames that the address space at `p` uses: its directory, its tables and its pages. -/
def Owns (m : Machine) (p f : Nat) : Prop :=
  exists vm x, m.space p = some vm ∧ (layoutOf m.phys vm.dir).frame x = some f

end Machine

inductive Call where
  | new (refill : Bool) (p : Nat)
  | valloc (p vaddr pgcnt : Nat)
  | copy (refill : Bool) (p q : Nat)
  | grow (p : Nat) (bytesCnt : Int)
  | free (current : AddressSpace) (p : Nat)

namespace Call

/-- The answer tells whether there is a result that is not `NULL`. -/
def run : Call -> Machine -> Run (Bool × Machine)
  | new refill p, m => do
      let (vm, s) <- vmNew refill m.phys
      Except.ok (vm.isSome, ⟨s, Function.update m.space p vm⟩)
  | valloc p vaddr pgcnt, m => do
      let vm <- m.vmAt p
      let (done, s) <- vmValloc vm vaddr pgcnt m.phys
      Except.ok (done, ⟨s, m.space⟩)
  | copy refill p q, m => do
      let vm <- m.vmAt p
      let (vn, s) <- vmCopy refill vm m.phys
      Except.ok (vn.isSome, ⟨s, Function.update m.space q vn⟩)
  | grow p bytesCnt, m => do
      let vm <- m.vmAt p
      let ((old, vm), s) <- vmGrowUserheap vm bytesCnt m.phys
      Except.ok (decide (old ≠ 0), ⟨s, Function.update m.space p (some vm)⟩)
  | free current p, m => do
      let vm <- m.vmAt p
      let s <- vmFree current vm m.phys
      Except.ok (true, ⟨s, Function.update m.space p none⟩)

/--
The address of a new `struct vm` is not in use, pages are asked for where none are mapped,
and a task does not free its own address space.
-/
def Valid (m : Machine) : Call -> Prop
  | new _ p => m.space p = none
  | valloc p vaddr pgcnt =>
      pgcnt ≠ 0 ∧ vaddr + 4096 * pgcnt ≤ kernelBase ∧ exists vm, m.space p = some vm ∧
        forall v, vaddr / 4096 ≤ v -> v < vaddr / 4096 + pgcnt ->
          (layoutOf m.phys vm.dir).page v = none
  | copy _ p q => (exists vm, m.space p = some vm) ∧ m.space q = none
  | grow p bytesCnt => (exists vm, m.space p = some vm) ∧ bytesCnt < 0x80000000
  | free current p => exists vm, m.space p = some vm ∧ current.pgdir ≠ vm.pgdir

def memory : Run (Bool × Machine) -> Phys
  | Except.ok a => a.2.phys
  | Except.error e => e.2

/-- There are enough free frames: `palloc` does not find the list empty. -/
def FindsFrames (m : Machine) (c : Call) : Prop := (memory (c.run m)).exhausted = false

instance (m : Machine) (c : Call) : Decidable (FindsFrames m c) :=
  inferInstanceAs (Decidable ((memory (c.run m)).exhausted = false))

theorem memory_answer {α : Type} (r : Run (α × Phys)) (done : α × Phys -> Bool)
    (space : α × Phys -> Nat -> Option AddressSpace) :
    memory (r >>= fun a => Except.ok (done a, ⟨a.2, space a⟩)) = final r := by
  cases r with
  | ok a => rfl
  | error e => rfl

section Runs

variable {m : Machine} {p : Nat} {vm : AddressSpace}

theorem run_new (refill : Bool) (p : Nat) (m : Machine) :
    (new refill p).run m = vmNew refill m.phys >>= fun a =>
      Except.ok (a.1.isSome, ⟨a.2, Function.update m.space p a.1⟩) := rfl

theorem vmAt_bind {α : Type} (hp : m.space p = some vm) (k : AddressSpace -> Run α) :
    m.vmAt p >>= k = k vm := by
  unfold Machine.vmAt
  rw [hp, ok_bind]

theorem run_valloc (hp : m.space p = some vm) (vaddr pgcnt : Nat) :
    (valloc p vaddr pgcnt).run m = vmValloc vm vaddr pgcnt m.phys >>= fun a =>
      Except.ok (a.1, ⟨a.2, m.space⟩) :=
  vmAt_bind hp _

theorem run_copy (hp : m.space p = some vm) (refill : Bool) (q : Nat) :
    (copy refill p q).run m = vmCopy refill vm m.phys >>= fun a =>
      Except.ok (a.1.isSome, ⟨a.2, Function.update m.space q a.1⟩) :=
  vmAt_bind hp _

theorem run_grow (hp : m.space p = some vm) (bytesCnt : Int) :
    (grow p bytesCnt).run m = vmGrowUserheap vm bytesCnt m.phys >>= fun a =>
      Except.ok (decide (a.1.1 ≠ 0), ⟨a.2, Function.update m.space p (some a.1.2)⟩) :=
  vmAt_bind hp _

theorem run_free (hp : m.space p = some vm) (current : AddressSpace) :
    (free current p).run m = vmFree current vm m.phys >>= fun s =>
      Except.ok (true, ⟨s, Function.update m.space p none⟩) :=
  vmAt_bind hp _

end Runs

end Call

/-- The states behind calls that find their frames. -/
inductive Reached (start : Machine) : Machine -> Prop where
  | start : Reached start start
  | call {m m' : Machine} {c : Call} {done : Bool} (before : Reached start m)
      (valid : c.Valid m) (found : c.FindsFrames m) (run : c.run m = Except.ok (done, m')) :
      Reached start m'

/-!
# What a call leaves to the others
-/

/-- Only frames in `P` and free frames are written to, and only frames in `P` become free. -/
structure Spares (s : Phys) (free : List Nat) (P : Nat -> Prop) (s' : Phys) (free' : List Nat) :
    Prop where
  pool : Pool s' free'
  taken : forall f, f ∈ free' -> f ∈ free ∨ P f
  same : forall f, Not (P f) -> Not (f ∈ free) -> s'.frame f = s.frame f

section Sparing

variable {s s' s1 : Phys} {free free' free1 : List Nat} {L C : Layout} {P : Nat -> Prop}

/-- The frames of an address space are the ones it may write to. -/
theorem Grows.spares (h : Grows s free L s' free' C) :
    Spares s free (fun f => exists x, L.frame x = some f) s' free' where
  pool := h.sound.pool
  taken f hf := Or.inl (h.taken f hf)
  same f hunused hfree := h.others f (fun x hx => hunused ⟨x, hx⟩) hfree

theorem CopyOf.spares (h : CopyOf s free L s' free' C) :
    Spares s free (fun _ => False) s' free' where
  pool := h.child.pool
  taken f hf := Or.inl (h.taken f hf)
  same f _ hfree := h.others f hfree

theorem Freed.spares (h : Freed s free P P s' free') : Spares s free P s' free' where
  pool := h.pool
  taken f hf := (h.mem f).mp hf
  same f hP _ := h.same f hP

theorem Spares.refl (h : Pool s free) (P : Nat -> Prop) : Spares s free P s free where
  pool := h
  taken _ hf := Or.inl hf
  same _ _ _ := rfl

/-- A part that only takes free frames, and the rest. -/
theorem Spares.after (h : Spares s free (fun _ => False) s1 free1)
    (h1 : Spares s1 free1 P s' free') : Spares s free P s' free' where
  pool := h1.pool
  taken f hf := by
    rcases h1.taken f hf with hmem | hP
    · rcases h.taken f hmem with hold | hno
      · exact Or.inl hold
      · exact hno.elim
    · exact Or.inr hP
  same f hP hfree := by
    have hfree1 : Not (f ∈ free1) := by
      intro hmem
      rcases h.taken f hmem with hold | hno
      · exact hfree hold
      · exact hno
    exact (h1.same f hP hfree1).trans (h.same f id hfree)

/-- The frames of another address space keep their contents. -/
theorem Spares.keeps (h : Spares s free P s' free') (hC : Sound s free C)
    (hapart : forall x f, C.frame x = some f -> Not (P f)) {x : Slot} {f : Nat}
    (hx : C.frame x = some f) : s'.frame f = s.frame f :=
  h.same f (hapart x f hx) (hC.used x f hx)

theorem Spares.sound (h : Spares s free P s' free') (hC : Sound s free C)
    (hapart : forall x f, C.frame x = some f -> Not (P f)) (hkernel : Not (P kpgdirFrame)) :
    Sound s' free' C := by
  apply hC.untouched h.pool
  · intro f hf
    rcases h.taken f hf with hold | hP
    · exact Or.inl hold
    · exact Or.inr (fun x hx => hapart x f hx hP)
  · exact fun x f hx => h.keeps hC hapart hx
  · exact h.same kpgdirFrame hkernel hC.kpgdir_used

theorem kallocVm_spares (refill : Bool) (h : Pool s free) :
    (exists s' free', kallocVm refill s = Except.ok (true, s') ∧
      Spares s free (fun _ => False) s' free' ∧ s'.exhausted = s.exhausted) ∨
    exists e, kallocVm refill s = Except.error e ∧ e.2.exhausted = true := by
  cases refill with
  | false => exact Or.inl ⟨s, free, rfl, Spares.refl h _, rfl⟩
  | true =>
      cases free with
      | nil =>
          right
          refine ⟨(Stop.fault, { s with exhausted := true }), ?_, rfl⟩
          unfold kallocVm
          rw [if_pos rfl, h.palloc_nil, ok_bind]
          dsimp only
          rw [pageAt_kernelBase, error_bind]
      | cons p rest =>
          left
          refine ⟨(s.pop p).clear p, rest, kallocVm_cons h, ?_, rfl⟩
          constructor
          · exact h.kalloc
          · exact fun f hf => Or.inl (List.mem_cons_of_mem p hf)
          · exact fun f _ hf => clear_of_ne (fun e => hf (e ▸ List.mem_cons_self))

theorem newDir_spares {c : Nat} {rest : List Nat} (h : Pool s (c :: rest)) :
    Spares s (c :: rest) (fun _ => False) (newDir s c) rest where
  pool := (newDir_sound h).pool
  taken f hf := Or.inl (List.mem_cons_of_mem c hf)
  same f _ hf := newDir_frame (fun e => hf (e ▸ List.mem_cons_self))

end Sparing

/-- A run that found the list empty ends with a record of it. -/
theorem EndsDry.final {r : Run (Bool × Phys)} (h : EndsDry r) :
    (Vm.final r).exhausted = true := by
  cases r with
  | ok a => exact h.right.exhausted
  | error e => exact Dry.exhausted h

theorem EndsDry.final_bind {α : Type} {r : Run (Bool × Phys)} (h : EndsDry r) {x y : α} :
    (Vm.final (r >>= fun a => if a.1 = true then Except.ok (x, a.2)
      else Except.ok (y, a.2))).exhausted = true := by
  cases r with
  | ok a =>
      rw [ok_bind, if_pos h.left]
      exact h.right.exhausted
  | error e => exact Dry.exhausted h

/-!
# The partition
-/

/-- Every address space is sound in its layout, and no two of them share a frame. -/
structure Partition (m : Machine) (free : List Nat) (layout : Nat -> Layout) : Prop where
  pool : Pool m.phys free
  fresh : m.phys.exhausted = false
  brk : forall p vm, m.space p = some vm -> vm.brk ≠ 0 ∧ vm.brk < 0x100000000
  dir : forall p vm, m.space p = some vm -> vm.pgdir = kernelAddr (layout p).dir
  sound : forall p vm, m.space p = some vm -> Sound m.phys free (layout p)
  apart : forall p q vm vn, p ≠ q -> m.space p = some vm -> m.space q = some vn ->
    (layout p).Apart (layout q)

namespace Partition

variable {m : Machine} {free : List Nat} {layout : Nat -> Layout} {p : Nat}
  {vm : AddressSpace}

theorem vm_dir (h : Partition m free layout) (hp : m.space p = some vm) :
    vm.dir = (layout p).dir := by
  unfold AddressSpace.dir pgSize
  rw [h.dir p vm hp, kernelAddr_eq, kernelBase_eq]
  omega

theorem layoutOf (h : Partition m free layout) (hp : m.space p = some vm) :
    Vm.layoutOf m.phys vm.dir = layout p := by
  rw [h.vm_dir hp]
  exact (h.sound p vm hp).layout

theorem owns_iff (h : Partition m free layout) (hp : m.space p = some vm) (f : Nat) :
    m.Owns p f <-> exists x, (layout p).frame x = some f := by
  constructor
  · intro hex
    rcases hex with ⟨vm', x, hp', hx⟩
    rw [h.layoutOf hp'] at hx
    exact ⟨x, hx⟩
  · intro hex
    rcases hex with ⟨x, hx⟩
    refine ⟨vm, x, hp, ?_⟩
    rw [h.layoutOf hp]
    exact hx

/-- One address space changes within its frames and the free ones. -/
theorem change (h : Partition m free layout) {P : Nat -> Prop} {s' : Phys} {free' : List Nat}
    {u : Option AddressSpace} {L : Layout} (hspares : Spares m.phys free P s' free')
    (hfresh : s'.exhausted = false) (hkernel : Not (P kpgdirFrame))
    (hother : forall q vn, q ≠ p -> m.space q = some vn ->
      forall x f, (layout q).frame x = some f -> Not (P f))
    (hbrk : forall vm, u = some vm -> vm.brk ≠ 0 ∧ vm.brk < 0x100000000)
    (hdir : forall vm, u = some vm -> vm.pgdir = kernelAddr L.dir)
    (hsound : forall vm, u = some vm -> Sound s' free' L)
    (hframes : forall vm, u = some vm -> forall x f, L.frame x = some f -> P f ∨ f ∈ free) :
    Partition ⟨s', Function.update m.space p u⟩ free' (Function.update layout p L) := by
  have hself : forall {q vn}, q = p -> Function.update m.space p u q = some vn ->
      u = some vn := by
    intro q vn hq hvn
    rw [hq, Function.update_self] at hvn
    exact hvn
  have hrest : forall {q vn}, q ≠ p -> Function.update m.space p u q = some vn ->
      m.space q = some vn := by
    intro q vn hq hvn
    rw [Function.update_of_ne hq] at hvn
    exact hvn
  have hnew : forall q vm vn, q ≠ p -> u = some vm -> m.space q = some vn ->
      L.Apart (layout q) := by
    intro q vm vn hq hvm hvn x y f hx hy
    rcases hframes vm hvm x f hx with hP | hmem
    · exact hother q vn hq hvn y f hy hP
    · exact (h.sound q vn hvn).used y f hy hmem
  constructor
  · exact hspares.pool
  · exact hfresh
  · intro q vn hvn
    by_cases hq : q = p
    · exact hbrk vn (hself hq hvn)
    · exact h.brk q vn (hrest hq hvn)
  · intro q vn hvn
    by_cases hq : q = p
    · rw [hq, Function.update_self]
      exact hdir vn (hself hq hvn)
    · rw [Function.update_of_ne hq]
      exact h.dir q vn (hrest hq hvn)
  · intro q vn hvn
    by_cases hq : q = p
    · rw [hq, Function.update_self]
      exact hsound vn (hself hq hvn)
    · rw [Function.update_of_ne hq]
      have hold := hrest hq hvn
      exact hspares.sound (h.sound q vn hold) (hother q vn hq hold) hkernel
  · intro q r vq vr hne hvq hvr
    by_cases hq : q = p
    · have hr : r ≠ p := fun e => hne (hq.trans e.symm)
      rw [hq, Function.update_self, Function.update_of_ne hr]
      exact hnew r vq vr hr (hself hq hvq) (hrest hr hvr)
    · rw [Function.update_of_ne hq]
      by_cases hr : r = p
      · rw [hr, Function.update_self]
        have hapart := hnew q vr vq hq (hself hr hvr) (hrest hq hvq)
        exact fun x y f hx hy => hapart y x f hy hx
      · rw [Function.update_of_ne hr]
        exact h.apart q r vq vr hne (hrest hq hvq) (hrest hr hvr)

/-- The frames of an address space are none of the others' and not the kernel's. -/
theorem own_frames (h : Partition m free layout) (hp : m.space p = some vm) :
    Not (exists x, (layout p).frame x = some kpgdirFrame) ∧
      forall q vn, q ≠ p -> m.space q = some vn -> forall x f, (layout q).frame x = some f ->
        Not (exists x, (layout p).frame x = some f) := by
  constructor
  · intro hex
    rcases hex with ⟨x, hx⟩
    exact Sound.ne_kpgdir ((h.sound p vm hp).inPool x kpgdirFrame hx) rfl
  · intro q vn hq hvn x f hx hex
    rcases hex with ⟨y, hy⟩
    exact h.apart p q vm vn (fun e => hq e.symm) hp hvn y x f hy hx

theorem grown (h : Partition m free layout) (hp : m.space p = some vm) {s' : Phys}
    {free' : List Nat} {L : Layout} {u : AddressSpace}
    (hgrows : Grows m.phys free (layout p) s' free' L) (hfresh : s'.exhausted = false)
    (hbrk : u.brk ≠ 0 ∧ u.brk < 0x100000000) (hdir : u.pgdir = vm.pgdir) :
    Partition ⟨s', Function.update m.space p (some u)⟩ free'
      (Function.update layout p L) := by
  rcases h.own_frames hp with ⟨hkernel, hother⟩
  apply h.change hgrows.spares hfresh hkernel hother
  · intro vn hvn
    cases hvn
    exact hbrk
  · intro vn hvn
    cases hvn
    rw [hdir, hgrows.dir]
    exact h.dir p vm hp
  · exact fun _ _ => hgrows.sound
  · intro _ _ x f hx
    rcases hgrows.fresh x f hx with hold | hmem
    · exact Or.inl ⟨x, hold⟩
    · exact Or.inr hmem

/-- A new address space stands in frames that were free. -/
theorem added (h : Partition m free layout) {s' : Phys} {free' : List Nat} {C : Layout} {b : Nat}
    (hspares : Spares m.phys free (fun _ => False) s' free') (hfresh : s'.exhausted = false)
    (hbrk : b ≠ 0 ∧ b < 0x100000000) (hsound : Sound s' free' C)
    (hframes : forall x f, C.frame x = some f -> f ∈ free) :
    Partition ⟨s', Function.update m.space p (some ⟨kernelAddr C.dir, b⟩)⟩ free'
      (Function.update layout p C) := by
  apply h.change hspares hfresh id (fun _ _ _ _ _ _ _ hno => hno)
  · intro vn hvn
    cases hvn
    exact hbrk
  · intro vn hvn
    cases hvn
    rfl
  · exact fun _ _ => hsound
  · exact fun _ _ x f hx => Or.inr (hframes x f hx)

/-!
# The calls
-/

/-- A call ends well in a state that is parted again. -/
def Serves (m : Machine) (c : Call) : Prop :=
  exists done m' free' layout', c.run m = Except.ok (done, m') ∧ Partition m' free' layout'

/-- A call that stops for want of a frame has not found its frames. -/
theorem not_found {c : Call} {e : Stop × Phys} (hfound : c.FindsFrames m)
    (hrun : c.run m = Except.error e) : Not (e.2.exhausted = true) := by
  intro hex
  unfold Call.FindsFrames at hfound
  rw [hrun] at hfound
  exact absurd (hex.symm.trans hfound) (by decide)

theorem new (h : Partition m free layout) {refill : Bool}
    (hfound : (Call.new refill p).FindsFrames m) : Serves m (Call.new refill p) := by
  rcases kallocVm_spares refill h.pool with
    ⟨s1, free1, hkalloc, hspares, hex⟩ | ⟨e, hkalloc, hex⟩
  · cases free1 with
    | nil =>
        have hstop : vmNew refill m.phys =
            Except.error (Stop.fault, { s1 with exhausted := true }) := by
          unfold vmNew
          rw [hkalloc, ok_bind]
          dsimp only
          rw [pgdirNew_nil hspares.pool, error_bind]
        exact absurd rfl (not_found hfound (by rw [Call.run_new, hstop, error_bind]))
    | cons c rest =>
        have hmade : vmNew refill m.phys =
            Except.ok (some ⟨kernelAddr c, userHeapBase⟩, newDir s1 c) := by
          unfold vmNew
          rw [hkalloc, ok_bind]
          dsimp only
          rw [pgdirNew_cons hspares.pool, ok_bind]
          dsimp only
          rw [if_neg (kernelAddr_ne_zero c)]
        have hframes : forall x f, (Layout.mk c (fun _ => none) (fun _ => none)).frame x = some f ->
            f ∈ free := by
          intro x f hx
          cases x with
          | dir =>
              cases hx
              rcases hspares.taken c List.mem_cons_self with hmem | hno
              · exact hmem
              · exact hno.elim
          | table i => cases hx
          | page v => cases hx
        have hparted := h.added (p := p) (b := userHeapBase)
          (hspares.after (newDir_spares hspares.pool)) (hex.trans h.fresh) (by decide)
          (newDir_sound hspares.pool) hframes
        refine ⟨true, _, rest, _, ?_, hparted⟩
        rw [Call.run_new, hmade, ok_bind]
        rfl
  · have hstop : vmNew refill m.phys = Except.error e := by
      unfold vmNew
      rw [hkalloc, error_bind]
    exact absurd hex (not_found hfound (by rw [Call.run_new, hstop, error_bind]))

theorem valloc (h : Partition m free layout) {vaddr pgcnt : Nat}
    (hvalid : (Call.valloc p vaddr pgcnt).Valid m)
    (hfound : (Call.valloc p vaddr pgcnt).FindsFrames m) :
    Serves m (Call.valloc p vaddr pgcnt) := by
  rcases hvalid with ⟨hcount, hrange, vm, hp, hnone⟩
  rw [h.layoutOf hp] at hnone
  have hsound := h.sound p vm hp
  have hasserted : pgcnt ≠ 0 ∧ wrap (vaddr + pgcnt * pgSize) > vaddr ∧
      wrap (vaddr + pgcnt * pgSize) ≤ kernelBase := by
    rw [kernelBase_eq] at hrange ⊢
    rw [wrap_eq]
    unfold pgSize
    omega
  have hcall : vmValloc vm vaddr pgcnt m.phys =
      vallocFrom (kernelAddr (layout p).dir) pgUser pgcnt 0 vaddr m.phys := by
    unfold vmValloc pgdirValloc
    rw [if_pos hasserted, h.dir p vm hp]
  by_cases henough : vallocNeed pgcnt (vaddr / 4096) (layout p).hasTable (layout p).hasPage ≤
      free.length
  · rcases vallocFrom_enough 0 hsound hrange henough with
      ⟨s1, free1, L1, hok, hserved, -⟩ | ⟨⟨w, hlow, hhigh, hmapped⟩, -⟩
    · have hparted := h.grown hp hserved.grown.grows
        (hserved.grown.exhausted.trans h.fresh) (h.brk p vm hp) rfl
      rw [<- hp, Function.update_eq_self] at hparted
      refine ⟨true, ⟨s1, m.space⟩, free1, _, ?_, hparted⟩
      rw [Call.run_valloc hp, hcall, hok, ok_bind]
    · exact absurd (hnone w hlow hhigh) hmapped
  · have hdry := vallocFrom_short 0 hsound hrange (Nat.lt_of_not_le henough)
    unfold Call.FindsFrames at hfound
    rw [Call.run_valloc hp, Call.memory_answer _ (fun a => a.1) (fun _ => m.space), hcall] at hfound
    exact absurd (hdry.final.symm.trans hfound) (by decide)

theorem copy_enough (h : Partition m free layout) (hp : m.space p = some vm) {refill : Bool}
    {q : Nat} {s1 : Phys} {free1 : List Nat}
    (hkalloc : kallocVm refill m.phys = Except.ok (true, s1))
    (hspares : Spares m.phys free (fun _ => False) s1 free1)
    (hex : s1.exhausted = m.phys.exhausted)
    (henough : copyNeed (layout p).hasTable (layout p).hasPage ≤ free1.length) :
    exists m' free' layout', (Call.copy refill p q).run m = Except.ok (true, m') ∧
      Partition m' free' layout' ∧ exists vn, m'.space = Function.update m.space q (some vn) := by
  have hsound := hspares.sound (h.sound p vm hp) (fun _ _ _ => id) id
  rcases pgdirCopy_enough hsound henough with ⟨c, s', free', C, hcopy, hdir, hcopied⟩
  have hframes : forall x f, C.frame x = some f -> f ∈ free := by
    intro x f hx
    rcases hspares.taken f (hcopied.fresh x f hx) with hmem | hno
    · exact hmem
    · exact hno.elim
  have hmade : vmCopy refill vm m.phys = Except.ok (some ⟨kernelAddr C.dir, vm.brk⟩, s') := by
    unfold vmCopy
    rw [hkalloc, ok_bind]
    dsimp only
    rw [h.dir p vm hp, hcopy, ok_bind]
    dsimp only
    rw [if_neg (kernelAddr_ne_zero c), hdir]
  have hparted := h.added (p := q) (hspares.after hcopied.spares)
    (hcopied.exhausted.trans (hex.trans h.fresh)) (h.brk p vm hp) hcopied.child hframes
  refine ⟨_, free', _, ?_, hparted, ⟨_, rfl⟩⟩
  rw [Call.run_copy hp, hmade, ok_bind]
  rfl

theorem copy (h : Partition m free layout) {refill : Bool} {q : Nat}
    (hvalid : (Call.copy refill p q).Valid m) (hfound : (Call.copy refill p q).FindsFrames m) :
    Serves m (Call.copy refill p q) := by
  rcases hvalid with ⟨⟨vm, hp⟩, -⟩
  rcases kallocVm_spares refill h.pool with
    ⟨s1, free1, hkalloc, hspares, hex⟩ | ⟨e, hkalloc, hex⟩
  · have hsound := hspares.sound (h.sound p vm hp) (fun _ _ _ => id) id
    by_cases henough : copyNeed (layout p).hasTable (layout p).hasPage ≤ free1.length
    · rcases h.copy_enough hp hkalloc hspares hex henough with
        ⟨m', free', layout', hrun, hparted, -⟩
      exact ⟨true, m', free', layout', hrun, hparted⟩
    · rcases pgdirCopy_short hsound (Nat.lt_of_not_le henough) with ⟨s', hcopy, hdry⟩
      have hstop : vmCopy refill vm m.phys = Except.error (Stop.fault, s') := by
        unfold vmCopy
        rw [hkalloc, ok_bind]
        dsimp only
        rw [h.dir p vm hp, hcopy, error_bind]
      exact absurd hdry (not_found hfound (by rw [Call.run_copy hp, hstop, error_bind]))
  · have hstop : vmCopy refill vm m.phys = Except.error e := by
      unfold vmCopy
      rw [hkalloc, error_bind]
    exact absurd hex (not_found hfound (by rw [Call.run_copy hp, hstop, error_bind]))

theorem vmFree_freed (h : Partition m free layout) (hp : m.space p = some vm)
    {current : AddressSpace} (hcurrent : current.pgdir ≠ vm.pgdir) :
    exists s' free', Vm.vmFree current vm m.phys = Except.ok s' ∧
      Freed m.phys free (fun f => exists x, (layout p).frame x = some f)
        (fun f => exists x, (layout p).frame x = some f) s' free' := by
  have hsound := h.sound p vm hp
  rcases pgdirFree_freed hsound with ⟨s', free', hrun, hfreed⟩
  have hpgdir := h.dir p vm hp
  have hasserted : Not (vm.pgdir = kernelAddr kpgdirFrame ∨ current.pgdir = vm.pgdir) := by
    intro hor
    rcases hor with hkernel | hsame
    · have hne := Sound.ne_kpgdir hsound.dir_inPool
      rw [hpgdir, kernelAddr_eq, kernelAddr_eq] at hkernel
      omega
    · exact hcurrent hsame
  refine ⟨s', free', ?_, hfreed⟩
  unfold Vm.vmFree
  rw [if_neg hasserted, hpgdir]
  exact hrun

/-- `vm_grow_userheap` of a request that is refused at once. -/
theorem grow_same {s : Phys} {vm : AddressSpace} {bytesCnt : Int}
    (hbrk : vm.brk ≠ 0 ∧ vm.brk < 0x100000000) (hbytes : bytesCnt < 0x80000000)
    (hno : Not (vm.brk ≠ 0 ∧ 0 ≤ bytesCnt ∧ vm.brk + bytesCnt.toNat < userHeapTop)) :
    vmGrowUserheap vm bytesCnt s = Except.ok ((0, vm), s) := by
  have htop : userHeapTop = 2147467264 := rfl
  unfold vmGrowUserheap
  dsimp only
  rw [if_neg hbrk.left]
  by_cases hneg : bytesCnt < 0
  · rw [if_pos hneg]
  · have hout : wrap (vm.brk + bytesCnt.toNat) < vm.brk ∨
        wrap (vm.brk + bytesCnt.toNat) ≥ userHeapTop := by
      rw [wrap_eq]
      omega
    rw [if_neg hneg, if_pos hout]

theorem grow (h : Partition m free layout) {bytesCnt : Int}
    (hvalid : (Call.grow p bytesCnt).Valid m) (hfound : (Call.grow p bytesCnt).FindsFrames m) :
    Serves m (Call.grow p bytesCnt) := by
  rcases hvalid with ⟨⟨vm, hp⟩, hbytes⟩
  have hsound := h.sound p vm hp
  have hbrk := h.brk p vm hp
  have hpgdir := h.dir p vm hp
  have hvm : vm = { pgdir := kernelAddr (layout p).dir, brk := vm.brk } := by
    rw [<- hpgdir]
  by_cases hok : vm.brk ≠ 0 ∧ 0 ≤ bytesCnt ∧ vm.brk + bytesCnt.toNat < userHeapTop
  · have haccepted : vmGrowUserheap { pgdir := kernelAddr (layout p).dir, brk := vm.brk } bytesCnt
        m.phys = _ := grow_accepted hbrk.right hbytes hok
    rw [<- hvm] at haccepted
    have htop := userHeapTop_lt hok.right.right
    have hmax : kernelBase < 0x100000000 := by decide
    have hrounds := rounds_le vm.brk bytesCnt.toNat
    by_cases henough : growNeed (rounds vm.brk (vm.brk + bytesCnt.toNat)) (vm.brk / 4096)
        (layout p).hasTable (layout p).hasPage ≤ free.length
    · rcases growFrom_enough hsound htop rfl hrounds henough with
        ⟨s1, free1, L1, hgrow, hserved⟩
      have hparted := h.grown (u := { vm with brk := vm.brk + bytesCnt.toNat }) hp
        hserved.grown.grows (hserved.grown.exhausted.trans h.fresh)
        ⟨fun e => hbrk.left (Nat.eq_zero_of_add_eq_zero_right e), Nat.lt_trans htop hmax⟩ rfl
      refine ⟨decide (vm.brk ≠ 0), _, free1, _, ?_, hparted⟩
      rw [Call.run_grow hp, haccepted, hgrow, ok_bind, if_pos rfl, ok_bind, hpgdir]
    · have hdry := growFrom_short hsound htop rfl hrounds (Nat.lt_of_not_le henough)
      unfold Call.FindsFrames at hfound
      rw [Call.run_grow hp, Call.memory_answer _
        (fun a : (Nat × AddressSpace) × Phys => decide (a.1.1 ≠ 0))
        (fun a => Function.update m.space p (some a.1.2)), haccepted] at hfound
      exact absurd (hdry.final_bind.symm.trans hfound) (by decide)
  · have hparted := h.grown (u := vm) hp (Extends.refl hsound).grows h.fresh hbrk rfl
    refine ⟨false, _, free, _, ?_, hparted⟩
    rw [Call.run_grow hp, grow_same hbrk hbytes hok]
    rfl

theorem release (h : Partition m free layout) {current : AddressSpace}
    (hvalid : (Call.free current p).Valid m) : Serves m (Call.free current p) := by
  rcases hvalid with ⟨vm, hp, hcurrent⟩
  rcases h.vmFree_freed hp hcurrent with ⟨s', free', hrun, hfreed⟩
  rcases h.own_frames hp with ⟨hkernel, hother⟩
  have hparted := h.change (p := p) (u := none) (L := layout p) hfreed.spares
    (hfreed.exhausted.trans h.fresh) hkernel hother (fun _ hno => nomatch hno)
    (fun _ hno => nomatch hno) (fun _ hno => nomatch hno) (fun _ hno => nomatch hno)
  refine ⟨true, _, free', _, ?_, hparted⟩
  rw [Call.run_free hp, hrun, ok_bind]

/-- Every call that finds its frames keeps the partition. -/
theorem call (h : Partition m free layout) {c : Call} (hvalid : c.Valid m)
    (hfound : c.FindsFrames m) : Serves m c := by
  cases c with
  | new refill p => exact h.new hfound
  | valloc p vaddr pgcnt => exact h.valloc hvalid hfound
  | copy refill p q => exact h.copy hvalid hfound
  | grow p bytesCnt => exact h.grow hvalid hfound
  | free current p => exact h.release hvalid

theorem start {s : Phys} (hpool : Pool s free) (hfresh : s.exhausted = false) :
    Partition ⟨s, fun _ => none⟩ free layout where
  pool := hpool
  fresh := hfresh
  brk _ _ hp := by cases hp
  dir _ _ hp := by cases hp
  sound _ _ hp := by cases hp
  apart _ _ _ _ _ hp := by cases hp

theorem reached {start : Machine} (h : Partition start free layout)
    (hreached : Reached start m) : exists free' layout', Partition m free' layout' := by
  induction hreached with
  | start => exact ⟨free, layout, h⟩
  | call before valid found run ih =>
      rcases ih with ⟨free1, layout1, h1⟩
      rcases h1.call valid found with ⟨done, m', free', layout', hrun, hparted⟩
      rw [run] at hrun
      cases hrun
      exact ⟨free', layout', hparted⟩

end Partition

/-!
# Frames apart
-/

/--
The free list and the frames of the address spaces hold every frame at most once, and the
kernel's part of every directory is that of the kernel's own.
-/
structure FramesApart (m : Machine) (free : List Nat) : Prop where
  chain : Pool m.phys free
  once : forall p vm x y f, m.space p = some vm ->
    (layoutOf m.phys vm.dir).frame x = some f -> (layoutOf m.phys vm.dir).frame y = some f -> x = y
  notFree : forall p f, m.Owns p f -> Not (f ∈ free)
  apart : forall p q f, p ≠ q -> m.Owns p f -> Not (m.Owns q f)
  kernel : forall p vm, m.space p = some vm -> SharesKernel m.phys vm.dir

/-- The frames of the address space at `p` are free now, and the others are as they were. -/
structure GivesBack (m : Machine) (free : List Nat) (p : Nat) (s' : Phys) (free' : List Nat) :
    Prop where
  chain : Pool s' free'
  exactly : forall f, f ∈ free' <-> f ∈ free ∨ m.Owns p f
  contents : forall q f, q ≠ p -> m.Owns q f -> s'.frame f = m.phys.frame f
  mapping : forall q vn, q ≠ p -> m.space q = some vn ->
    layoutOf s' vn.dir = layoutOf m.phys vn.dir

namespace Partition

variable {m : Machine} {free : List Nat} {layout : Nat -> Layout} {p : Nat}
  {vm : AddressSpace}

theorem framesApart (h : Partition m free layout) : FramesApart m free where
  chain := h.pool
  once p vm x y f hp hx hy := by
    rw [h.layoutOf hp] at hx hy
    exact (h.sound p vm hp).own x y f hx hy
  notFree p f hf := by
    rcases hf with ⟨vm, x, hp, hx⟩
    rw [h.layoutOf hp] at hx
    exact (h.sound p vm hp).used x f hx
  apart p q f hne hp hq := by
    rcases hp with ⟨vm, x, hp, hx⟩
    rcases hq with ⟨vn, y, hq, hy⟩
    rw [h.layoutOf hp] at hx
    rw [h.layoutOf hq] at hy
    exact h.apart p q vm vn hne hp hq x y f hx hy
  kernel p vm hp := by
    rw [h.vm_dir hp]
    exact (h.sound p vm hp).kernel

theorem givesBack (h : Partition m free layout) (hp : m.space p = some vm)
    {current : AddressSpace} (hcurrent : current.pgdir ≠ vm.pgdir) :
    exists s' free', vmFree current vm m.phys = Except.ok s' ∧ GivesBack m free p s' free' := by
  rcases h.vmFree_freed hp hcurrent with ⟨s', free', hrun, hfreed⟩
  rcases h.own_frames hp with ⟨hkernel, hother⟩
  refine ⟨s', free', hrun, ?_⟩
  constructor
  · exact hfreed.pool
  · intro f
    rw [h.owns_iff hp]
    exact hfreed.mem f
  · intro q f hq hf
    rcases hf with ⟨vn, x, hvn, hx⟩
    rw [h.layoutOf hvn] at hx
    exact hfreed.same f (hother q vn hq hvn x f hx)
  · intro q vn hq hvn
    have hsound := hfreed.spares.sound (h.sound q vn hvn) (hother q vn hq hvn) hkernel
    rw [h.layoutOf hvn, h.vm_dir hvn]
    exact hsound.layout

end Partition

/--
Over every run of calls that find their frames: no frame is owned twice or both owned and
free, every call ends well, and `vm_free` gives back exactly the frames of its address space.
-/
theorem frames_stay_apart (s : Phys) (free : List Nat) (m : Machine) (hpool : Pool s free)
    (hfresh : s.exhausted = false) (hreached : Reached ⟨s, fun _ => none⟩ m) :
    exists free', FramesApart m free' ∧
      (forall c : Call, c.Valid m -> c.FindsFrames m ->
        exists done m', c.run m = Except.ok (done, m')) ∧
      forall p vm current, m.space p = some vm -> current.pgdir ≠ vm.pgdir ->
        exists s' free'', vmFree current vm m.phys = Except.ok s' ∧
          GivesBack m free' p s' free'' := by
  have hstart : Partition ⟨s, fun _ => none⟩ free
      (fun _ => ⟨0, fun _ => none, fun _ => none⟩) :=
    Partition.start hpool hfresh
  rcases hstart.reached hreached with ⟨free', layout', h⟩
  refine ⟨free', h.framesApart, ?_, fun p vm current hp hcurrent => h.givesBack hp hcurrent⟩
  intro c hvalid hfound
  rcases h.call hvalid hfound with ⟨done, m', -, -, hrun, -⟩
  exact ⟨done, m', hrun⟩

def Machine.after (m : Machine) (c : Call) : Machine :=
  match c.run m with
  | Except.ok a => a.2
  | Except.error _ => m

theorem Reached.after {start m : Machine} {c : Call} (before : Reached start m)
    (valid : c.Valid m) (found : c.FindsFrames m) (hok : (c.run m).isOk = true) :
    Reached start (m.after c) := by
  cases hrun : c.run m with
  | ok a =>
      have hafter : m.after c = a.2 := by
        unfold Machine.after
        rw [hrun]
      rw [hafter]
      exact Reached.call before valid found (hrun : c.run m = Except.ok (a.1, a.2))
  | error e =>
      rw [hrun] at hok
      cases hok

def nineFrames : Machine := ⟨freeFrames (List.range' 1024 9), fun _ => none⟩

def oneSpace : Machine := (nineFrames.after (Call.new false 0)).after (Call.valloc 0 userBase 1)

def twoSpaces : Machine := (oneSpace.after (Call.new false 1)).after (Call.valloc 1 userBase 1)

theorem nineFrames_pool : Pool nineFrames.phys (List.range' 1024 9) :=
  freeFrames_pool (by decide) (by decide)

/-- The first page of an address space without pages may be asked for. -/
theorem firstPage_valid {m : Machine} {p : Nat} (vm : AddressSpace) (hp : m.space p = some vm)
    (hpage : (layoutOf m.phys vm.dir).page (userBase / 4096) = none) :
    (Call.valloc p userBase 1).Valid m := by
  refine ⟨by decide, by decide, vm, hp, ?_⟩
  intro v hlow hhigh
  rw [show v = userBase / 4096 by lia]
  exact hpage

theorem twoSpaces_reached : Reached nineFrames twoSpaces := by
  have hnone : Reached nineFrames nineFrames := Reached.start
  have hfirst := hnone.after (c := Call.new false 0) rfl (by decide +kernel) (by decide +kernel)
  have hpage : (Call.valloc 0 userBase 1).Valid (nineFrames.after (Call.new false 0)) :=
    firstPage_valid ⟨kernelAddr 1024, userHeapBase⟩ (by decide +kernel)
      (by decide +kernel)
  have hone : Reached nineFrames oneSpace :=
    hfirst.after hpage (by decide +kernel) (by decide +kernel)
  have hnew : (Call.new false 1).Valid oneSpace := by
    show oneSpace.space 1 = none
    decide +kernel
  have hsecond := hone.after hnew (by decide +kernel) (by decide +kernel)
  have hpage' : (Call.valloc 1 userBase 1).Valid (oneSpace.after (Call.new false 1)) :=
    firstPage_valid ⟨kernelAddr 1027, userHeapBase⟩ (by decide +kernel)
      (by decide +kernel)
  exact hsecond.after hpage' (by decide +kernel) (by decide +kernel)

/-- A copy of the first address space, and the end of the second one. -/
theorem frames_stay_apart_twoSpaces :
    exists m1 m current, (Call.copy false 0 2).run twoSpaces = Except.ok (true, m1) ∧
      (Call.free current 1).run m1 = Except.ok (true, m) ∧ m.space 1 = none ∧
      (m.space 0).isSome = true ∧ (m.space 2).isSome = true ∧
      exists free', FramesApart m free' ∧
        (forall c : Call, c.Valid m -> c.FindsFrames m ->
          exists done m', c.run m = Except.ok (done, m')) ∧
        forall p vm current, m.space p = some vm -> current.pgdir ≠ vm.pgdir ->
          exists s' free'', vmFree current vm m.phys = Except.ok s' ∧
            GivesBack m free' p s' free'' := by
  let first : AddressSpace := ⟨kernelAddr 1024, userHeapBase⟩
  let second : AddressSpace := ⟨kernelAddr 1027, userHeapBase⟩
  have hp : twoSpaces.space 0 = some first := by decide +kernel
  have hq : twoSpaces.space 1 = some second := by decide +kernel
  have hempty : twoSpaces.space 2 = none := by decide +kernel
  have hfree : Pool twoSpaces.phys [1030, 1031, 1032] := ⟨by decide +kernel, by decide, by decide⟩
  have hstart : Partition nineFrames (List.range' 1024 9) (fun _ => bareLayout) :=
    Partition.start nineFrames_pool (by decide +kernel)
  rcases hstart.reached twoSpaces_reached with ⟨free, layout, h⟩
  have hneed : copyNeed (layout 0).hasTable (layout 0).hasPage ≤ free.length := by
    rw [<- h.layoutOf hp, h.pool.unique hfree]
    decide +kernel
  have hkalloc : kallocVm false twoSpaces.phys = Except.ok (true, twoSpaces.phys) := rfl
  rcases h.copy_enough (q := 2) hp hkalloc (Spares.refl h.pool _) rfl hneed with
    ⟨m1, free1, layout1, hcopy, h1, vn, hspace⟩
  have hcopied : Reached nineFrames m1 := by
    refine Reached.call (c := Call.copy false 0 2) twoSpaces_reached ⟨⟨first, hp⟩, hempty⟩ ?_ hcopy
    show (Call.memory ((Call.copy false 0 2).run twoSpaces)).exhausted = false
    rw [hcopy]
    exact h1.fresh
  have hq1 : m1.space 1 = some second := by
    rw [hspace]
    exact hq
  have hcurrent : first.pgdir ≠ second.pgdir := by decide
  rcases h1.vmFree_freed hq1 hcurrent with ⟨s', free', hfreed, -⟩
  have hrun : (Call.free first 1).run m1 =
      Except.ok (true, ⟨s', Function.update m1.space 1 none⟩) := by
    rw [Call.run_free hq1, hfreed, ok_bind]
  rcases h1.release ⟨second, hq1, hcurrent⟩ with ⟨done, m', free2, layout2, hserved, h2⟩
  rw [hrun] at hserved
  cases hserved
  have hreached : Reached nineFrames ⟨s', Function.update m1.space 1 none⟩ := by
    refine Reached.call (c := Call.free first 1) hcopied ⟨second, hq1, hcurrent⟩ ?_ hrun
    show (Call.memory ((Call.free first 1).run m1)).exhausted = false
    rw [hrun]
    exact h2.fresh
  refine ⟨m1, _, first, hcopy, hrun, rfl, ?_, ?_, frames_stay_apart nineFrames.phys
    (List.range' 1024 9) _ nineFrames_pool (by decide +kernel) hreached⟩
  · show (m1.space 0).isSome = true
    rw [hspace]
    show (twoSpaces.space 0).isSome = true
    rw [hp]
    rfl
  · show (m1.space 2).isSome = true
    rw [hspace]
    rfl

end Vm
end Kernel
end NicoOS
