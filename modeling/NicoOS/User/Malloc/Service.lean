import NicoOS.User.Malloc.Runs

/-!
# What the allocator promises

For every run of a program that keeps to the rules: its blocks are its own, no byte of the heap
is lost, free neighbours are one block, and a request stops only where the kernel has no memory.
-/

namespace NicoOS
namespace User
namespace Malloc

open Lib
open Kernel.Vm (pgSize userHeapBase userHeapTop)

/-- A process behind `proc_execv`, with `base` in its program. -/
structure Fresh (base : Nat) (p : Process) : Prop where
  freep : p.freep = 0
  below : 0 < base ∧ base + headerSize ≤ userHeapBase
  top : userHeapBase ≤ p.brk ∧ p.brk < userHeapTop
  low : p.mapped 0 = false

def start (p : Process) : State where
  proc := p
  held := []
  view := p.mem
  got := []

/-- One page of program at the bottom of the user space, with `base` at its start. -/
def smallProcess : Process where
  mem := fun _ => 0
  mapped v := decide (v = 0x4048)
  brk := userHeapBase
  freep := 0

theorem smallProcess_fresh : Fresh 0x4048000 smallProcess :=
  ⟨rfl, by decide, by decide, by decide⟩

def properTest (s : State) : Action -> Bool
  | Action.malloc nbytes => decide (nbytes + 2 * headerSize ≤ addrEnd)
  | Action.free ptr => s.held.any (fun l => decide (l.ptr = ptr))
  | Action.write a _ => s.held.any (fun l => decide (l.ptr ≤ a ∧ a < l.ptr + l.nbytes))
  | Action.sbrk _ => true

theorem proper_of_test (s : State) (a : Action) (h : properTest s a = true) : Proper s a := by
  cases a with
  | malloc nbytes =>
      have hle := of_decide_eq_true h
      exact hle
  | free ptr =>
      rcases List.any_eq_true.mp h with ⟨l, hl, htest⟩
      exact ⟨l, hl, of_decide_eq_true htest⟩
  | write a v =>
      rcases List.any_eq_true.mp h with ⟨l, hl, htest⟩
      have hin := of_decide_eq_true htest
      exact ⟨l, hl, hin⟩
  | sbrk n => trivial

/-- Two blocks of the first 32 KiB; the second is given back behind a page of the program. -/
def smallRun : List Action :=
  [Action.malloc 100, Action.malloc 24, Action.write 0x804fff0 7, Action.sbrk 4096,
    Action.free 0x804ff78]

theorem smallRun_reaches :
    exists s, runFrom (step 0x4048000) (start smallProcess) smallRun = some s ∧
      Reaches (step 0x4048000) Proper (start smallProcess) s :=
  reaches_of_runCheck proper_of_test
    (show runCheck (step 0x4048000) properTest (start smallProcess) smallRun = true by
      decide +kernel)
    (show (runFrom (step 0x4048000) (start smallProcess) smallRun).isSome = true by
      decide +kernel)

section Runs

variable {base : Nat} {p : Process} {s : State} {fs us : List Extent}

theorem sane_start (h : Fresh base p) : Sane base (start p) [] [] where
  ready := Ready.fresh h.freep h.below h.top
  low := h.low
  held := List.Forall₂.nil
  view := fun l hl => (List.not_mem_nil hl).elim
  got := by
    intro a
    constructor
    · intro hor
      rcases hor with hnone | hnone
      · exact absurd hnone covered_nil
      · exact absurd hnone covered_nil
    · exact fun hnone => absurd hnone covered_nil
  below := fun b hb => (List.not_mem_nil hb).elim

theorem sane_reaches (h : Fresh base p) (hreach : Reaches (step base) Proper (start p) s) :
    exists fs us, Sane base s fs us :=
  hreach.invariant (P := fun s => exists fs us, Sane base s fs us) ⟨[], [], sane_start h⟩
    (fun _ _ _ ⟨_, _, hs⟩ hok hstep => hs.step hok hstep)

/--
Blocks that the program holds lie in the heap, have no byte in common, and hold what it wrote.
-/
theorem malloc_blocks_safe (h : Fresh base p) (hreach : Reaches (step base) Proper (start p) s) :
    s.held.Pairwise (fun l m => forall a, l.Has a -> Not (m.Has a)) ∧
      forall l, l ∈ s.held -> forall a, l.Has a ->
        userHeapBase ≤ a ∧ a < s.proc.brk ∧ s.proc.mem a = s.view a := by
  rcases sane_reaches h hreach with ⟨fs, us, hs⟩
  refine ⟨holds_apart hs.held hs.ready.apart, ?_⟩
  intro l hl a ha
  rcases hs.block hl with ⟨u, hu, hholds⟩
  have hin := (hs.ready.heap_of_mem hu).inside u (List.mem_append_right fs hu)
  have hplace := hin.covers (hholds.covers ha)
  exact ⟨hplace.left, hplace.right, hs.view l hl a ha⟩

theorem malloc_blocks_safe_smallRun :
    exists s, runFrom (step 0x4048000) (start smallProcess) smallRun = some s ∧
      s.held.Pairwise (fun l m => forall a, l.Has a -> Not (m.Has a)) ∧
        forall l, l ∈ s.held -> forall a, l.Has a ->
          userHeapBase ≤ a ∧ a < s.proc.brk ∧ s.proc.mem a = s.view a := by
  rcases smallRun_reaches with ⟨s, hrun, hreach⟩
  exact ⟨s, hrun, malloc_blocks_safe smallProcess_fresh hreach⟩

/--
The ring in memory is a list of blocks by address without neighbours, and every byte that
`morecore` has got is in one of them or in a block of the program.
-/
theorem malloc_heap_partitioned (h : Fresh base p)
    (hreach : Reaches (step base) Proper (start p) s) :
    exists fs us, Ready base s.proc fs us ∧ List.Forall₂ Holds us s.held ∧
      forall a, Covered fs a ∨ Covered us a <-> Covered s.got a := by
  rcases sane_reaches h hreach with ⟨fs, us, hs⟩
  exact ⟨fs, us, hs.ready, hs.held, hs.got⟩

theorem malloc_heap_partitioned_smallRun :
    exists s, runFrom (step 0x4048000) (start smallProcess) smallRun = some s ∧
      exists fs us, Ready 0x4048000 s.proc fs us ∧ List.Forall₂ Holds us s.held ∧
        forall a, Covered fs a ∨ Covered us a <-> Covered s.got a := by
  rcases smallRun_reaches with ⟨s, hrun, hreach⟩
  exact ⟨s, hrun, malloc_heap_partitioned smallProcess_fresh hreach⟩

end Runs

/-!
# Programs that leave the heap to the allocator
-/

def Leaves (s : State) : Action -> Prop
  | Action.sbrk _ => False
  | a => Proper s a

theorem Leaves.proper {s : State} {a : Action} (h : Leaves s a) : Proper s a := by
  cases a with
  | sbrk n => exact h.elim
  | _ => exact h

def leavesTest (s : State) : Action -> Bool
  | Action.sbrk _ => false
  | a => properTest s a

theorem leaves_of_test (s : State) (a : Action) (h : leavesTest s a = true) : Leaves s a := by
  cases a with
  | malloc nbytes => exact proper_of_test s (Action.malloc nbytes) h
  | free ptr => exact proper_of_test s (Action.free ptr) h
  | write a v => exact proper_of_test s (Action.write a v) h
  | sbrk n => cases h

/-- Two blocks, of which the second is given back. -/
def quietRun : List Action :=
  [Action.malloc 100, Action.malloc 24, Action.write 0x804fff0 7, Action.free 0x804ff78]

def Whole (s : State) : Prop :=
  forall a, Covered s.got a <-> userHeapBase ≤ a ∧ a < s.proc.brk

section Whole

variable {base : Nat} {p : Process} {s s' : State} {fs us : List Extent}

theorem Whole.step (h : Whole s) (hs : Sane base s fs us) {act : Action} (hok : Leaves s act)
    (hstep : step base s act = some s') : Whole s' := by
  have hbrk := hs.ready.brk_ge
  cases act with
  | malloc nbytes =>
      have hmeets : Meets _ _ (malloc base nbytes s.proc) :=
        malloc_meets hs.ready hs.low hok
      unfold Malloc.step at hstep
      dsimp only at hstep
      cases hrun : malloc base nbytes s.proc with
      | error e =>
          rw [hrun] at hstep
          cases hstep
      | ok r =>
          rw [hrun] at hstep
          rw [← Option.some.inj hstep]
          rcases hmeets.of_ok hrun with ⟨b, fs', hr⟩
          have hgrows := (hr.grows hbrk.left).left
          intro a
          show Covered (gotBy s.proc.brk r.2.brk s.got) a <-> userHeapBase ≤ a ∧ a < r.2.brk
          rw [covered_gotBy hgrows, h a]
          lia
  | free ptr =>
      rcases hok with ⟨l, hl, hptr⟩
      rcases hs.block hl with ⟨u, hu, hholds⟩
      rcases (hs.ready.heap_of_mem hu).without hu with ⟨hheap, hspare⟩
      have hmeets := free_meets hheap hspare
      unfold Malloc.step at hstep
      dsimp only at hstep
      rw [← hptr, hholds.ptr] at hstep
      cases hrun : free (u.addr + headerSize) s.proc with
      | error e =>
          rw [hrun] at hstep
          cases hstep
      | ok q =>
          rw [hrun] at hstep
          rw [← Option.some.inj hstep]
          have hspace := (hmeets.of_ok hrun).right.left
          intro a
          show Covered s.got a <-> userHeapBase ≤ a ∧ a < q.brk
          rw [hspace.brk]
          exact h a
  | write a v =>
      unfold Malloc.step at hstep
      dsimp only at hstep
      split at hstep
      · rw [← Option.some.inj hstep]
        exact h
      · cases hstep
  | sbrk n => exact hok.elim

theorem whole_reaches (h : Fresh base p) (hbrk : p.brk = userHeapBase)
    (hreach : Reaches (step base) Leaves (start p) s) :
    Whole s ∧ exists fs us, Sane base s fs us := by
  apply hreach.invariant (P := fun s => Whole s ∧ exists fs us, Sane base s fs us)
  · refine ⟨?_, [], [], sane_start h⟩
    intro a
    constructor
    · exact fun hnone => absurd hnone covered_nil
    · intro hin
      have hle : a < p.brk := hin.right
      lia
  · intro r t a hall hok hstep
    rcases hall with ⟨hwhole, fs, us, hs⟩
    exact ⟨hwhole.step hs hok hstep, hs.step hok.proper hstep⟩

/--
Where a program that never calls `sbrk` has given back all its blocks, the ring is one block:
the whole heap.
-/
theorem malloc_heap_restored (h : Fresh base p) (hbrk : p.brk = userHeapBase)
    (hreach : Reaches (step base) Leaves (start p) s) (hheld : s.held = [])
    (hgrown : userHeapBase < s.proc.brk) :
    s.proc.mem.word base = userHeapBase ∧ s.proc.mem.word userHeapBase = base ∧
      headerSize * s.proc.mem.word (userHeapBase + 4) = s.proc.brk - userHeapBase := by
  rcases whole_reaches h hbrk hreach with ⟨hwhole, fs, us, hs⟩
  have hnone : us = [] := by
    have hforall := hs.held
    rw [hheld] at hforall
    cases hforall
    rfl
  rw [hnone] at hs
  have hall : forall a, Covered fs a <-> userHeapBase ≤ a ∧ a < s.proc.brk := by
    intro a
    rw [← hwhole a, ← hs.got a]
    constructor
    · exact Or.inl
    · intro hor
      rcases hor with hfree | hused
      · exact hfree
      · exact absurd hused covered_nil
  cases hready : hs.ready with
  | fresh =>
      exact absurd ((hall userHeapBase).mpr ⟨Nat.le_refl _, hgrown⟩) covered_nil
  | ring hheap =>
      have hsingle := hheap.packed.eq_singleton hgrown hall
      have hring := hheap.ring
      rw [hsingle] at hring
      rcases linked_cons.mp hring with ⟨hfirst, hsized, hlast⟩
      exact ⟨hfirst, linked_nil.mp hlast, hsized⟩

theorem malloc_heap_restored_quietRun :
    exists s, runFrom (step 0x4048000) (start smallProcess)
        (quietRun ++ [Action.free 0x804ff98]) = some s ∧
      s.proc.mem.word 0x4048000 = userHeapBase ∧ s.proc.mem.word userHeapBase = 0x4048000 ∧
        headerSize * s.proc.mem.word (userHeapBase + 4) = s.proc.brk - userHeapBase := by
  rcases reaches_of_runCheck leaves_of_test
    (show runCheck (step 0x4048000) leavesTest (start smallProcess)
      (quietRun ++ [Action.free 0x804ff98]) = true by decide +kernel)
    (show (runFrom (step 0x4048000) (start smallProcess)
      (quietRun ++ [Action.free 0x804ff98])).isSome = true by decide +kernel)
    with ⟨s, hrun, hreach⟩
  have hend : (runFrom (step 0x4048000) (start smallProcess)
      (quietRun ++ [Action.free 0x804ff98])).map
        (fun s => decide (s.held.length = 0 ∧ userHeapBase < s.proc.brk)) = some true := by
    decide +kernel
  rw [hrun] at hend
  have hboth := of_decide_eq_true (Option.some.inj hend)
  exact ⟨s, hrun, malloc_heap_restored smallProcess_fresh rfl hreach
    (List.length_eq_zero_iff.mp hboth.left) hboth.right⟩

end Whole

/-!
# Growth by whole pages
-/

/-- Every byte of the heap and of `base` is in a page, and the break is at the start of one. -/
structure Backed (base : Nat) (p : Process) : Prop where
  base : p.mapped (base / pgSize) = true ∧ p.mapped ((base + 7) / pgSize) = true
  heap : forall a, userHeapBase ≤ a -> a < p.brk -> p.mapped (a / pgSize) = true

/--
A call that leaves the heap to the allocator.  Where it asks for more than 32760 bytes it asks
for whole pages with the header.
-/
def Modest (s : State) : Action -> Prop
  | Action.malloc nbytes =>
      Leaves s (Action.malloc nbytes) ∧ growth (unitsOf nbytes) % pgSize = 0
  | a => Leaves s a

def modestTest (s : State) : Action -> Bool
  | Action.malloc nbytes =>
      leavesTest s (Action.malloc nbytes) && decide (growth (unitsOf nbytes) % pgSize = 0)
  | a => leavesTest s a

theorem modest_of_test (s : State) (a : Action) (h : modestTest s a = true) : Modest s a := by
  cases a with
  | malloc nbytes =>
      rcases Bool.and_eq_true_iff.mp h with ⟨hleaves, hpages⟩
      exact ⟨leaves_of_test s (Action.malloc nbytes) hleaves, of_decide_eq_true hpages⟩
  | free ptr => exact leaves_of_test s (Action.free ptr) h
  | write a v => exact leaves_of_test s (Action.write a v) h
  | sbrk n => exact leaves_of_test s (Action.sbrk n) h

theorem smallProcess_backed : Backed 0x4048000 smallProcess where
  base := by decide
  heap a hlo hhi := absurd hhi (Nat.not_lt_of_le hlo)

section Backed

variable {base n nbytes : Nat} {p q : Process} {s s' : State} {fs us : List Extent} {e : Stop}

theorem Modest.leaves {a : Action} (h : Modest s a) : Leaves s a := by
  cases a with
  | malloc nbytes => exact h.left
  | _ => exact h

theorem Backed.same (h : Backed base p) (hspace : SameSpace p q) : Backed base q where
  base := by
    rw [hspace.mapped]
    exact h.base
  heap := by
    rw [hspace.mapped, hspace.brk]
    exact h.heap

theorem Backed.grown (h : Backed base p) (haligned : p.brk % pgSize = 0) (hgrown : Grown n p q) :
    Backed base q := by
  have hpg : pgSize = 4096 := rfl
  have hkeeps : forall v, p.mapped v = true -> q.mapped v = true := by
    intro v hv
    rw [hgrown.mapped, growPages_iff]
    exact Or.inl hv
  constructor
  · exact ⟨hkeeps _ h.base.left, hkeeps _ h.base.right⟩
  · intro a hlo hhi
    rw [hgrown.brk] at hhi
    cases Nat.lt_or_ge a p.brk with
    | inl hlt => exact hkeeps _ (h.heap a hlo hlt)
    | inr hge =>
        rw [hgrown.mapped, growPages_iff]
        exact Or.inr (by lia)

theorem Backed.no_hole (h : Backed base p) : Not (Hole base p e) := by
  have hpg : pgSize = 4096 := rfl
  have hsize : headerSize = 8 := rfl
  intro hex
  rcases hex with ⟨a, -, hreach, hin⟩
  have hpages : p.mapped (a / pgSize) = true ∧ p.mapped ((a + 3) / pgSize) = true := by
    rcases hin with ⟨hlo, hhi⟩ | ⟨hlo, hhi⟩
    · have hpage : forall b, base ≤ b -> b ≤ base + 7 -> p.mapped (b / pgSize) = true := by
        intro b hb1 hb2
        have hor : b / pgSize = base / pgSize ∨ b / pgSize = (base + 7) / pgSize := by lia
        rcases hor with heq | heq
        · rw [heq]
          exact h.base.left
        · rw [heq]
          exact h.base.right
      exact ⟨hpage a hlo (by lia), hpage (a + 3) (by lia) (by lia)⟩
    · exact ⟨h.heap a hlo (by lia), h.heap (a + 3) (by lia) (by lia)⟩
  unfold Process.reachable at hreach
  rw [hpages.left, hpages.right] at hreach
  cases hreach

theorem Allocated.backed {r : Nat × Process} {b : Extent} {fs' : List Extent}
    (h : Allocated base (unitsOf nbytes) p fs us r b fs')
    (hbacked : Backed base p ∧ p.brk % pgSize = 0)
    (hpages : growth (unitsOf nbytes) % pgSize = 0) :
    Backed base r.2 ∧ r.2.brk % pgSize = 0 := by
  rcases h.space with ⟨hsame, -⟩ | ⟨-, s1, hgrown, hsame⟩
  · rw [hsame.brk]
    exact ⟨hbacked.left.same hsame, hbacked.right⟩
  · rw [hsame.brk, hgrown.brk]
    have hpg : pgSize = 4096 := rfl
    exact ⟨(hbacked.left.grown hbacked.right hgrown).same hsame, by lia⟩

theorem Backed.step (h : Backed base s.proc ∧ s.proc.brk % pgSize = 0) (hs : Sane base s fs us)
    {act : Action} (hok : Modest s act) (hstep : step base s act = some s') :
    Backed base s'.proc ∧ s'.proc.brk % pgSize = 0 := by
  cases act with
  | malloc nbytes =>
      have hmeets : Meets _ _ (malloc base nbytes s.proc) :=
        malloc_meets hs.ready hs.low hok.leaves.proper
      unfold Malloc.step at hstep
      dsimp only at hstep
      cases hrun : malloc base nbytes s.proc with
      | error e =>
          rw [hrun] at hstep
          cases hstep
      | ok r =>
          rw [hrun] at hstep
          rw [← Option.some.inj hstep]
          rcases hmeets.of_ok hrun with ⟨b, fs', hr⟩
          exact hr.backed h hok.right
  | free ptr =>
      rcases hok with ⟨l, hl, hptr⟩
      rcases hs.block hl with ⟨u, hu, hholds⟩
      rcases (hs.ready.heap_of_mem hu).without hu with ⟨hheap, hspare⟩
      have hmeets := free_meets hheap hspare
      unfold Malloc.step at hstep
      dsimp only at hstep
      rw [← hptr, hholds.ptr] at hstep
      cases hrun : free (u.addr + headerSize) s.proc with
      | error e =>
          rw [hrun] at hstep
          cases hstep
      | ok q =>
          rw [hrun] at hstep
          rw [← Option.some.inj hstep]
          have hspace := (hmeets.of_ok hrun).right.left
          refine ⟨h.left.same hspace, ?_⟩
          show q.brk % pgSize = 0
          rw [hspace.brk]
          exact h.right
  | write a v =>
      unfold Malloc.step at hstep
      dsimp only at hstep
      split at hstep
      · rw [← Option.some.inj hstep]
        exact ⟨⟨h.left.base, h.left.heap⟩, h.right⟩
      · cases hstep
  | sbrk n => exact hok.elim

theorem backed_reaches (h : Fresh base p) (hbacked : Backed base p) (haligned : p.brk % pgSize = 0)
    (hreach : Reaches (step base) Modest (start p) s) :
    (Backed base s.proc ∧ s.proc.brk % pgSize = 0) ∧ exists fs us, Sane base s fs us := by
  apply hreach.invariant (P := fun s =>
    (Backed base s.proc ∧ s.proc.brk % pgSize = 0) ∧ exists fs us, Sane base s fs us)
  · exact ⟨⟨hbacked, haligned⟩, [], [], sane_start h⟩
  · intro r t a hall hok hstep
    rcases hall with ⟨hb, fs, us, hs⟩
    exact ⟨Backed.step hb hs hok hstep, hs.step hok.leaves.proper hstep⟩

/-- A free block is large enough, or there is room for the growth. -/
def CanServe (s : State) (fs : List Extent) (nbytes : Nat) : Prop :=
  (exists z, z ∈ fs ∧ headerSize * unitsOf nbytes ≤ z.len) ∨
    Grants (growth (unitsOf nbytes)) s.proc

/-- A request is met where it can be, or it stops with a page fault at address 4. -/
def Serves (base : Nat) (s : State) (fs : List Extent) (nbytes : Nat) : Prop :=
  (CanServe s fs nbytes ->
      exists r, malloc base nbytes s.proc = Except.ok r ∧ r.1 ≠ 0) ∧
    (Not (CanServe s fs nbytes) -> malloc base nbytes s.proc = Except.error (Stop.pageFault 4))

theorem Sane.serves (hs : Sane base s fs us) (h : Backed base s.proc)
    (haligned : s.proc.brk % pgSize = 0) (hle : nbytes + 2 * headerSize ≤ addrEnd) :
    Serves base s fs nbytes := by
  have hmeets : Meets _ _ (malloc base nbytes s.proc) := malloc_meets hs.ready hs.low hle
  have hfails : forall e, Fails base (unitsOf nbytes) s.proc fs e ->
      (forall z, z ∈ fs -> z.len < headerSize * unitsOf nbytes) ∧
        Not (Grants (growth (unitsOf nbytes)) s.proc) ∧ e = Stop.pageFault 4 := by
    intro e hor
    rcases hor with hhole | ⟨s1, hgrown, hhole⟩ | hno
    · exact absurd hhole h.no_hole
    · exact absurd hhole (h.grown haligned hgrown).no_hole
    · exact hno
  cases hrun : malloc base nbytes s.proc with
  | ok r =>
      rcases hmeets.of_ok hrun with ⟨b, fs', hr⟩
      refine ⟨fun _ => ⟨r, hrun, ?_⟩, ?_⟩
      · rw [hr.answer]
        exact Nat.succ_ne_zero _
      · intro hno
        rcases hr.space with ⟨-, hfit⟩ | ⟨-, s1, hgrown, -⟩
        · exact absurd (Or.inl hfit) hno
        · exact absurd (Or.inr hgrown.toGrants) hno
  | error e =>
      rcases hfails e (hmeets.of_error hrun) with ⟨hsmall, hno, heq⟩
      refine ⟨?_, fun _ => hrun.trans (congrArg Except.error heq)⟩
      intro hor
      rcases hor with ⟨z, hz, hfit⟩ | hgrants
      · exact absurd hfit (Nat.not_le_of_lt (hsmall z hz))
      · exact absurd hgrants hno

/--
Where the heap is left to the allocator and grows by whole pages, a request stops exactly where
no free block is large enough and the kernel refuses to grow the heap, and then by a page fault,
never with the answer 0; `free` of a block that is held does not stop.
-/
theorem malloc_stops_iff_refused (h : Fresh base p) (hbacked : Backed base p)
    (haligned : p.brk % pgSize = 0) (hreach : Reaches (step base) Modest (start p) s) :
    exists fs us, Ready base s.proc fs us ∧
      (forall nbytes, nbytes + 2 * headerSize ≤ addrEnd -> Serves base s fs nbytes) ∧
        forall l, l ∈ s.held -> exists q, free l.ptr s.proc = Except.ok q := by
  rcases backed_reaches h hbacked haligned hreach with ⟨⟨hb, hpages⟩, fs, us, hs⟩
  refine ⟨fs, us, hs.ready, fun nbytes hle => hs.serves hb hpages hle, ?_⟩
  intro l hl
  rcases hs.block hl with ⟨u, hu, hholds⟩
  rcases (hs.ready.heap_of_mem hu).without hu with ⟨hheap, hspare⟩
  rcases (free_meets hheap hspare).ok (fun e he => hb.no_hole he) with ⟨q, hq, -⟩
  rw [hholds.ptr]
  exact ⟨q, hq⟩

theorem malloc_stops_iff_refused_quietRun :
    exists s, runFrom (step 0x4048000) (start smallProcess) quietRun = some s ∧
      exists fs us, Ready 0x4048000 s.proc fs us ∧
        (forall nbytes, nbytes + 2 * headerSize ≤ addrEnd -> Serves 0x4048000 s fs nbytes) ∧
          forall l, l ∈ s.held -> exists q, free l.ptr s.proc = Except.ok q := by
  rcases reaches_of_runCheck modest_of_test
    (show runCheck (step 0x4048000) modestTest (start smallProcess) quietRun = true by
      decide +kernel)
    (show (runFrom (step 0x4048000) (start smallProcess) quietRun).isSome = true by
      decide +kernel) with ⟨s, hrun, hreach⟩
  exact ⟨s, hrun, malloc_stops_iff_refused smallProcess_fresh smallProcess_backed rfl hreach⟩

end Backed

end Malloc
end User
end NicoOS
