import NicoOS.Lib.Transition
import NicoOS.User.Malloc.Request

/-!
# Runs of requests

A program asks for blocks, gives them back, writes into them, and may grow the heap itself.  The
blocks it holds stay apart and keep what it wrote, and what is free is one list without
neighbours.
-/

namespace NicoOS
namespace User
namespace Malloc

open Lib
open Kernel.Vm (pgSize userHeapBase userHeapTop)

/-- A block that the program holds: the answer of `malloc`, and the bytes it asked for. -/
structure Held where
  ptr : Nat
  nbytes : Nat

def Held.Has (l : Held) (a : Nat) : Prop := l.ptr ≤ a ∧ a < l.ptr + l.nbytes

/--
A process between two calls, with the blocks it holds.  `view` is what it last saw in them, and
`got` what `morecore` has got from the kernel; no code reads the two.
-/
structure State where
  proc : Process
  held : List Held
  view : Memory
  got : List Extent

inductive Action where
  | malloc (nbytes : Nat)
  | free (ptr : Nat)
  | write (a : Nat) (v : UInt8)
  | sbrk (n : Nat)

/-- The blocks of `morecore`, if the break has moved. -/
def gotBy (brk brk' : Nat) (got : List Extent) : List Extent :=
  if brk' = brk then got else { addr := brk, len := brk' - brk } :: got

def State.given (s : State) (nbytes : Nat) (r : Nat × Process) : State where
  proc := r.2
  held := if r.1 = 0 then s.held else { ptr := r.1, nbytes := nbytes } :: s.held
  view a := if r.1 ≠ 0 ∧ r.1 ≤ a ∧ a < r.1 + nbytes then r.2.mem a else s.view a
  got := gotBy s.proc.brk r.2.brk s.got

def step (base : Nat) (s : State) : Action -> Option State
  | Action.malloc nbytes =>
      match malloc base nbytes s.proc with
      | Except.ok r => some (s.given nbytes r)
      | Except.error _ => none
  | Action.free ptr =>
      match free ptr s.proc with
      | Except.ok proc =>
          some { s with proc := proc, held := s.held.filter (fun l => decide (l.ptr ≠ ptr)) }
      | Except.error _ => none
  | Action.write a v =>
      if s.proc.mapped (a / pgSize) then
        some { s with
          proc := { s.proc with mem := s.proc.mem.setByte a v }
          view := s.view.setByte a v }
      else
        none
  | Action.sbrk n => some { s with proc := (sbrk n s.proc).2 }

/-- What a program must keep to: requests of less than 4 GiB, and blocks that it holds. -/
def Proper (s : State) : Action -> Prop
  | Action.malloc nbytes => nbytes + 2 * headerSize ≤ addrEnd
  | Action.free ptr => exists l, l ∈ s.held ∧ l.ptr = ptr
  | Action.write a _ => exists l, l ∈ s.held ∧ l.Has a
  | Action.sbrk _ => True

/-- A block of the allocator is the one that the program holds. -/
structure Holds (u : Extent) (l : Held) : Prop where
  ptr : l.ptr = u.addr + headerSize
  room : l.nbytes + headerSize ≤ u.len

/-- The invariant of a run, for the free blocks and those of the program. -/
structure Sane (base : Nat) (s : State) (fs us : List Extent) : Prop where
  ready : Ready base s.proc fs us
  low : s.proc.mapped 0 = false
  held : List.Forall₂ Holds us s.held
  view : forall l, l ∈ s.held -> forall a, l.Has a -> s.proc.mem a = s.view a
  got : forall a, Covered fs a ∨ Covered us a <-> Covered s.got a
  below : forall b, b ∈ s.got -> b.stop ≤ s.proc.brk

section Runs

variable {base : Nat} {s s' : State} {fs us : List Extent} {u : Extent} {l : Held} {a : Nat}

theorem Holds.covers (h : Holds u l) (ha : l.Has a) : u.Covers a := by
  have hptr := h.ptr
  have hroom := h.room
  have hstop : u.stop = u.addr + u.len := rfl
  unfold Held.Has at ha
  unfold Extent.Covers
  lia

theorem Holds.behind_header (h : Holds u l) (ha : l.Has a) : u.addr + headerSize ≤ a := by
  have hptr := h.ptr
  unfold Held.Has at ha
  lia

theorem holds_of_mem {ls : List Held} (h : List.Forall₂ Holds us ls) (hl : l ∈ ls) :
    exists u, u ∈ us ∧ Holds u l := by
  induction h with
  | nil => cases hl
  | cons hhead _ ih =>
      cases List.mem_cons.mp hl with
      | inl heq =>
          rw [heq]
          exact ⟨_, List.mem_cons_self, hhead⟩
      | inr hmem =>
          rcases ih hmem with ⟨u, hu, hholds⟩
          exact ⟨u, List.mem_cons_of_mem _ hu, hholds⟩

theorem Sane.block (h : Sane base s fs us) (hl : l ∈ s.held) :
    exists u, u ∈ us ∧ Holds u l :=
  holds_of_mem h.held hl

theorem Ready.heap_of_mem (h : Ready base s.proc fs us) (hu : u ∈ us) :
    Heap base s.proc fs us := by
  cases h with
  | ring h => exact h
  | fresh => cases hu

theorem Ready.apart (h : Ready base s.proc fs us) : us.Pairwise Extent.Apart := by
  cases h with
  | ring h => exact h.apart
  | fresh => exact List.Pairwise.nil

/-- The allocator's own bytes are none of a block of the program. -/
theorem Sane.outside (h : Sane base s fs us) (hl : l ∈ s.held) (ha : l.Has a) :
    Not (base ≤ a ∧ a < base + headerSize) ∧ Not (Covered fs a) ∧ a < s.proc.brk := by
  rcases h.block hl with ⟨u, hu, hholds⟩
  have hheap := h.ready.heap_of_mem hu
  have hcovers := hholds.covers ha
  have hin := hheap.inside u (List.mem_append_right fs hu)
  have hplace := hin.covers hcovers
  have hbelow := hheap.below
  refine ⟨by lia, ?_, hplace.right⟩
  intro hex
  rcases hex with ⟨f, hf, hfcovers⟩
  exact (hheap.cross f u hf hu).not_covers hfcovers hcovers

/-- Blocks that the program holds have no byte in common. -/
theorem holds_apart {ls : List Held} (h : List.Forall₂ Holds us ls)
    (hapart : us.Pairwise Extent.Apart) :
    ls.Pairwise (fun l m => forall a, l.Has a -> Not (m.Has a)) := by
  induction h with
  | nil => exact List.Pairwise.nil
  | cons hhead htail ih =>
      rcases List.pairwise_cons.mp hapart with ⟨hfirst, hrest⟩
      refine List.pairwise_cons.mpr ⟨?_, ih hrest⟩
      intro m hm a hla hma
      rcases holds_of_mem htail hm with ⟨v, hv, hholds⟩
      exact (hfirst v hv).not_covers (hhead.covers hla) (hholds.covers hma)

/-!
# One step
-/

theorem unitsOf_room {nbytes : Nat} (h : nbytes + 2 * headerSize ≤ addrEnd) :
    nbytes + headerSize ≤ headerSize * unitsOf nbytes := by
  have hsize : headerSize = 8 := rfl
  have hend : addrEnd = 0x100000000 := rfl
  unfold unitsOf
  rw [Nat.mod_eq_of_lt (by lia)]
  lia

theorem Grown.low {n : Nat} {p p1 : Process} (h : Grown n p p1)
    (hbrk : userHeapBase ≤ p.brk) : p1.mapped 0 = p.mapped 0 := by
  rw [h.mapped]
  apply growPages_new
  rw [userHeapBase_eq] at hbrk
  have hpg : pgSize = 4096 := rfl
  lia

theorem Allocated.grows {nunits : Nat} {p : Process} {r : Nat × Process} {fs' : List Extent}
    (h : Allocated base nunits p fs us r u fs') (hbrk : userHeapBase ≤ p.brk) :
    p.brk ≤ r.2.brk ∧ r.2.mapped 0 = p.mapped 0 := by
  rcases h.space with ⟨hsame, -⟩ | ⟨-, s1, hgrown, hsame⟩
  · exact ⟨Nat.le_of_eq hsame.brk.symm, by rw [hsame.mapped]⟩
  · constructor
    · rw [hsame.brk, hgrown.brk]
      exact Nat.le_add_right _ _
    · rw [hsame.mapped]
      exact hgrown.low hbrk

theorem Ready.brk_ge (h : Ready base s.proc fs us) :
    userHeapBase ≤ s.proc.brk ∧ s.proc.brk < userHeapTop := by
  cases h with
  | ring h => exact h.top
  | fresh _ _ htop => exact htop

theorem covered_gotBy {brk brk' : Nat} (h : brk ≤ brk') (got : List Extent) :
    Covered (gotBy brk brk' got) a <-> (brk ≤ a ∧ a < brk') ∨ Covered got a := by
  unfold gotBy
  split
  · rename_i heq
    rw [heq]
    constructor
    · exact Or.inr
    · intro hor
      rcases hor with hin | hcovered
      · lia
      · exact hcovered
  · rw [covered_cons]
    have hstop : (Extent.mk brk (brk' - brk)).stop = brk' := by
      unfold Extent.stop
      dsimp only
      lia
    unfold Extent.Covers
    rw [hstop]

theorem Sane.given {nbytes : Nat} {r : Nat × Process} {fs' : List Extent}
    (h : Sane base s fs us) (hbytes : nbytes + 2 * headerSize ≤ addrEnd)
    (hr : Allocated base (unitsOf nbytes) s.proc fs us r u fs') :
    Sane base (s.given nbytes r) fs' (u :: us) := by
  have hbrk := h.ready.brk_ge
  have hgrows := hr.grows hbrk.left
  have hsize : headerSize = 8 := rfl
  have hne : r.1 ≠ 0 := by
    rw [hr.answer]
    lia
  have hheld : (s.given nbytes r).held = { ptr := r.1, nbytes := nbytes } :: s.held := if_neg hne
  have hholds : Holds u { ptr := r.1, nbytes := nbytes } :=
    ⟨hr.answer, by rw [hr.len]; exact unitsOf_room hbytes⟩
  have hapart := List.pairwise_cons.mp hr.heap.apart
  constructor
  · exact Ready.ring hr.heap
  · show r.2.mapped 0 = false
    rw [hgrows.right]
    exact h.low
  · rw [hheld]
    exact List.Forall₂.cons hholds h.held
  · rw [hheld]
    intro l hl a ha
    show r.2.mem a = if r.1 ≠ 0 ∧ r.1 ≤ a ∧ a < r.1 + nbytes then r.2.mem a else s.view a
    cases List.mem_cons.mp hl with
    | inl heq =>
        rw [heq] at ha
        rw [if_pos ⟨hne, ha⟩]
    | inr hmem =>
        rcases h.block hmem with ⟨v, hv, hvholds⟩
        have hout := h.outside hmem ha
        have hnew : Not (r.1 ≠ 0 ∧ r.1 ≤ a ∧ a < r.1 + nbytes) := fun hin =>
          (hapart.left v hv).not_covers (hholds.covers (a := a) hin.right) (hvholds.covers ha)
        rw [if_neg hnew, ← h.view l hmem a ha]
        exact hr.mem a hout.left hout.right.left (by lia)
  · intro a
    show Covered fs' a ∨ Covered (u :: us) a <-> Covered (gotBy s.proc.brk r.2.brk s.got) a
    rw [covered_gotBy hgrows.left, ← h.got a, covered_cons]
    have hcovered := hr.covered a
    constructor
    · intro hor
      rcases hor with hfree | hown | hused
      · rcases hcovered.mpr (Or.inr hfree) with hold | hin
        · exact Or.inr (Or.inl hold)
        · exact Or.inl hin
      · rcases hcovered.mpr (Or.inl hown) with hold | hin
        · exact Or.inr (Or.inl hold)
        · exact Or.inl hin
      · exact Or.inr (Or.inr hused)
    · intro hor
      rcases hor with hin | hold | hused
      · rcases hcovered.mp (Or.inr hin) with hown | hfree
        · exact Or.inr (Or.inl hown)
        · exact Or.inl hfree
      · rcases hcovered.mp (Or.inl hold) with hown | hfree
        · exact Or.inr (Or.inl hown)
        · exact Or.inl hfree
      · exact Or.inr (Or.inr hused)
  · intro b hb
    have hb' : b ∈ gotBy s.proc.brk r.2.brk s.got := hb
    unfold gotBy at hb'
    split at hb'
    · exact Nat.le_trans (h.below b hb') hgrows.left
    · cases List.mem_cons.mp hb' with
      | inl heq =>
          rw [heq]
          show s.proc.brk + (r.2.brk - s.proc.brk) ≤ r.2.brk
          lia
      | inr hmem => exact Nat.le_trans (h.below b hmem) hgrows.left

theorem holds_filter {ls : List Held} (h : List.Forall₂ Holds us ls) (ptr : Nat) :
    List.Forall₂ Holds (us.filter (fun v => decide (v.addr + headerSize ≠ ptr)))
      (ls.filter (fun l => decide (l.ptr ≠ ptr))) := by
  induction h with
  | nil => exact List.Forall₂.nil
  | cons hhead _ ih =>
      rename_i v m vs ms _
      have hiff : m.ptr = v.addr + headerSize := hhead.ptr
      cases Classical.em (v.addr + headerSize = ptr) with
      | inl heq =>
          rw [List.filter_cons_of_neg (by simp [heq]),
            List.filter_cons_of_neg (by simp [hiff, heq])]
          exact ih
      | inr hne =>
          rw [List.filter_cons_of_pos (by simp [hne]),
            List.filter_cons_of_pos (by simp [hiff, hne])]
          exact List.Forall₂.cons hhead ih

theorem Heap.eq_of_addr {p : Process} (h : Heap base p fs us) {v : Extent} (hu : u ∈ us)
    (hv : v ∈ us) (heq : v.addr = u.addr) : v = u := by
  cases Classical.em (v = u) with
  | inl hsame => exact hsame
  | inr hne =>
      have hapart := h.apart.forall hv hu hne
      have hvlen := (h.inside v (List.mem_append_right fs hv)).nonempty
      have hulen := (h.inside u (List.mem_append_right fs hu)).nonempty
      unfold Extent.Apart Extent.stop at hapart
      lia

/-- Some of the blocks of the program, and one that is not among them. -/
theorem Heap.without {p : Process} (h : Heap base p fs us) (hu : u ∈ us) :
    Heap base p fs (us.filter (fun v => decide (v.addr + headerSize ≠ u.addr + headerSize))) ∧
      Spare p fs (us.filter (fun v => decide (v.addr + headerSize ≠ u.addr + headerSize))) u := by
  have hsub : forall v,
      v ∈ us.filter (fun v => decide (v.addr + headerSize ≠ u.addr + headerSize)) ->
        v ∈ us ∧ v ≠ u := by
    intro v hv
    have hfilter := List.mem_filter.mp hv
    refine ⟨hfilter.left, ?_⟩
    intro heq
    rw [heq] at hfilter
    exact (of_decide_eq_true hfilter.right) rfl
  constructor
  · constructor
    · exact h.ring
    · exact h.empty
    · exact h.packed
    · exact h.freep
    · exact fun v hv => h.used v (hsub v hv).left
    · intro c hc
      rcases List.mem_append.mp hc with hc | hc
      · exact h.inside c (List.mem_append_left us hc)
      · exact h.inside c (List.mem_append_right fs (hsub c hc).left)
    · exact h.apart.filter _
    · exact fun f v hf hv => h.cross f v hf (hsub v hv).left
    · exact h.below
    · exact h.top
  · constructor
    · exact h.used u hu
    · exact h.inside u (List.mem_append_right fs hu)
    · exact fun f hf => (h.cross f u hf hu).symm
    · intro v hv
      exact h.apart.forall hu (hsub v hv).left (fun heq => (hsub v hv).right heq.symm)

theorem Sane.freed {p : Process} (h : Sane base s fs us) (hl : l ∈ s.held) (hu : u ∈ us)
    (hholds : Holds u l)
    (hheap : Heap base p (putBack u fs)
      (us.filter (fun v => decide (v.addr + headerSize ≠ u.addr + headerSize))))
    (hspace : SameSpace s.proc p)
    (hmem : forall a, Untouched base fs u a -> p.mem a = s.proc.mem a) :
    Sane base { s with proc := p, held := s.held.filter (fun m => decide (m.ptr ≠ l.ptr)) }
      (putBack u fs)
        (us.filter (fun v => decide (v.addr + headerSize ≠ u.addr + headerSize))) := by
  have hold := h.ready.heap_of_mem hu
  have hspare := (hold.without hu).right
  have hput := putBack_packed hold.packed hspare.inside.nonempty hspare.free
  constructor
  · exact Ready.ring hheap
  · show p.mapped 0 = false
    rw [hspace.mapped]
    exact h.low
  · show List.Forall₂ Holds _ (s.held.filter (fun m => decide (m.ptr ≠ l.ptr)))
    rw [hholds.ptr]
    exact holds_filter h.held _
  · intro m hm a ha
    have hm' : m ∈ s.held.filter (fun m => decide (m.ptr ≠ l.ptr)) := hm
    have hfilter := List.mem_filter.mp hm'
    rcases h.block hfilter.left with ⟨v, hv, hvholds⟩
    have hvu : u ≠ v := by
      intro heq
      apply of_decide_eq_true hfilter.right
      rw [hvholds.ptr, hholds.ptr, heq]
    have hout := h.outside hfilter.left ha
    show p.mem a = s.view a
    rw [hmem a, h.view m hfilter.left a ha]
    refine ⟨hout.left, hout.right.left, ?_⟩
    intro hown
    exact (hold.apart.forall hu hv hvu).not_covers hown (hvholds.covers ha)
  · intro a
    show _ <-> Covered s.got a
    rw [← h.got a, hput.right.left]
    constructor
    · intro hor
      rcases hor with (hown | hfree) | ⟨v, hv, hcovers⟩
      · exact Or.inr ⟨u, hu, hown⟩
      · exact Or.inl hfree
      · exact Or.inr ⟨v, (List.mem_filter.mp hv).left, hcovers⟩
    · intro hor
      rcases hor with hfree | ⟨v, hv, hcovers⟩
      · exact Or.inl (Or.inr hfree)
      · cases Classical.em (v.addr = u.addr) with
        | inl heq =>
            rw [hold.eq_of_addr hu hv heq] at hcovers
            exact Or.inl (Or.inl hcovers)
        | inr hne =>
            refine Or.inr ⟨v, List.mem_filter.mpr ⟨hv, ?_⟩, hcovers⟩
            exact decide_eq_true (fun heq => hne (Nat.add_right_cancel heq))
  · intro b hb
    show b.stop ≤ p.brk
    rw [hspace.brk]
    exact h.below b hb

/-- A byte of a block behind its header is no word of the allocator. -/
theorem Heap.write {p : Process} (h : Heap base p fs us) (hu : u ∈ us) (hcovers : u.Covers a)
    (ha : u.addr + headerSize ≤ a) (v : UInt8) :
    Heap base { p with mem := p.mem.setByte a v } fs us := by
  have hsize : headerSize = 8 := rfl
  have hbelow := h.below
  have huin := h.inside u (List.mem_append_right fs hu)
  have hulow := huin.low
  have hword : forall c, a < c ∨ c + 4 ≤ a ->
      (p.mem.setByte a v).word c = p.mem.word c :=
    fun c hc => Memory.word_setByte_of_outside p.mem v hc
  have hfree : forall f, f ∈ fs -> a < f.addr ∨ f.addr + headerSize ≤ a := by
    intro f hf
    have hlen := (h.ring.sizes f hf).eight_le (h.inside f (List.mem_append_left us hf)).nonempty
    have hout := (h.cross f u hf hu).symm.not_covers hcovers
    have hstop : f.stop = f.addr + f.len := rfl
    unfold Extent.Covers at hout
    lia
  have hused : forall w, w ∈ us -> a < w.addr ∨ w.addr + headerSize ≤ a := by
    intro w hw
    cases Classical.em (u = w) with
    | inl heq => exact Or.inr (heq ▸ ha)
    | inr hne =>
        have hlen := (h.used w hw).eight_le (h.inside w (List.mem_append_right fs hw)).nonempty
        have hout := (h.apart.forall hu hw hne).not_covers hcovers
        have hstop : w.stop = w.addr + w.len := rfl
        unfold Extent.Covers at hout
        lia
  constructor
  · apply h.ring.congr
    · exact hword _ (by lia)
    · intro f hf
      have hout := hfree f hf
      exact ⟨hword _ (by lia), hword _ (by lia)⟩
  · show (p.mem.setByte a v).word (base + 4) = 0
    rw [hword _ (by lia)]
    exact h.empty
  · exact h.packed
  · exact h.freep
  · intro w hw
    have hout := hused w hw
    have hsized := h.used w hw
    unfold Sized at *
    show headerSize * (p.mem.setByte a v).word (w.addr + 4) = w.len
    rw [hword _ (by lia)]
    exact hsized
  · exact fun b hb => ⟨(h.inside b hb).low, (h.inside b hb).high, (h.inside b hb).nonempty⟩
  · exact h.apart
  · exact h.cross
  · exact hbelow
  · exact h.top

theorem Sane.written (h : Sane base s fs us) (hl : l ∈ s.held) (ha : l.Has a) (v : UInt8) :
    Sane base { s with
      proc := { s.proc with mem := s.proc.mem.setByte a v }
      view := s.view.setByte a v } fs us := by
  rcases h.block hl with ⟨u, hu, hholds⟩
  have hheap := h.ready.heap_of_mem hu
  constructor
  · exact Ready.ring (hheap.write hu (hholds.covers ha) (hholds.behind_header ha) v)
  · exact h.low
  · exact h.held
  · intro m hm b hb
    have hold := h.view m hm b hb
    show (if b = a then v else s.proc.mem b) = if b = a then v else s.view b
    rw [hold]
  · exact h.got
  · exact h.below

theorem sbrk_space (n : Nat) (p : Process) (hbrk : userHeapBase ≤ p.brk) :
    p.brk ≤ (sbrk n p).2.brk ∧
      (p.brk < userHeapTop -> (sbrk n p).2.brk < userHeapTop) ∧
      (sbrk n p).2.mem = p.mem ∧ (sbrk n p).2.freep = p.freep ∧
        (sbrk n p).2.mapped 0 = p.mapped 0 := by
  have hpg : pgSize = 4096 := rfl
  rw [userHeapBase_eq] at hbrk
  have hlow : forall k : Nat, growPages k (p.brk / pgSize) p.mapped 0 = p.mapped 0 :=
    fun k => growPages_new _ _ _ (by lia)
  unfold sbrk
  split
  · exact ⟨Nat.le_refl _, fun h => h, rfl, rfl, rfl⟩
  · split
    · exact ⟨Nat.le_refl _, fun h => h, rfl, rfl, rfl⟩
    · rename_i hin
      exact ⟨Nat.le_add_right _ _, fun _ => Nat.lt_of_not_le hin, rfl, rfl, hlow _⟩

theorem Sane.grown (h : Sane base s fs us) (n : Nat) :
    Sane base { s with proc := (sbrk n s.proc).2 } fs us := by
  have hbrk := h.ready.brk_ge
  rcases sbrk_space n s.proc hbrk.left with ⟨hle, htop, hmem, hfreep, hlow⟩
  constructor
  · cases hready : h.ready with
    | ring hheap =>
        exact Ready.ring (hheap.grow ⟨hle, htop hbrk.right⟩ (fun a _ => by rw [hmem]) hfreep)
    | fresh hzero hbelow _ =>
        exact Ready.fresh (hfreep.trans hzero) hbelow
          ⟨Nat.le_trans hbrk.left hle, htop hbrk.right⟩
  · exact hlow.trans h.low
  · exact h.held
  · intro l hl a ha
    show (sbrk n s.proc).2.mem a = s.view a
    rw [hmem]
    exact h.view l hl a ha
  · exact h.got
  · exact fun b hb => Nat.le_trans (h.below b hb) hle

theorem Sane.step (h : Sane base s fs us) {act : Action} (hok : Proper s act)
    (hstep : step base s act = some s') : exists fs' us', Sane base s' fs' us' := by
  cases act with
  | malloc nbytes =>
      have hmeets : Meets _ _ (malloc base nbytes s.proc) :=
        malloc_meets h.ready h.low hok
      unfold Malloc.step at hstep
      dsimp only at hstep
      cases hrun : malloc base nbytes s.proc with
      | error e =>
          rw [hrun] at hstep
          cases hstep
      | ok r =>
          rw [hrun] at hstep
          rw [← Option.some.inj hstep]
          rcases hmeets.of_ok hrun with ⟨b, fs', hr⟩
          exact ⟨fs', b :: us, h.given hok hr⟩
  | free ptr =>
      rcases hok with ⟨l, hl, hptr⟩
      rcases h.block hl with ⟨u, hu, hholds⟩
      rcases (h.ready.heap_of_mem hu).without hu with ⟨hheap, hspare⟩
      have hmeets := free_meets hheap hspare
      unfold Malloc.step at hstep
      dsimp only at hstep
      rw [← hptr, hholds.ptr] at hstep
      cases hrun : free (u.addr + headerSize) s.proc with
      | error e =>
          rw [hrun] at hstep
          cases hstep
      | ok p =>
          rw [hrun] at hstep
          rw [← Option.some.inj hstep]
          rcases hmeets.of_ok hrun with ⟨hnew, hspace, hmem⟩
          have hfreed := h.freed hl hu hholds hnew hspace hmem
          rw [hholds.ptr] at hfreed
          exact ⟨_, _, hfreed⟩
  | write a v =>
      rcases hok with ⟨l, hl, ha⟩
      unfold Malloc.step at hstep
      dsimp only at hstep
      split at hstep
      · rw [← Option.some.inj hstep]
        exact ⟨fs, us, h.written hl ha v⟩
      · cases hstep
  | sbrk n =>
      unfold Malloc.step at hstep
      rw [← Option.some.inj hstep]
      exact ⟨fs, us, h.grown n⟩

end Runs

end Malloc
end User
end NicoOS
