import NicoOS.Lib.Extents
import NicoOS.Lib.Segments
import NicoOS.User.Malloc.Model

/-!
# The ring of free blocks

In memory the free blocks are a ring by address through `base`.  `free` puts a block back into
the list that the ring is, joined with its neighbours.
-/

namespace NicoOS
namespace User
namespace Malloc

open Lib
open Kernel.Vm (pgSize userHeapBase userHeapTop)

/-- The link of a header. -/
def nextOf (mem : Memory) (p : Nat) : Option Nat := some (mem.word p)

def lastOf (base : Nat) (xs : List Extent) : Nat := (xs.map Extent.addr).getLastD base

/-- The size of a block is in its header. -/
def Sized (mem : Memory) (b : Extent) : Prop := headerSize * mem.word (b.addr + 4) = b.len

/-- The headers lead from `p` through the blocks to `e`. -/
structure Linked (mem : Memory) (p : Nat) (bs : List Extent) (e : Nat) : Prop where
  links : Segment (nextOf mem) p (bs.map Extent.addr) e
  sizes : forall b, b ∈ bs -> Sized mem b

/-- A block in the heap of the process. -/
structure Inside (s : Process) (b : Extent) : Prop where
  low : userHeapBase ≤ b.addr
  high : b.stop ≤ s.brk
  nonempty : 0 < b.len

/-- The ring of the free blocks `fs`, with the blocks `us` of the program. -/
structure Heap (base : Nat) (s : Process) (fs us : List Extent) : Prop where
  ring : Linked s.mem base fs base
  empty : s.mem.word (base + 4) = 0
  packed : Packed fs
  freep : s.freep = base ∨ exists f, f ∈ fs ∧ s.freep = f.addr
  used : forall u, u ∈ us -> Sized s.mem u
  inside : forall b, b ∈ fs ++ us -> Inside s b
  apart : us.Pairwise Extent.Apart
  cross : forall f u, f ∈ fs -> u ∈ us -> f.Apart u
  below : 0 < base ∧ base + headerSize ≤ userHeapBase
  top : userHeapBase ≤ s.brk ∧ s.brk < userHeapTop

/-- A block that is neither free nor with the program. -/
structure Spare (s : Process) (fs us : List Extent) (u : Extent) : Prop where
  sized : Sized s.mem u
  inside : Inside s u
  free : forall f, f ∈ fs -> u.Apart f
  used : forall v, v ∈ us -> u.Apart v

/-- A word of the allocator: in `base` or in the heap. -/
def Within (base : Nat) (s : Process) (a : Nat) : Prop :=
  (base ≤ a ∧ a + 4 ≤ base + headerSize) ∨ (userHeapBase ≤ a ∧ a + 4 ≤ s.brk)

/-- The stop is a page fault at a word of the allocator. -/
def Hole (base : Nat) (s : Process) (e : Stop) : Prop :=
  exists a, e = Stop.pageFault a ∧ s.reachable a = false ∧ Within base s a

/-- Only the memory differs. -/
structure SameSpace (s s' : Process) : Prop where
  mapped : s'.mapped = s.mapped
  brk : s'.brk = s.brk

/-- Only the header at `lo` differs. -/
structure AtHeader (lo : Nat) (s s' : Process) : Prop extends SameSpace s s' where
  freep : s'.freep = s.freep
  mem : forall a, a < lo ∨ lo + headerSize ≤ a -> s'.mem a = s.mem a

section Words

variable {base p lo a v e : Nat} {s s' t : Process} {mem mem' : Memory} {b : Extent}
  {bs fs us xs ys : List Extent} {u : Extent}

@[simp] theorem lastOf_nil (p : Nat) : lastOf p [] = p := rfl

theorem lastOf_cons (p : Nat) (b : Extent) (bs : List Extent) :
    lastOf p (b :: bs) = lastOf b.addr bs := by
  unfold lastOf
  rw [List.map_cons, List.getLastD_cons]

theorem lastOf_append (p : Nat) (xs : List Extent) (b : Extent) (ys : List Extent) :
    lastOf p (xs ++ b :: ys) = lastOf b.addr ys := by
  induction xs generalizing p with
  | nil => exact lastOf_cons p b ys
  | cons x rest ih =>
      rw [List.cons_append, lastOf_cons]
      exact ih x.addr

theorem lastOf_concat (p : Nat) (xs : List Extent) (b : Extent) : lastOf p (xs ++ [b]) = b.addr :=
  lastOf_append p xs b []

theorem userHeapBase_eq : userHeapBase = 0x8048000 := rfl

theorem userHeapTop_eq : userHeapTop = 0x7fffc000 := rfl

theorem load_meets (h : Within base s a) :
    Meets (fun v => v = s.mem.word a) (Hole base s) (s.load a) := by
  unfold Process.load
  split
  · exact rfl
  · rename_i hno
    exact ⟨a, rfl, Bool.eq_false_iff.mpr hno, h⟩

theorem AtHeader.refl (lo : Nat) (s : Process) : AtHeader lo s s :=
  ⟨⟨rfl, rfl⟩, rfl, fun _ _ => rfl⟩

theorem AtHeader.trans (h : AtHeader lo s s') (h' : AtHeader lo s' t) : AtHeader lo s t where
  mapped := h'.mapped.trans h.mapped
  brk := h'.brk.trans h.brk
  freep := h'.freep.trans h.freep
  mem := fun a ha => (h'.mem a ha).trans (h.mem a ha)

theorem AtHeader.word (h : AtHeader lo s s') (ha : a + 4 ≤ lo ∨ lo + headerSize ≤ a) :
    s'.mem.word a = s.mem.word a := by
  apply Memory.word_congr
  intro x hx1 hx2
  exact h.mem x (by lia)

theorem SameSpace.within (h : SameSpace s s') : Within base s' a <-> Within base s a := by
  unfold Within
  rw [h.brk]

theorem SameSpace.hole (h : SameSpace s s') {e : Stop} (he : Hole base s' e) : Hole base s e := by
  rcases he with ⟨a, heq, hreach, hin⟩
  refine ⟨a, heq, ?_, h.within.mp hin⟩
  unfold Process.reachable at hreach ⊢
  rw [← h.mapped]
  exact hreach

theorem store_meets (h : Within base s a) (hlo : a = lo ∨ a = lo + 4) (hv : v < addrEnd) :
    Meets (fun s' => AtHeader lo s s' ∧ s'.mem.word a = v ∧
        forall c, c + 4 ≤ a ∨ a + 4 ≤ c -> s'.mem.word c = s.mem.word c) (Hole base s)
      (s.store a v) := by
  have hsize : headerSize = 8 := rfl
  unfold Process.store
  split
  · refine ⟨⟨⟨rfl, rfl⟩, rfl, ?_⟩, Memory.word_setWord_self _ _ hv, ?_⟩
    · intro x hx
      exact Memory.setWord_of_outside _ _ (by lia)
    · exact fun c hc => Memory.word_setWord_of_apart _ _ hc
  · rename_i hno
    exact ⟨a, rfl, Bool.eq_false_iff.mpr hno, h⟩

theorem Inside.within (h : Inside s b) (hsized : Sized mem b) (ha : a = b.addr ∨ a = b.addr + 4) :
    Within base s a := by
  have hlow := h.low
  have hhigh := h.high
  have hlen := h.nonempty
  have hstop : b.stop = b.addr + b.len := rfl
  have hsize : headerSize = 8 := rfl
  unfold Sized at hsized
  right
  lia

theorem within_base (base : Nat) (s : Process) (ha : a = base ∨ a = base + 4) :
    Within base s a := by
  have hsize : headerSize = 8 := rfl
  left
  lia

/-- Blocks behind their headers that lie apart have their headers apart. -/
theorem Sized.eight_le (h : Sized mem b) (hlen : 0 < b.len) : headerSize ≤ b.len := by
  unfold Sized headerSize at *
  lia

theorem Linked.congr (h : Linked mem p bs e) (hp : mem'.word p = mem.word p)
    (hbs : forall b, b ∈ bs -> mem'.word b.addr = mem.word b.addr ∧
      mem'.word (b.addr + 4) = mem.word (b.addr + 4)) : Linked mem' p bs e where
  links := by
    apply h.links.congr
    intro q hq
    unfold nextOf
    cases List.mem_cons.mp hq with
    | inl heq => rw [heq, hp]
    | inr hmem =>
        rcases List.mem_map.mp hmem with ⟨b, hb, heq⟩
        rw [← heq, (hbs b hb).left]
  sizes := by
    intro b hb
    have hsized := h.sizes b hb
    unfold Sized at *
    rw [(hbs b hb).right]
    exact hsized

theorem linked_append : Linked mem p (xs ++ b :: ys) e <->
    Linked mem p xs b.addr ∧ Sized mem b ∧ Linked mem b.addr ys e := by
  constructor
  · intro hboth
    rcases hboth with ⟨hlinks, hsizes⟩
    rw [List.map_append, List.map_cons] at hlinks
    have hparts := (Segment.append p _ b.addr _ e).mp hlinks
    exact ⟨⟨hparts.left, fun c hc => hsizes c (List.mem_append_left _ hc)⟩,
      hsizes b (List.mem_append_right xs List.mem_cons_self),
      ⟨hparts.right, fun c hc => hsizes c (List.mem_append_right xs (List.mem_cons_of_mem b hc))⟩⟩
  · intro hall
    rcases hall with ⟨hxs, hb, hys⟩
    constructor
    · rw [List.map_append, List.map_cons]
      exact (Segment.append p _ b.addr _ e).mpr ⟨hxs.links, hys.links⟩
    · intro c hc
      rcases List.mem_append.mp hc with hc | hc
      · exact hxs.sizes c hc
      · cases List.mem_cons.mp hc with
        | inl heq => exact heq ▸ hb
        | inr hmem => exact hys.sizes c hmem

theorem linked_cons : Linked mem p (b :: ys) e <->
    mem.word p = b.addr ∧ Sized mem b ∧ Linked mem b.addr ys e := by
  rw [← List.nil_append (b :: ys), linked_append]
  constructor
  · intro hboth
    rcases hboth with ⟨hp, hrest⟩
    exact ⟨Option.some.inj hp.links, hrest⟩
  · intro hboth
    rcases hboth with ⟨hp, hrest⟩
    exact ⟨⟨congrArg some hp, fun c hc => (List.not_mem_nil hc).elim⟩, hrest⟩

theorem linked_nil : Linked mem p [] e <-> mem.word p = e := by
  constructor
  · exact fun h => Option.some.inj h.links
  · exact fun h => ⟨congrArg some h, fun c hc => (List.not_mem_nil hc).elim⟩

theorem Linked.restart (h : Linked mem p bs e) {q : Nat} (hq : mem.word q = mem.word p) :
    Linked mem q bs e := by
  cases bs with
  | nil => exact linked_nil.mpr (hq.trans (linked_nil.mp h))
  | cons b rest =>
      have hparts := linked_cons.mp h
      exact linked_cons.mpr ⟨hq.trans hparts.left, hparts.right⟩

theorem Linked.first (h : Linked mem p bs e) : mem.word p = (bs.map Extent.addr).headD e :=
  Option.some.inj h.links.first

end Words

/-!
# The search of `free`
-/

section Search

variable {base bp p : Nat} {s : Process} {fs us xs ys zs : List Extent} {Q : Nat -> Prop}

/-- From a header below the block on: the last one of those below it. -/
theorem search_forward (hbase : base < bp) {fuel : Nat} (hlinked : Linked s.mem p (xs ++ ys) base)
    (hp : base ≤ p ∧ p < bp) (hxs : forall x, x ∈ xs -> x.addr < bp)
    (hys : forall y, y ∈ ys -> bp < y.addr)
    (hsorted : (p :: (xs ++ ys).map Extent.addr).Pairwise (fun a c => a < c))
    (hin : forall q, q = p ∨ q ∈ xs.map Extent.addr -> Within base s q)
    (hfuel : xs.length < fuel) :
    Meets (fun q => q = lastOf p xs) (Hole base s) (search bp fuel p s) := by
  induction xs generalizing p fuel with
  | nil =>
      cases fuel with
      | zero => cases hfuel
      | succ fuel =>
          rw [search]
          apply Meets.bind (load_meets (hin p (Or.inl rfl)))
          intro next heq
          subst heq
          have hfirst := hlinked.first
          cases ys with
          | nil =>
              have hnext : s.mem.word p = base := hfirst
              rw [hnext, if_neg (fun h => Nat.lt_asymm hbase h.right),
                if_pos ⟨hp.left, Or.inl hp.right⟩]
              exact rfl
          | cons y rest =>
              have hnext : s.mem.word p = y.addr := hfirst
              rw [hnext, if_pos ⟨hp.right, hys y List.mem_cons_self⟩]
              exact rfl
  | cons x rest ih =>
      cases fuel with
      | zero => cases hfuel
      | succ fuel =>
          rw [search]
          apply Meets.bind (load_meets (hin p (Or.inl rfl)))
          intro next heq
          subst heq
          have hparts := linked_cons.mp hlinked
          have hx := hxs x List.mem_cons_self
          have hpairs := List.pairwise_cons.mp hsorted
          have hlt : p < x.addr := hpairs.left x.addr List.mem_cons_self
          rw [hparts.left, if_neg (fun h => Nat.lt_asymm hx h.right),
            if_neg (fun h => Nat.not_lt_of_le h.left hlt), lastOf_cons]
          apply ih hparts.right.right ⟨by lia, hx⟩
          · exact fun c hc => hxs c (List.mem_cons_of_mem x hc)
          · exact hpairs.right
          · intro q hor
            rcases hor with heq | hmem
            · exact hin q (Or.inr (heq ▸ List.mem_cons_self))
            · exact hin q (Or.inr (List.mem_cons_of_mem _ hmem))
          · exact Nat.lt_of_succ_lt_succ hfuel

/-- From a header above the block on the search comes to `base`. -/
theorem search_around (hbase : base < bp) {fuel : Nat} (hlinked : Linked s.mem p zs base)
    (hp : bp < p) (hsorted : (p :: zs.map Extent.addr).Pairwise (fun a c => a < c))
    (hin : forall q, q = p ∨ q ∈ zs.map Extent.addr -> Within base s q)
    (hrest : Meets Q (Hole base s) (search bp fuel base s)) :
    Meets Q (Hole base s) (search bp (zs.length + 1 + fuel) p s) := by
  induction zs generalizing p with
  | nil =>
      have hfuel : ([] : List Extent).length + 1 + fuel = fuel + 1 := by
        rw [List.length_nil]
        lia
      rw [hfuel, search]
      apply Meets.bind (load_meets (hin p (Or.inl rfl)))
      intro next heq
      subst heq
      have hnext : s.mem.word p = base := linked_nil.mp hlinked
      rw [hnext, if_neg (fun h => Nat.lt_asymm hp h.left), if_neg (by lia)]
      exact hrest
  | cons z rest ih =>
      have hfuel : (z :: rest).length + 1 + fuel = rest.length + 1 + fuel + 1 := by
        rw [List.length_cons]
        lia
      rw [hfuel, search]
      apply Meets.bind (load_meets (hin p (Or.inl rfl)))
      intro next heq
      subst heq
      have hparts := linked_cons.mp hlinked
      have hpairs := List.pairwise_cons.mp hsorted
      have hlt : p < z.addr := hpairs.left z.addr List.mem_cons_self
      rw [hparts.left, if_neg (fun h => Nat.lt_asymm hp h.left),
        if_neg (fun h => Nat.not_lt_of_le h.left hlt)]
      apply ih hparts.right.right (Nat.lt_trans hp hlt) hpairs.right
      intro q hor
      rcases hor with heq | hmem
      · exact hin q (Or.inr (heq ▸ List.mem_cons_self))
      · exact hin q (Or.inr (List.mem_cons_of_mem _ hmem))

theorem Heap.sorted (h : Heap base s fs us) :
    (base :: fs.map Extent.addr).Pairwise (fun a c => a < c) := by
  refine List.pairwise_cons.mpr ⟨?_, h.packed.addrs⟩
  intro a ha
  rcases List.mem_map.mp ha with ⟨f, hf, heq⟩
  have hlow := (h.inside f (List.mem_append_left us hf)).low
  have hbelow := h.below
  have hsize : headerSize = 8 := rfl
  lia

theorem Heap.within (h : Heap base s fs us) {q : Nat} (hq : q = base ∨ q ∈ fs.map Extent.addr) :
    Within base s q := by
  rcases hq with heq | hmem
  · exact within_base base s (Or.inl heq)
  · rcases List.mem_map.mp hmem with ⟨f, hf, heq⟩
    exact (h.inside f (List.mem_append_left us hf)).within (h.ring.sizes f hf) (Or.inl heq.symm)

theorem Heap.length_lt (h : Heap base s fs us) : fs.length < 0x80000000 := by
  have hle := h.packed.length_le
  have htotal := h.packed.totalLen_le h.top.left (fun f hf =>
    ⟨(h.inside f (List.mem_append_left us hf)).low, (h.inside f (List.mem_append_left us hf)).high⟩)
  have htop := h.top
  rw [userHeapTop_eq] at htop
  lia

/-- The search finds the header below the block, wherever it starts. -/
theorem search_meets (h : Heap base s (xs ++ ys) us) (hbase : base < bp)
    (hxs : forall x, x ∈ xs -> x.addr < bp) (hys : forall y, y ∈ ys -> bp < y.addr) :
    Meets (fun q => q = lastOf base xs) (Hole base s)
      (search bp visits s.freep s) := by
  have hlength := h.length_lt
  have hvisits : visits = 0x100000000 := rfl
  rw [List.length_append] at hlength
  have hfrombase : forall fuel, xs.length < fuel ->
      Meets (fun q => q = lastOf base xs) (Hole base s)
        (search bp fuel base s) := by
    intro fuel hfuel
    apply search_forward hbase h.ring ⟨Nat.le_refl base, hbase⟩ hxs hys h.sorted _ hfuel
    intro q hor
    rcases hor with heq | hmem
    · exact h.within (Or.inl heq)
    · apply h.within
      right
      rw [List.map_append]
      exact List.mem_append_left _ hmem
  rcases h.freep with heq | ⟨f, hf, heq⟩
  · rw [heq]
    exact hfrombase _ (by lia)
  · have hsorted := (List.pairwise_cons.mp h.sorted).right
    have hbaselt := (List.pairwise_cons.mp h.sorted).left f.addr (List.mem_map_of_mem hf)
    rw [heq]
    cases List.mem_append.mp hf with
    | inl hmem =>
        rcases List.append_of_mem hmem with ⟨as, bs, hsplit⟩
        subst hsplit
        rw [List.append_assoc, List.cons_append] at *
        have hparts := linked_append.mp h.ring
        rw [lastOf_append]
        apply search_forward hbase hparts.right.right
        · exact ⟨Nat.le_of_lt hbaselt, hxs f hmem⟩
        · exact fun x hx => hxs x (List.mem_append_right as (List.mem_cons_of_mem f hx))
        · exact hys
        · rw [List.map_append, List.map_cons] at hsorted
          exact (List.pairwise_append.mp hsorted).right.left
        · intro q hq
          apply h.within
          right
          rw [List.map_append, List.map_cons, List.map_append]
          apply List.mem_append_right
          rcases hq with heq | hmem
          · exact heq ▸ List.mem_cons_self
          · exact List.mem_cons_of_mem _ (List.mem_append_left _ hmem)
        · rw [List.length_append, List.length_cons] at hlength
          lia
    | inr hmem =>
        rcases List.append_of_mem hmem with ⟨as, bs, hsplit⟩
        subst hsplit
        have hring := h.ring
        rw [← List.append_assoc] at hring hsorted
        have hparts := linked_append.mp hring
        rw [List.length_append, List.length_cons] at hlength
        have hfuel : visits = bs.length + 1 + (visits - (bs.length + 1)) := by lia
        rw [hfuel]
        apply search_around hbase hparts.right.right (hys f hmem)
        · rw [List.map_append, List.map_cons] at hsorted
          exact (List.pairwise_append.mp hsorted).right.left
        · intro q hq
          apply h.within
          right
          rw [List.map_append, List.map_append, List.map_cons]
          apply List.mem_append_right
          apply List.mem_append_right
          rcases hq with heq | hmem
          · exact heq ▸ List.mem_cons_self
          · exact List.mem_cons_of_mem _ hmem
        · exact hfrombase _ (by lia)

end Search

end Malloc
end User
end NicoOS
