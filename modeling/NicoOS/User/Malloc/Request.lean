import NicoOS.User.Malloc.Alloc

/-!
# A request

`malloc` gives out a block of the free list, or of what `sbrk` adds to the heap where no free
block is large enough.  Where `sbrk` answers 0 the new header is written at address 0.
-/

namespace NicoOS
namespace User
namespace Malloc

open Lib
open Kernel.Vm (pgSize userHeapBase userHeapTop)

/-!
# The system call
-/

section Sbrk

variable {k v n : Nat} {s : Process}

/-- The pages of the range, and those that were there. -/
theorem growPages_iff (k v : Nat) (mapped : Nat -> Bool) (w : Nat) :
    growPages k v mapped w = true <-> mapped w = true ∨ (v ≤ w ∧ w < v + k) := by
  induction k generalizing v mapped with
  | zero =>
      constructor
      · exact Or.inl
      · intro hor
        rcases hor with hold | hin
        · exact hold
        · lia
  | succ k ih =>
      unfold growPages
      rw [ih]
      cases hv : mapped v with
      | true =>
          rw [if_pos rfl]
          constructor
          · intro hor
            rcases hor with hold | hin
            · exact Or.inl hold
            · exact Or.inr (by lia)
          · intro hor
            rcases hor with hold | hin
            · exact Or.inl hold
            · cases Nat.eq_or_lt_of_le hin.left with
              | inl heq => exact Or.inl (heq ▸ hv)
              | inr hlt => exact Or.inr (by lia)
      | false =>
          rw [if_neg Bool.false_ne_true]
          cases Classical.em (w = v) with
          | inl heq =>
              rw [if_pos heq]
              exact iff_of_true (Or.inl rfl) (Or.inr (by lia))
          | inr hne =>
              rw [if_neg hne]
              constructor
              · intro hor
                rcases hor with hold | hin
                · exact Or.inl hold
                · exact Or.inr (by lia)
              · intro hor
                rcases hor with hold | hin
                · exact Or.inl hold
                · exact Or.inr (by lia)

theorem growPages_new (k v : Nat) (mapped : Nat -> Bool) {w : Nat} (hw : w < v) :
    growPages k v mapped w = mapped w := by
  rw [Bool.eq_iff_iff, growPages_iff]
  constructor
  · intro hor
    rcases hor with hold | hin
    · exact hold
    · lia
  · exact Or.inl

/-- The kernel grows the heap by `n` bytes. -/
structure Grants (n : Nat) (s : Process) : Prop where
  small : n < 0x80000000
  inside : s.brk + n < userHeapTop

/-- The space of the process behind the growth. -/
structure Grown (n : Nat) (s s1 : Process) : Prop extends Grants n s where
  mapped : s1.mapped = growPages ((n + pgSize - 1) / pgSize) (s.brk / pgSize) s.mapped
  brk : s1.brk = s.brk + n

theorem sbrk_grants (h : Grants n s) : exists s1, sbrk n s = (s.brk, s1) ∧
    Grown n s s1 ∧ s1.mem = s.mem ∧ s1.freep = s.freep := by
  refine ⟨{ s with
    mapped := growPages ((n + pgSize - 1) / pgSize) (s.brk / pgSize) s.mapped
    brk := s.brk + n }, ?_, ⟨h, rfl, rfl⟩, rfl, rfl⟩
  unfold sbrk
  rw [if_neg (Nat.not_le_of_lt h.small), if_neg (Nat.not_le_of_lt h.inside)]

theorem sbrk_refused (h : Not (Grants n s)) : sbrk n s = (0, s) := by
  unfold sbrk
  split
  · rfl
  · rename_i hsmall
    split
    · rfl
    · rename_i hin
      exact absurd ⟨Nat.lt_of_not_le hsmall, Nat.lt_of_not_le hin⟩ h

theorem SameSpace.grants {s1 : Process} (h : SameSpace s s1) :
    Grants n s1 <-> Grants n s := by
  constructor
  · intro hboth
    rcases hboth with ⟨hsmall, hin⟩
    rw [h.brk] at hin
    exact ⟨hsmall, hin⟩
  · intro hboth
    rcases hboth with ⟨hsmall, hin⟩
    rw [← h.brk] at hin
    exact ⟨hsmall, hin⟩

theorem SameSpace.grown {s1 s2 : Process} (h : SameSpace s s1) (h2 : Grown n s1 s2) :
    Grown n s s2 := by
  refine ⟨h.grants.mp h2.toGrants, ?_, ?_⟩
  · rw [h2.mapped, h.mapped, h.brk]
  · rw [h2.brk, h.brk]

end Sbrk

/-!
# More memory
-/

/-- The number of bytes that `morecore` asks for. -/
def growth (nunits : Nat) : Nat := headerSize * (if nunits < 4096 then 4096 else nunits)

/--
A stop of a request: a hole in the heap, before or behind the growth, or a refused growth where
no free block is large enough.
-/
def Fails (base nunits : Nat) (s : Process) (fs : List Extent) (e : Stop) : Prop :=
  Hole base s e ∨ (exists s1, Grown (growth nunits) s s1 ∧ Hole base s1 e) ∨
    ((forall z, z ∈ fs -> z.len < headerSize * nunits) ∧
      Not (Grants (growth nunits) s) ∧ e = Stop.pageFault 4)

section More

variable {base nunits : Nat} {s s1 s2 : Process} {fs us : List Extent}

def newBlock (nunits : Nat) (s : Process) : Extent where
  addr := s.brk
  len := growth nunits

/-- What `morecore` leaves where the heap grows. -/
structure Refilled (base nunits : Nat) (s : Process) (fs us : List Extent)
    (r : Nat × Process) : Prop where
  heap : Heap base r.2 (putBack (newBlock nunits s) fs) us
  answer : r.1 = r.2.freep
  grown : exists s1, Grown (growth nunits) s s1 ∧ SameSpace s1 r.2
  mem : forall a, Untouched base fs (newBlock nunits s) a -> r.2.mem a = s.mem a

theorem Heap.freep_pos (h : Heap base s fs us) : s.freep ≠ 0 := by
  have hbelow := h.below
  rcases h.freep with heq | ⟨f, hf, heq⟩
  · lia
  · have hlow := (h.inside f (List.mem_append_left us hf)).low
    rw [userHeapBase_eq] at hlow
    lia

/-- The heap is larger, and the header behind it is written. -/
theorem Heap.grow (h : Heap base s fs us) (hbrk : s.brk ≤ s2.brk ∧ s2.brk < userHeapTop)
    (hmem : forall a, a < s.brk -> s2.mem a = s.mem a) (hfreep : s2.freep = s.freep) :
    Heap base s2 fs us := by
  have hsize : headerSize = 8 := rfl
  have hword : forall a, a + 4 ≤ s.brk -> s2.mem.word a = s.mem.word a := by
    intro a ha
    apply Memory.word_congr
    intro x hx1 hx2
    exact hmem x (by lia)
  have hbelow := h.below
  have htop := h.top
  have hheader : forall b, b ∈ fs ++ us -> Sized s.mem b -> b.addr + headerSize ≤ s.brk := by
    intro b hb hsized
    have hin := h.inside b hb
    have height := hsized.eight_le hin.nonempty
    have hhigh := hin.high
    have hstop : b.stop = b.addr + b.len := rfl
    lia
  constructor
  · apply h.ring.congr
    · exact hword _ (by lia)
    · intro b hb
      have hle := hheader b (List.mem_append_left us hb) (h.ring.sizes b hb)
      exact ⟨hword _ (by lia), hword _ (by lia)⟩
  · rw [hword _ (by lia)]
    exact h.empty
  · exact h.packed
  · rw [hfreep]
    exact h.freep
  · intro u hu
    have hsized := h.used u hu
    have hle := hheader u (List.mem_append_right fs hu) hsized
    unfold Sized at *
    rw [hword _ (by lia)]
    exact hsized
  · intro b hb
    have hin := h.inside b hb
    exact ⟨hin.low, Nat.le_trans hin.high hbrk.left, hin.nonempty⟩
  · exact h.apart
  · exact h.cross
  · exact hbelow
  · exact ⟨Nat.le_trans htop.left hbrk.left, hbrk.right⟩

theorem morecore_meets (h : Heap base s fs us) (hlow : s.mapped 0 = false)
    (hpos : 0 < nunits) (hmax : nunits < 0x20000000)
    (hsmall : forall z, z ∈ fs -> z.len < headerSize * nunits) :
    Meets (Refilled base nunits s fs us) (Fails base nunits s fs)
      (morecore nunits s) := by
  have hsize : headerSize = 8 := rfl
  have hend : addrEnd = 0x100000000 := rfl
  have hpg : pgSize = 4096 := rfl
  have hbase := h.below
  have htop := h.top
  have hg : growth nunits = headerSize * (if nunits < 4096 then 4096 else nunits) := rfl
  generalize hnu : (if nunits < 4096 then 4096 else nunits) = nu at hg
  have hnulo : 4096 ≤ nu ∧ nunits ≤ nu ∧ nu < 0x20000000 := by
    rw [← hnu]
    split
    · lia
    · lia
  have hbytes : nu * headerSize % addrEnd = growth nunits := by
    rw [hg, Nat.mod_eq_of_lt (by lia), Nat.mul_comm]
  unfold morecore
  dsimp only
  rw [hnu, hbytes]
  cases Classical.em (Grants (growth nunits) s) with
  | inr hno =>
      rw [sbrk_refused hno]
      dsimp only
      rw [if_neg (by lia)]
      have hpage : s.reachable (0 + 4) = false := by
        unfold Process.reachable
        have hzero : (0 + 4) / pgSize = 0 := rfl
        rw [hzero, hlow]
        rfl
      unfold Process.store
      rw [hpage]
      exact Or.inr (Or.inr ⟨hsmall, hno, rfl⟩)
  | inl hyes =>
      rcases sbrk_grants hyes with ⟨s1, hanswer, hgrown, hmem1, hfreep1⟩
      rw [hanswer]
      dsimp only
      have hin := hgrown.inside
      rw [userHeapTop_eq] at hin
      rw [if_neg (by lia)]
      have hs1 : Heap base s1 fs us :=
        h.grow ⟨by rw [hgrown.brk]; lia, by rw [hgrown.brk]; exact hgrown.inside⟩
          (fun a _ => by rw [hmem1]) hfreep1
      have hfails : forall e, Hole base s1 e -> Fails base nunits s fs e :=
        fun e he => Or.inr (Or.inl ⟨s1, hgrown, he⟩)
      have hwithin : Within base s1 (s.brk + 4) := by
        right
        rw [hgrown.brk]
        lia
      have hnuend : nu < addrEnd := by lia
      have hstore := (store_meets hwithin (Or.inr rfl) hnuend).mono (fun _ hv => hv) hfails
      refine Meets.bind hstore ?_
      intro s2 hall
      rcases hall with ⟨hat, hunits, hother⟩
      have hs2 : Heap base s2 fs us := by
        apply h.grow
        · rw [hat.brk, hgrown.brk]
          exact ⟨by lia, hgrown.inside⟩
        · intro a ha
          rw [hat.mem a (Or.inl ha), hmem1]
        · rw [hat.freep, hfreep1]
      have hstop : (newBlock nunits s).stop = s.brk + growth nunits := rfl
      have hspare : Spare s2 fs us (newBlock nunits s) := by
        constructor
        · unfold Sized
          show headerSize * s2.mem.word (s.brk + 4) = growth nunits
          rw [hunits, hg]
        · refine ⟨htop.left, ?_, ?_⟩
          · exact Nat.le_of_eq (by rw [hstop, hat.brk, hgrown.brk])
          · show 0 < growth nunits
            lia
        · exact fun f hf => Or.inr (h.inside f (List.mem_append_left us hf)).high
        · exact fun v hv => Or.inr (h.inside v (List.mem_append_right fs hv)).high
      have hfails2 : forall e, Hole base s2 e -> Fails base nunits s fs e :=
        fun e he => hfails e (hat.toSameSpace.hole he)
      refine Meets.bind ((free_meets hs2 hspare).mono (fun _ hv => hv) hfails2) ?_
      intro s3 hall
      rcases hall with ⟨hheap, hspace, hmem⟩
      refine ⟨hheap, rfl, ⟨s1, hgrown, ?_⟩, ?_⟩
      · exact ⟨hspace.mapped.trans hat.mapped, hspace.brk.trans hat.brk⟩
      · intro a ha
        rw [hmem a ha, hat.mem a ?_, hmem1]
        have hown := ha.own
        unfold Extent.Covers at hown
        rw [hstop] at hown
        have haddr : (newBlock nunits s).addr = s.brk := rfl
        rw [haddr] at hown
        lia

end More

/-!
# The call
-/

/-- What a request gives out, and the free blocks behind it. -/
structure Allocated (base nunits : Nat) (s : Process) (fs us : List Extent)
    (r : Nat × Process) (b : Extent) (fs' : List Extent) : Prop where
  heap : Heap base r.2 fs' (b :: us)
  answer : r.1 = b.addr + headerSize
  len : b.len = headerSize * nunits
  space : (SameSpace s r.2 ∧ exists z, z ∈ fs ∧ headerSize * nunits ≤ z.len) ∨
    ((forall z, z ∈ fs -> z.len < headerSize * nunits) ∧
      exists s1, Grown (growth nunits) s s1 ∧ SameSpace s1 r.2)
  covered : forall a, Covered fs a ∨ (s.brk ≤ a ∧ a < r.2.brk) <-> b.Covers a ∨ Covered fs' a
  mem : forall a, Not (base ≤ a ∧ a < base + headerSize) -> Not (Covered fs a) ->
    Not (s.brk ≤ a ∧ a < r.2.brk) -> r.2.mem a = s.mem a

/-- The ring, or that it was not made yet. -/
inductive Ready (base : Nat) (s : Process) : List Extent -> List Extent -> Prop where
  | ring {fs us : List Extent} (h : Heap base s fs us) : Ready base s fs us
  | fresh (hfreep : s.freep = 0) (hbelow : 0 < base ∧ base + headerSize ≤ userHeapBase)
      (htop : userHeapBase ≤ s.brk ∧ s.brk < userHeapTop) : Ready base s [] []

section Malloc

variable {base nunits : Nat} {s s' : Process} {fs us : List Extent}

theorem taken_allocates (h : Heap base s fs us) (hpos : 0 < nunits) :
    forall xs z ys, fs = xs ++ z :: ys -> nunits ≤ s.mem.word (z.addr + 4) ->
      Meets (fun r => exists b fs', Allocated base nunits s fs us r b fs') (Hole base s)
        (takeBlock nunits (lastOf base xs) z.addr (s.mem.word (z.addr + 4)) s) := by
  intro xs z ys hsplit hfit
  subst hsplit
  have hfits : Fits base s xs ys us z nunits := ⟨h, hpos, hfit⟩
  refine (takeBlock_meets hfits).mono ?_ (fun _ he => he)
  intro r hr
  have hcut := cut_packed h.packed hfits.place.right.right.left
  refine ⟨_, _, hr.heap, hr.answer, rfl,
    Or.inl ⟨hr.space, z, hfits.mem, hfits.place.right.right.left⟩, ?_, ?_⟩
  · intro a
    rw [← hcut.right.left a]
    constructor
    · intro hor
      rcases hor with hold | hnew
      · exact hold
      · rw [hr.space.brk] at hnew
        lia
    · exact Or.inl
  · exact fun a hbase hnot _ => hr.mem a hbase hnot

theorem small_lt (h : Heap base s fs us) {z : Extent} (hz : z ∈ fs) (hsmall : Small s nunits z) :
    z.len < headerSize * nunits := by
  have hsized := h.ring.sizes z hz
  have hsize : headerSize = 8 := rfl
  unfold Sized at hsized
  unfold Small at hsmall
  lia

theorem growth_ge (nunits : Nat) : headerSize * nunits ≤ growth nunits := by
  unfold growth headerSize
  split
  · lia
  · lia

/-- The blocks behind a growth and a request from them. -/
theorem Allocated.behind {r : Nat × Process} {b : Extent} {fs' : List Extent}
    (hs : forall f, f ∈ fs -> Inside s f) (hpacked : Packed fs)
    (hsmall : forall z, z ∈ fs -> z.len < headerSize * nunits)
    (hmore : Refilled base nunits s fs us (s'.freep, s')) (hfit : SameSpace s' r.2)
    (h : Allocated base nunits s' (putBack (newBlock nunits s) fs) us r b fs') :
    Allocated base nunits s fs us r b fs' := by
  rcases hmore.grown with ⟨s1, hgrown, hspace⟩
  have hbrk : s'.brk = s.brk + growth nunits := hspace.brk.trans hgrown.brk
  have hbrk' : r.2.brk = s.brk + growth nunits := hfit.brk.trans hbrk
  have hpos : 0 < growth nunits := by
    unfold growth headerSize
    split
    · lia
    · lia
  have hnew : forall a, (newBlock nunits s).Covers a <-> s.brk ≤ a ∧ a < r.2.brk := by
    intro a
    rw [hbrk']
    exact Iff.rfl
  have hput := putBack_packed hpacked (b := newBlock nunits s) hpos
    (fun f hf => Or.inr (hs f hf).high)
  constructor
  · exact h.heap
  · exact h.answer
  · exact h.len
  · exact Or.inr ⟨hsmall, s1, hgrown, hfit.mapped.trans hspace.mapped, hfit.brk.trans hspace.brk⟩
  · intro a
    rw [← h.covered a, hput.right.left, hnew]
    constructor
    · intro hor
      rcases hor with hold | hin
      · exact Or.inl (Or.inr hold)
      · exact Or.inl (Or.inl hin)
    · intro hor
      rcases hor with (hin | hold) | hin
      · exact Or.inr hin
      · exact Or.inl hold
      · rw [hfit.brk] at hin
        lia
  · intro a hbase hnot hout
    have hcovered : Not (Covered (putBack (newBlock nunits s) fs) a) := by
      rw [hput.right.left, hnew]
      intro hor
      rcases hor with hin | hold
      · exact hout hin
      · exact hnot hold
    have hrest : Not (s'.brk ≤ a ∧ a < r.2.brk) := by
      rw [hfit.brk]
      lia
    rw [h.mem a hbase hcovered hrest]
    exact hmore.mem a ⟨hbase, hnot, fun hown => hout ((hnew a).mp hown)⟩

theorem mallocFrom_meets (h : Heap base s fs us) (hlow : s.mapped 0 = false)
    (hpos : 0 < nunits) (hmax : nunits < 0x20000000) :
    Meets (fun r => exists b fs', Allocated base nunits s fs us r b fs')
      (Fails base nunits s fs)
      (mallocFrom nunits (2 * visits) s.freep (s.mem.word s.freep) s) := by
  have hvisits : visits = 0x100000000 := rfl
  have hlength := h.length_lt
  have hfuel : 2 * visits = 2 * visits - (fs.length + 1) + (fs.length + 1) := by lia
  rw [hfuel]
  apply loop_meets h hpos (fun e he => Or.inl he)
  · exact fun xs z ys hsplit hfit =>
      (taken_allocates h hpos xs z ys hsplit hfit).mono (fun _ hr => hr)
        (fun _ he => Or.inl he)
  intro hsmall
  have hsmall' : forall z, z ∈ fs -> z.len < headerSize * nunits :=
    fun z hz => small_lt h hz (hsmall z hz)
  unfold refill
  apply Meets.bind (morecore_meets h hlow hpos hmax hsmall')
  intro r hmore
  rcases r with ⟨p, s'⟩
  have hheap := hmore.heap
  have hp : p = s'.freep := hmore.answer
  subst hp
  dsimp only at hheap ⊢
  rcases hmore.grown with ⟨s1, hgrown, hspace⟩
  have hholes : forall e, Hole base s' e -> Fails base nunits s fs e :=
    fun e he => Or.inr (Or.inl ⟨s1, hgrown, hspace.hole he⟩)
  rw [if_neg hheap.freep_pos]
  have hin : Within base s' s'.freep := by
    rcases hheap.freep with heq | ⟨f, hf, heq⟩
    · exact within_base base s' (Or.inl heq)
    · rw [heq]
      exact (hheap.block_within hf).left
  apply Meets.bind ((load_meets hin).mono (fun _ hv => hv) hholes)
  intro next heq
  subst heq
  have hlength' := hheap.length_lt
  have hfuel' : 2 * visits - (fs.length + 1) =
      2 * visits - (fs.length + 1) - ((putBack (newBlock nunits s) fs).length + 1) +
        ((putBack (newBlock nunits s) fs).length + 1) := by lia
  rw [hfuel']
  apply loop_meets hheap hpos hholes
  · intro xs z ys hsplit hfit
    refine (taken_allocates hheap hpos xs z ys hsplit hfit).mono ?_ hholes
    intro r hex
    rcases hex with ⟨b, fs', hr⟩
    refine ⟨b, fs', hr.behind (fun f hf => h.inside f (List.mem_append_left us hf)) h.packed
      hsmall' hmore ?_⟩
    rcases hr.space with ⟨hsame, -⟩ | ⟨hnone, -⟩
    · exact hsame
    · rcases exists_len_putBack (newBlock nunits s) fs with ⟨c, hc, hle⟩
      have hlt := hnone c hc
      have hge := growth_ge nunits
      have hlen : (newBlock nunits s).len = growth nunits := rfl
      lia
  · intro hnone
    rcases exists_len_putBack (newBlock nunits s) fs with ⟨c, hc, hle⟩
    have hlt := small_lt hheap hc (hnone c hc)
    have hge := growth_ge nunits
    have hlen : (newBlock nunits s).len = growth nunits := rfl
    lia

/-- `malloc`, from the first call on: a block, or a page fault. -/
theorem malloc_meets (h : Ready base s fs us) (hlow : s.mapped 0 = false) {nbytes : Nat}
    (hbytes : nbytes + 2 * headerSize ≤ addrEnd) :
    Meets (fun r => exists b fs', Allocated base (unitsOf nbytes) s fs us r b fs')
      (Fails base (unitsOf nbytes) s fs) (malloc base nbytes s) := by
  have hsize : headerSize = 8 := rfl
  have hend : addrEnd = 0x100000000 := rfl
  have hunits : unitsOf nbytes = (nbytes + headerSize - 1) / headerSize + 1 := by
    unfold unitsOf
    rw [Nat.mod_eq_of_lt (by lia)]
  have hpos : 0 < unitsOf nbytes := Nat.succ_pos _
  have hmax : unitsOf nbytes < 0x20000000 := by
    rw [hunits]
    lia
  unfold malloc
  dsimp only
  cases h with
  | ring h =>
      have hinit : initRing base s = Except.ok s := by
        unfold initRing
        rw [if_neg h.freep_pos]
      have hin : Within base s s.freep := by
        rcases h.freep with heq | ⟨f, hf, heq⟩
        · exact within_base base s (Or.inl heq)
        · rw [heq]
          exact (h.block_within hf).left
      rw [hinit, ok_bind]
      apply Meets.bind ((load_meets hin).mono (fun _ hv => hv) (fun _ he => Or.inl he))
      intro p heq
      subst heq
      exact mallocFrom_meets h hlow hpos hmax
  | fresh hfreep hbelow htop =>
      have htopEq := userHeapTop_eq
      have hbaseEq := userHeapBase_eq
      unfold initRing
      rw [if_pos hfreep]
      have hholes : forall {s1 : Process}, SameSpace s s1 -> forall e, Hole base s1 e ->
          Fails base (unitsOf nbytes) s [] e :=
        fun hspace e he => Or.inl (hspace.hole he)
      have hringMeets : Meets (fun s1 => Heap base s1 [] [] ∧ SameSpace s s1 ∧
          forall a, Not (base ≤ a ∧ a < base + headerSize) -> s1.mem a = s.mem a)
          (Fails base (unitsOf nbytes) s []) (do
            let s <- s.store base base
            let s <- s.store (base + 4) 0
            Except.ok { s with freep := base }) := by
        refine Meets.bind ((store_meets (within_base base s (Or.inl rfl)) (Or.inl rfl)
          (by lia)).mono (fun _ hv => hv) (hholes ⟨rfl, rfl⟩)) ?_
        intro s1 hall
        rcases hall with ⟨hat1, hlink, -⟩
        have hin : Within base s1 (base + 4) := within_base base s1 (Or.inr rfl)
        refine Meets.bind ((store_meets hin (Or.inr rfl) (by lia)).mono (fun _ hv => hv)
          (hholes hat1.toSameSpace)) ?_
        intro s2 hall
        rcases hall with ⟨hat2, hzero, hother⟩
        have hbrk : s2.brk = s.brk := hat2.brk.trans hat1.brk
        refine ⟨?_, ⟨hat2.mapped.trans hat1.mapped, hbrk⟩, ?_⟩
        · constructor
          · refine linked_nil.mpr ?_
            show s2.mem.word base = base
            rw [hother _ (Or.inl (Nat.le_refl _)), hlink]
          · exact hzero
          · exact packed_nil
          · exact Or.inl rfl
          · exact fun u hu => (List.not_mem_nil hu).elim
          · exact fun b hb => (List.not_mem_nil hb).elim
          · exact List.Pairwise.nil
          · exact fun f u hf => (List.not_mem_nil hf).elim
          · exact hbelow
          · show userHeapBase ≤ s2.brk ∧ s2.brk < userHeapTop
            rw [hbrk]
            exact htop
        · intro a ha
          have hout : a < base ∨ base + headerSize ≤ a := by lia
          show s2.mem a = s.mem a
          rw [hat2.mem a hout, hat1.mem a hout]
      refine Meets.bind hringMeets ?_
      intro s1 hall
      rcases hall with ⟨h1, hspace, hmem⟩
      have hin : Within base s1 s1.freep := by
        rcases h1.freep with heq | ⟨f, hf, -⟩
        · exact within_base base s1 (Or.inl heq)
        · cases hf
      apply Meets.bind ((load_meets hin).mono (fun _ hv => hv) (hholes hspace))
      intro p heq
      subst heq
      have hlow1 : s1.mapped 0 = false := by
        rw [hspace.mapped]
        exact hlow
      refine (mallocFrom_meets h1 hlow1 hpos hmax).mono ?_ ?_
      · intro r hex
        rcases hex with ⟨b, fs', hr⟩
        refine ⟨b, fs', hr.heap, hr.answer, hr.len, ?_, ?_, ?_⟩
        · rcases hr.space with ⟨hsame, hfit⟩ | ⟨hnone, s2, hgrown, hsame⟩
          · exact Or.inl
              ⟨⟨hsame.mapped.trans hspace.mapped, hsame.brk.trans hspace.brk⟩, hfit⟩
          · exact Or.inr ⟨hnone, s2, hspace.grown hgrown, hsame⟩
        · intro a
          rw [← hspace.brk]
          exact hr.covered a
        · intro a hbase hnot hout
          rw [← hspace.brk] at hout
          rw [hr.mem a hbase hnot hout, hmem a hbase]
      · intro e hor
        rcases hor with hhole | ⟨s2, hgrown, hhole⟩ | ⟨hnone, hno, heq⟩
        · exact Or.inl (hspace.hole hhole)
        · exact Or.inr (Or.inl ⟨s2, hspace.grown hgrown, hhole⟩)
        · exact Or.inr (Or.inr ⟨hnone, fun h => hno (hspace.grants.mpr h), heq⟩)

end Malloc

end Malloc
end User
end NicoOS
