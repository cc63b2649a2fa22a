import NicoOS.User.Malloc.Free

/-!
# Taking a block out

`malloc` unlinks a block of the right size, or cuts the end off a larger one.
-/

namespace NicoOS
namespace User
namespace Malloc

open Lib
open Kernel.Vm (pgSize userHeapBase userHeapTop)

section Take

variable {base nunits : Nat} {s s2 : Process} {z : Extent} {fs us xs ys : List Extent}

/-- The block `z` between the free blocks `xs` and `ys` is large enough. -/
structure Fits (base : Nat) (s : Process) (xs ys us : List Extent) (z : Extent) (nunits : Nat) :
    Prop where
  heap : Heap base s (xs ++ z :: ys) us
  positive : 0 < nunits
  enough : nunits ≤ s.mem.word (z.addr + 4)

theorem Fits.mem (_ : Fits base s xs ys us z nunits) : z ∈ xs ++ z :: ys :=
  List.mem_append_right xs List.mem_cons_self

theorem Fits.place (h : Fits base s xs ys us z nunits) :
    base + headerSize ≤ z.addr ∧ headerSize * s.mem.word (z.addr + 4) = z.len ∧
      headerSize * nunits ≤ z.len ∧ z.stop < addrEnd ∧
        (forall x, x ∈ xs -> x.addr + headerSize ≤ z.addr ∧ x.stop < z.addr) ∧
          forall y, y ∈ ys -> z.stop < y.addr := by
  have hsize : headerSize = 8 := rfl
  have hend : addrEnd = 0x100000000 := rfl
  have hin := h.heap.inside z (List.mem_append_left us h.mem)
  have hsized := h.heap.ring.sizes z h.mem
  have hlow := hin.low
  have hhigh := hin.high
  have hbelow := h.heap.below
  have htop := h.heap.top
  have henough := h.enough
  have hgaps := List.pairwise_append.mp h.heap.packed.gaps
  unfold Sized at hsized
  rw [userHeapTop_eq] at htop
  refine ⟨by lia, hsized, by lia, by lia, ?_, ?_⟩
  · intro x hx
    have hall : x ∈ xs ++ z :: ys := List.mem_append_left _ hx
    have hlt := hgaps.right.right x hx z List.mem_cons_self
    have hlen := (h.heap.ring.sizes x hall).eight_le
      (h.heap.inside x (List.mem_append_left us hall)).nonempty
    have hstop : x.stop = x.addr + x.len := rfl
    exact ⟨by lia, hlt⟩
  · exact (List.pairwise_cons.mp hgaps.right.left).left

/-- The ring without the block, or with what is left of it, is that of a heap. -/
theorem Fits.taken (h : Fits base s xs ys us z nunits) (hspace : SameSpace s s2)
    (hring : Linked s2.mem base (xs ++ cut (headerSize * nunits) z ++ ys) base)
    (hempty : s2.mem.word (base + 4) = 0)
    (hsized : Sized s2.mem (cutOff (headerSize * nunits) z))
    (hmem : forall a, Not (base ≤ a ∧ a < base + headerSize) ->
      Not (Covered (xs ++ z :: ys) a) -> s2.mem a = s.mem a) :
    Heap base { s2 with freep := lastOf base xs } (xs ++ cut (headerSize * nunits) z ++ ys)
      (cutOff (headerSize * nunits) z :: us) := by
  have hheap := h.heap
  have hsize : headerSize = 8 := rfl
  have hpos := h.positive
  rcases h.place with ⟨hbelow, hlen, hfit, hlt, hxs, hys⟩
  rcases cut_packed hheap.packed hfit with ⟨hpacked, hcovered, -⟩
  have hzstop : z.stop = z.addr + z.len := rfl
  have hofflen : 0 < (cutOff (headerSize * nunits) z).len := by
    show 0 < headerSize * nunits
    lia
  have hoffin : forall a, (cutOff (headerSize * nunits) z).Covers a -> z.Covers a :=
    fun a ha => (covered_cut hfit).mpr (Or.inl ha)
  have hzin := hheap.inside z (List.mem_append_left us h.mem)
  have hall : forall a, Covered (xs ++ cut (headerSize * nunits) z ++ ys) a ->
      Covered (xs ++ z :: ys) a := fun a ha => (hcovered a).mpr (Or.inr ha)
  constructor
  · exact hring
  · exact hempty
  · exact hpacked
  · rcases List.eq_nil_or_concat' xs with hnil | ⟨rest, x, heq⟩
    · left
      rw [hnil]
      rfl
    · right
      refine ⟨x, ?_, ?_⟩
      · rw [heq]
        simp
      · rw [heq, lastOf_concat]
  · intro v hv
    cases List.mem_cons.mp hv with
    | inl heq =>
        rw [heq]
        exact hsized
    | inr hmemv =>
        have hvin := hheap.inside v (List.mem_append_right _ hmemv)
        have hvsized := hheap.used v hmemv
        have height := hvsized.eight_le hvin.nonempty
        have hvlow := hvin.low
        have hbase := hheap.below
        have hvstop : v.stop = v.addr + v.len := rfl
        have hword : s2.mem.word (v.addr + 4) = s.mem.word (v.addr + 4) := by
          apply Memory.word_congr
          intro x hx1 hx2
          have hcovers : v.Covers x := ⟨by lia, by lia⟩
          apply hmem
          · lia
          · intro hex
            rcases hex with ⟨f, hf, hfcovers⟩
            exact (hheap.cross f v hf hmemv).not_covers hfcovers hcovers
        unfold Sized at *
        show headerSize * s2.mem.word (v.addr + 4) = v.len
        rw [hword]
        exact hvsized
  · intro c hc
    have hcin : Inside s c := by
      rcases List.mem_append.mp hc with hc | hc
      · apply Inside.of_covered (hpacked.nonempty c hc)
        intro a ha
        rcases hall a ⟨c, hc, ha⟩ with ⟨f, hf, hcovers⟩
        exact (hheap.inside f (List.mem_append_left us hf)).covers hcovers
      · cases List.mem_cons.mp hc with
        | inl heq =>
            rw [heq]
            exact Inside.of_covered hofflen (fun a ha => hzin.covers (hoffin a ha))
        | inr hmemc => exact hheap.inside c (List.mem_append_right _ hmemc)
    exact ⟨hcin.low, hspace.brk ▸ hcin.high, hcin.nonempty⟩
  · refine List.pairwise_cons.mpr ⟨?_, hheap.apart⟩
    intro v hv
    have hvin := hheap.inside v (List.mem_append_right _ hv)
    apply Extent.apart_of_not_covers hofflen hvin.nonempty
    exact fun a ha => (hheap.cross z v h.mem hv).not_covers (hoffin a ha)
  · intro c v hc hv
    cases List.mem_cons.mp hv with
    | inl heq =>
        rw [heq]
        have hoffaddr : (cutOff (headerSize * nunits) z).addr = z.stop - headerSize * nunits := rfl
        have hoffstop : (cutOff (headerSize * nunits) z).stop =
            z.stop - headerSize * nunits + headerSize * nunits := rfl
        rcases List.mem_append.mp hc with hc | hc
        · rcases List.mem_append.mp hc with hc | hc
          · have hbefore := hxs c hc
            exact Or.inl (by lia)
          · unfold cut at hc
            split at hc
            · exact (List.not_mem_nil hc).elim
            · rw [List.mem_singleton.mp hc]
              left
              show z.addr + (z.len - headerSize * nunits) ≤ _
              lia
        · have hbehind := hys c hc
          exact Or.inr (by lia)
    | inr hmemv =>
        have hvin := hheap.inside v (List.mem_append_right _ hmemv)
        apply Extent.apart_of_not_covers (hpacked.nonempty c hc) hvin.nonempty
        intro a ha
        rcases hall a ⟨c, hc, ha⟩ with ⟨f, hf, hcovers⟩
        exact (hheap.cross f v hf hmemv).not_covers hcovers
  · exact hheap.below
  · show userHeapBase ≤ s2.brk ∧ s2.brk < userHeapTop
    rw [hspace.brk]
    exact hheap.top

/-- What `malloc` makes of a block that is large enough. -/
structure Took (base : Nat) (s : Process) (xs ys us : List Extent) (z : Extent) (nunits : Nat)
    (r : Nat × Process) : Prop where
  heap : Heap base r.2 (xs ++ cut (headerSize * nunits) z ++ ys)
    (cutOff (headerSize * nunits) z :: us)
  answer : r.1 = (cutOff (headerSize * nunits) z).addr + headerSize
  space : SameSpace s r.2
  mem : forall a, Not (base ≤ a ∧ a < base + headerSize) ->
    Not (Covered (xs ++ z :: ys) a) -> r.2.mem a = s.mem a

/-- The header before the block lies below it, and no byte of the program is in it. -/
theorem Fits.last (h : Fits base s xs ys us z nunits) :
    lastOf base xs + headerSize ≤ z.addr ∧ Within base s (lastOf base xs) ∧
      forall a, Not (base ≤ a ∧ a < base + headerSize) -> Not (Covered (xs ++ z :: ys) a) ->
        a < lastOf base xs ∨ lastOf base xs + headerSize ≤ a := by
  have hsize : headerSize = 8 := rfl
  rcases h.place with ⟨hbelow, -, -, -, hxs, -⟩
  rcases List.eq_nil_or_concat' xs with hnil | ⟨rest, x, hxs'⟩
  · rw [hnil, lastOf_nil]
    exact ⟨hbelow, within_base base s (Or.inl rfl), fun a ha _ => by lia⟩
  · have hmem : x ∈ xs := by
      rw [hxs']
      exact List.mem_append_right rest List.mem_cons_self
    have hall : x ∈ xs ++ z :: ys := List.mem_append_left _ hmem
    have hxin := h.heap.inside x (List.mem_append_left us hall)
    have hxlen := (h.heap.ring.sizes x hall).eight_le hxin.nonempty
    have hxstop : x.stop = x.addr + x.len := rfl
    rw [hxs', lastOf_concat, ← hxs']
    refine ⟨(hxs x hmem).left, hxin.within (h.heap.ring.sizes x hall) (Or.inl rfl), ?_⟩
    intro a _ hnot
    have hout : Not (x.Covers a) := fun hcovers => hnot ⟨x, hall, hcovers⟩
    unfold Extent.Covers at hout
    lia

/-- The header before the block gets the link of the block. -/
theorem Fits.unlinked (h : Fits base s xs ys us z nunits) (hat : AtHeader (lastOf base xs) s s2)
    (hlink : s2.mem.word (lastOf base xs) = s.mem.word z.addr)
    (hother : forall c, c + 4 ≤ lastOf base xs ∨ lastOf base xs + 4 ≤ c ->
      s2.mem.word c = s.mem.word c) :
    Linked s2.mem base (xs ++ ys) base ∧ s2.mem.word (base + 4) = 0 := by
  have hsize : headerSize = 8 := rfl
  rcases h.place with ⟨-, hlen, -, -, -, hys⟩
  have hlast := h.last.left
  have hparts := linked_append.mp h.heap.ring
  have hzstop : z.stop = z.addr + z.len := rfl
  have htail : Linked s2.mem z.addr ys base := by
    apply hparts.right.right.kept hat (Or.inr hlast)
    intro y hy
    have hbehind := hys y hy
    exact Or.inr (by lia)
  have hrest : Linked s2.mem (lastOf base xs) ys base := by
    apply htail.restart
    rw [hlink, hat.word (Or.inr (by lia))]
  rcases List.eq_nil_or_concat' xs with hnil | ⟨rest, x, hxs⟩
  · rw [hnil, lastOf_nil] at hrest hother
    rw [hnil, List.nil_append]
    exact ⟨hrest, (hother _ (Or.inr (Nat.le_refl _))).trans h.heap.empty⟩
  · have hheap := h.heap
    rw [hxs, List.append_assoc, List.singleton_append] at hheap
    have hprev := hheap.previous
    have hlow := hprev.low
    rw [hxs, lastOf_concat] at hat hrest hother
    rw [hxs, List.append_assoc, List.singleton_append]
    constructor
    · refine linked_append.mpr ⟨?_, ?_, hrest⟩
      · exact hprev.links.kept hat (Or.inl hlow) (fun c hc => Or.inl (hprev.below c hc))
      · have hsized := hprev.sized
        unfold Sized at hsized ⊢
        rw [hother _ (Or.inr (Nat.le_refl _))]
        exact hsized
    · rw [hat.word (Or.inl (by lia))]
      exact h.heap.empty

theorem takeBlock_exact (h : Fits base s xs ys us z nunits)
    (heq : s.mem.word (z.addr + 4) = nunits) :
    Meets (Took base s xs ys us z nunits) (Hole base s)
      (takeBlock nunits (lastOf base xs) z.addr (s.mem.word (z.addr + 4)) s) := by
  have hsize : headerSize = 8 := rfl
  have hlen := h.place.right.left
  have hin := h.heap.inside z (List.mem_append_left us h.mem)
  have hsized := h.heap.ring.sizes z h.mem
  have hzlen : z.len = headerSize * nunits := by lia
  have hcut : cut (headerSize * nunits) z = [] := if_pos hzlen
  have hoff : cutOff (headerSize * nunits) z = z := by
    unfold cutOff Extent.stop
    rw [← hzlen, Nat.add_sub_cancel]
  rcases h.last with ⟨hlast, hpin, hout⟩
  unfold takeBlock
  rw [if_pos heq]
  apply Meets.bind (load_meets (hin.within hsized (Or.inl rfl)))
  intro next hread
  rw [hread]
  have hnext : s.mem.word z.addr < addrEnd := by
    rw [(linked_append.mp h.heap.ring).right.right.first]
    apply h.heap.next_lt
    exact fun y hy => List.mem_append_right xs (List.mem_cons_of_mem z hy)
  apply Meets.bind (store_meets hpin (Or.inl rfl) hnext)
  intro s2 hstored
  rcases hstored with ⟨hat, hlink, hother⟩
  rcases h.unlinked hat hlink hother with ⟨hring, hempty⟩
  have hmem : forall a, Not (base ≤ a ∧ a < base + headerSize) ->
      Not (Covered (xs ++ z :: ys) a) -> s2.mem a = s.mem a :=
    fun a hbase hnot => hat.mem a (hout a hbase hnot)
  have hring2 : Linked s2.mem base (xs ++ cut (headerSize * nunits) z ++ ys) base := by
    rw [hcut, List.append_nil]
    exact hring
  have hsized2 : Sized s2.mem (cutOff (headerSize * nunits) z) := by
    rw [hoff]
    exact hsized.kept hat (Or.inr hlast)
  refine ⟨h.taken hat.toSameSpace hring2 hempty hsized2 hmem, ?_, ⟨hat.mapped, hat.brk⟩, hmem⟩
  rw [hoff]

theorem takeBlock_cut (h : Fits base s xs ys us z nunits)
    (hne : s.mem.word (z.addr + 4) ≠ nunits) :
    Meets (Took base s xs ys us z nunits) (Hole base s)
      (takeBlock nunits (lastOf base xs) z.addr (s.mem.word (z.addr + 4)) s) := by
  have hsize : headerSize = 8 := rfl
  have hend : addrEnd = 0x100000000 := rfl
  have henough := h.enough
  have hpos := h.positive
  rcases h.place with ⟨hbelow, hlen, hfit, hlt, hxs, hys⟩
  have hin := h.heap.inside z (List.mem_append_left us h.mem)
  have hlow := hin.low
  have hhigh := hin.high
  have hsized := h.heap.ring.sizes z h.mem
  have hparts := linked_append.mp h.heap.ring
  have hzstop : z.stop = z.addr + z.len := rfl
  have hzlen : z.len ≠ headerSize * nunits := by lia
  have hcut : cut (headerSize * nunits) z =
      [{ addr := z.addr, len := z.len - headerSize * nunits }] := by
    unfold cut
    rw [if_neg hzlen]
  have hoff : (cutOff (headerSize * nunits) z).addr = z.stop - headerSize * nunits := rfl
  unfold takeBlock
  rw [if_neg hne]
  apply Meets.bind (store_meets (hin.within hsized (Or.inr rfl)) (Or.inr rfl) (by lia))
  intro s1 hall
  rcases hall with ⟨hat1, hleft, hother1⟩
  have hwithin : forall {a}, Within base s a -> Within base s1 a :=
    fun ha => hat1.toSameSpace.within.mpr ha
  have hholes : forall e, Hole base s1 e -> Hole base s e :=
    fun e he => hat1.toSameSpace.hole he
  apply Meets.bind ((load_meets (hwithin (hin.within hsized (Or.inr rfl)))).mono
    (fun _ hv => hv) hholes)
  intro left heq
  subst heq
  have hq : offset z.addr (s1.mem.word (z.addr + 4)) = z.stop - headerSize * nunits := by
    unfold offset
    rw [hleft, Nat.mod_eq_of_lt (by lia)]
    lia
  rw [hq, ← hoff]
  have hqin : Within base s1 ((cutOff (headerSize * nunits) z).addr + 4) := by
    apply hwithin
    rw [hoff]
    right
    lia
  refine Meets.bind ((store_meets hqin (Or.inr rfl) (by lia)).mono (fun _ hv => hv) hholes) ?_
  intro s2 hall
  rcases hall with ⟨hat2, hunits, hother2⟩
  have hqplace : z.addr + headerSize ≤ (cutOff (headerSize * nunits) z).addr := by
    rw [hoff]
    lia
  have hspace : SameSpace s s2 :=
    ⟨hat2.mapped.trans hat1.mapped, hat2.brk.trans hat1.brk⟩
  have hmem : forall a, Not (base ≤ a ∧ a < base + headerSize) ->
      Not (Covered (xs ++ z :: ys) a) -> s2.mem a = s.mem a := by
    intro a _ hnot
    have hout : Not (z.Covers a) := fun hcovers => hnot ⟨z, h.mem, hcovers⟩
    unfold Extent.Covers at hout
    rw [hat2.mem a (by lia), hat1.mem a (by lia)]
  have hempty : s2.mem.word (base + 4) = 0 := by
    rw [hat2.word (Or.inl (by lia)), hat1.word (Or.inl (by lia)), h.heap.empty]
  have hsized2 : Sized s2.mem (cutOff (headerSize * nunits) z) := by
    unfold Sized
    rw [hunits]
    rfl
  have hring : Linked s2.mem base (xs ++ cut (headerSize * nunits) z ++ ys) base := by
    rw [hcut, List.append_assoc, List.singleton_append]
    refine linked_append.mpr ⟨?_, ?_, ?_⟩
    · have hfront := hparts.left.kept hat1 (Or.inl (by lia))
        (fun c hc => Or.inl (hxs c hc).left)
      exact hfront.kept hat2 (Or.inl (by lia)) (fun c hc => by
        have hc1 := (hxs c hc).left
        exact Or.inl (by lia))
    · unfold Sized
      show headerSize * s2.mem.word (z.addr + 4) = z.len - headerSize * nunits
      rw [hat2.word (Or.inl (by lia)), hleft]
      lia
    · have hword : s2.mem.word z.addr = s.mem.word z.addr := by
        rw [hat2.word (Or.inl (by lia)), hother1 _ (Or.inl (Nat.le_refl _))]
      apply hparts.right.right.congr hword
      intro y hy
      have hbehind := hys y hy
      constructor
      · rw [hat2.word (Or.inr (by lia)), hat1.word (Or.inr (by lia))]
      · rw [hat2.word (Or.inr (by lia)), hat1.word (Or.inr (by lia))]
  exact ⟨h.taken hspace hring hempty hsized2 hmem, rfl, ⟨hspace.mapped, hspace.brk⟩, hmem⟩

theorem takeBlock_meets (h : Fits base s xs ys us z nunits) :
    Meets (Took base s xs ys us z nunits) (Hole base s)
      (takeBlock nunits (lastOf base xs) z.addr (s.mem.word (z.addr + 4)) s) := by
  cases Classical.em (s.mem.word (z.addr + 4) = nunits) with
  | inl heq => exact takeBlock_exact h heq
  | inr hne => exact takeBlock_cut h hne

end Take

end Malloc
end User
end NicoOS
