import NicoOS.User.Malloc.Ring

/-!
# Putting a block back

`free` writes two headers.  Behind it the ring is the list with the block put back, and what the
program holds is as before.
-/

namespace NicoOS
namespace User
namespace Malloc

open Lib
open Kernel.Vm (pgSize userHeapBase userHeapTop)

section Joins

variable {base p lo a e : Nat} {s s1 s2 : Process} {b u : Extent} {bs fs us xs ys : List Extent}

theorem Sized.kept (h : Sized s.mem b) (hat : AtHeader lo s s1)
    (hb : b.addr + headerSize ≤ lo ∨ lo + headerSize ≤ b.addr) : Sized s1.mem b := by
  have hsize : headerSize = 8 := rfl
  unfold Sized at *
  rw [hat.word (by lia)]
  exact h

theorem Linked.kept (h : Linked s.mem p bs e) (hat : AtHeader lo s s1)
    (hp : p + headerSize ≤ lo ∨ lo + headerSize ≤ p)
    (hbs : forall b, b ∈ bs -> b.addr + headerSize ≤ lo ∨ lo + headerSize ≤ b.addr) :
    Linked s1.mem p bs e := by
  have hsize : headerSize = 8 := rfl
  apply h.congr
  · exact hat.word (by lia)
  · intro b hb
    have hapart := hbs b hb
    exact ⟨hat.word (by lia), hat.word (by lia)⟩

/-- The last header before some blocks leads to the first of them. -/
theorem Linked.last {mem : Memory} (h : Linked mem p (xs ++ ys) e) :
    mem.word (lastOf p xs) = (ys.map Extent.addr).headD e := by
  induction xs generalizing p with
  | nil => exact h.first
  | cons x rest ih =>
      rw [lastOf_cons]
      exact ih (linked_cons.mp h).right.right

theorem Heap.stop_lt (h : Heap base s fs us) (hb : b ∈ fs) : b.stop < addrEnd := by
  have hhigh := (h.inside b (List.mem_append_left us hb)).high
  have htop := h.top
  have hend : addrEnd = 0x100000000 := rfl
  rw [userHeapTop_eq] at htop
  lia

theorem Heap.next_lt (h : Heap base s fs us) (hys : forall y, y ∈ ys -> y ∈ fs) :
    (ys.map Extent.addr).headD base < addrEnd := by
  have hend : addrEnd = 0x100000000 := rfl
  have htop := h.top
  have hbelow := h.below
  rw [userHeapTop_eq] at htop
  cases ys with
  | nil =>
      show base < addrEnd
      lia
  | cons y more =>
      have hlt := h.stop_lt (hys y List.mem_cons_self)
      have hstop : y.stop = y.addr + y.len := rfl
      show y.addr < addrEnd
      lia

/-- A free block, and those before it in the ring. -/
structure Previous (base : Nat) (s : Process) (rest : List Extent) (x : Extent) : Prop where
  links : Linked s.mem base rest x.addr
  sized : Sized s.mem x
  low : base + headerSize ≤ x.addr
  below : forall c, c ∈ rest -> c.addr + headerSize ≤ x.addr

theorem Heap.previous {rest : List Extent} {x : Extent} (h : Heap base s (rest ++ x :: ys) us) :
    Previous base s rest x := by
  have hparts := linked_append.mp h.ring
  have hgaps := (List.pairwise_append.mp h.packed.gaps).right.right
  have hx : x ∈ rest ++ x :: ys := List.mem_append_right rest List.mem_cons_self
  constructor
  · exact hparts.left
  · exact hparts.right.left
  · have hlow := (h.inside x (List.mem_append_left us hx)).low
    have hbelow := h.below
    lia
  · intro c hc
    have hall : c ∈ rest ++ x :: ys := List.mem_append_left _ hc
    have hlt := hgaps c hc x List.mem_cons_self
    have hlen := (h.ring.sizes c hall).eight_le (h.inside c (List.mem_append_left us hall)).nonempty
    have hstop : c.stop = c.addr + c.len := rfl
    lia

theorem Previous.kept {rest : List Extent} {x : Extent} (h : Previous base s rest x)
    (hat : AtHeader a s s1) (hx : x.addr + headerSize ≤ a) : Previous base s1 rest x := by
  have hlow := h.low
  constructor
  · apply h.links.kept hat (Or.inl (by lia))
    intro c hc
    have hle := h.below c hc
    exact Or.inl (by lia)
  · exact h.sized.kept hat (Or.inl hx)
  · exact hlow
  · exact h.below

/-- A block between the free ones before it and those behind it. -/
structure Between (base : Nat) (s : Process) (xs ys us : List Extent) (u : Extent) : Prop where
  heap : Heap base s (xs ++ ys) us
  spare : Spare s (xs ++ ys) us u
  before : forall x, x ∈ xs -> x.stop ≤ u.addr
  behind : forall y, y ∈ ys -> u.stop ≤ y.addr

theorem Between.word_lt (h : Between base s xs ys us u) :
    0 < base ∧ base + headerSize ≤ u.addr ∧ u.addr + headerSize ≤ u.stop ∧ u.stop < addrEnd ∧
      headerSize * s.mem.word (u.addr + 4) = u.len := by
  have hbelow := h.heap.below
  have htop := h.heap.top
  have hlow := h.spare.inside.low
  have hhigh := h.spare.inside.high
  have height := h.spare.sized.eight_le h.spare.inside.nonempty
  have hstop : u.stop = u.addr + u.len := rfl
  have hend : addrEnd = 0x100000000 := rfl
  rw [userHeapTop_eq] at htop
  refine ⟨hbelow.left, by lia, by lia, by lia, h.spare.sized⟩

theorem offset_sized {mem : Memory} (h : Sized mem b) (hlt : b.stop < addrEnd) :
    offset b.addr (mem.word (b.addr + 4)) = b.stop := by
  unfold offset
  unfold Sized at h
  rw [h]
  exact Nat.mod_eq_of_lt hlt

theorem Between.free_within (h : Between base s xs ys us u) {y : Extent} (hy : y ∈ xs ++ ys)
    (ha : a = y.addr ∨ a = y.addr + 4) : Within base s a :=
  (h.heap.inside y (List.mem_append_left us hy)).within (h.heap.ring.sizes y hy) ha

theorem Between.own_within (h : Between base s xs ys us u) (ha : a = u.addr ∨ a = u.addr + 4) :
    Within base s a :=
  h.spare.inside.within h.spare.sized ha

/-- The header that the search finds lies below the block. -/
theorem Between.last (h : Between base s xs ys us u) :
    lastOf base xs + headerSize ≤ u.addr ∧ Within base s (lastOf base xs) ∧
      Within base s (lastOf base xs + 4) := by
  rcases List.eq_nil_or_concat' xs with hnil | ⟨rest, x, hxs⟩
  · rw [hnil, lastOf_nil]
    exact ⟨h.word_lt.right.left, within_base base s (Or.inl rfl), within_base base s (Or.inr rfl)⟩
  · have hmem : x ∈ xs := by
      rw [hxs]
      exact List.mem_append_right rest List.mem_cons_self
    have hall : x ∈ xs ++ ys := List.mem_append_left ys hmem
    have hle := h.before x hmem
    have height := (h.heap.ring.sizes x hall).eight_le
      (h.heap.inside x (List.mem_append_left us hall)).nonempty
    have hstop : x.stop = x.addr + x.len := rfl
    rw [hxs, lastOf_concat]
    exact ⟨by lia, h.free_within hall (Or.inl rfl), h.free_within hall (Or.inr rfl)⟩

/-- What the first `if` leaves: the block, perhaps joined with the next one, and the others. -/
structure Hooked (base : Nat) (s1 : Process) (ys : List Extent) (u u1 : Extent)
    (ys1 : List Extent) : Prop where
  front : putFront u ys = u1 :: ys1
  addr : u1.addr = u.addr
  sized : Sized s1.mem u1
  links : Linked s1.mem u.addr ys1 base
  later : forall y, y ∈ ys1 -> y ∈ ys

theorem joinNext_meets (h : Between base s xs ys us u) :
    Meets (fun s1 => AtHeader u.addr s s1 ∧ exists u1 ys1, Hooked base s1 ys u u1 ys1)
      (Hole base s) (joinNext u.addr (lastOf base xs) s) := by
  have hsize : headerSize = 8 := rfl
  have hend : addrEnd = 0x100000000 := rfl
  have hword := h.word_lt
  have hnext := h.heap.ring.last
  have hoffset := offset_sized h.spare.sized hword.right.right.right.left
  rcases h.last with ⟨hbelow, hpin, -⟩
  generalize lastOf base xs = p at hbelow hnext hpin
  unfold joinNext
  apply Meets.bind (load_meets hpin)
  intro next heq
  subst heq
  apply Meets.bind (load_meets (h.own_within (Or.inr rfl)))
  intro size heq
  subst heq
  rw [hoffset, hnext]
  cases ys with
  | nil =>
      have hne : Not (u.stop = base) := by lia
      rw [List.map_nil, List.headD_nil, if_neg hne]
      refine (store_meets (h.own_within (Or.inl rfl)) (Or.inl rfl) (by lia)).mono ?_ ?_
      · intro s1 hall
        rcases hall with ⟨hat, hlink, hother⟩
        refine ⟨hat, u, [], rfl, rfl, ?_, linked_nil.mpr hlink, fun y hy => hy⟩
        have hsized := h.spare.sized
        unfold Sized at *
        rw [hother _ (Or.inr (Nat.le_refl _))]
        exact hsized
      · exact fun e he => he
  | cons y rest =>
      have hymem : y ∈ xs ++ y :: rest := List.mem_append_right xs List.mem_cons_self
      have hysized := h.heap.ring.sizes y hymem
      have hyin := h.heap.inside y (List.mem_append_left us hymem)
      have hybehind := h.behind y List.mem_cons_self
      have hyhigh := hyin.high
      have htop := h.heap.top
      have hystop : y.stop = y.addr + y.len := rfl
      have hustop : u.stop = u.addr + u.len := rfl
      rw [userHeapTop_eq] at htop
      have hparts := linked_append.mp h.heap.ring
      have hrest : forall c, c ∈ rest -> u.addr + headerSize ≤ c.addr := by
        intro c hc
        have hle := h.behind c (List.mem_cons_of_mem y hc)
        lia
      rw [List.map_cons, List.headD_cons]
      cases Classical.em (u.stop = y.addr) with
      | inr hne =>
          rw [if_neg hne]
          refine (store_meets (h.own_within (Or.inl rfl)) (Or.inl rfl) (by lia)).mono ?_ ?_
          · intro s1 hall
            rcases hall with ⟨hat, hlink, hother⟩
            refine ⟨hat, u, y :: rest, ?_, rfl, ?_, ?_, fun c hc => hc⟩
            · rw [putFront, if_neg hne]
            · have hsized := h.spare.sized
              unfold Sized at *
              rw [hother _ (Or.inr (Nat.le_refl _))]
              exact hsized
            · refine linked_cons.mpr ⟨hlink, hysized.kept hat (Or.inr (by lia)), ?_⟩
              exact hparts.right.right.kept hat (Or.inr (by lia)) (fun c hc => Or.inr (hrest c hc))
          · exact fun e he => he
      | inl heq =>
          rw [if_pos heq]
          apply Meets.bind (load_meets (h.free_within hymem (Or.inr rfl)))
          intro more heq
          subst heq
          have husized := hword.right.right.right.right
          unfold Sized at hysized
          apply Meets.bind (store_meets (h.own_within (Or.inr rfl)) (Or.inr rfl) (by lia))
          intro s1 hall
          rcases hall with ⟨hat1, hsum, hother1⟩
          have hwithin : forall {a}, Within base s a -> Within base s1 a :=
            fun ha => hat1.toSameSpace.within.mpr ha
          apply Meets.bind ((load_meets (hwithin hpin)).mono (fun _ hv => hv)
            (fun _ he => hat1.toSameSpace.hole he))
          intro next1 heq
          subst heq
          have hp1 : s1.mem.word p = y.addr := by
            rw [hat1.word (Or.inl (by lia)), hnext]
            rfl
          rw [hp1]
          apply Meets.bind ((load_meets (hwithin (h.free_within hymem (Or.inl rfl)))).mono
            (fun _ hv => hv) (fun _ he => hat1.toSameSpace.hole he))
          intro behind heq
          subst heq
          have hbehind : s1.mem.word y.addr = (rest.map Extent.addr).headD base := by
            rw [hat1.word (Or.inr (by lia))]
            exact hparts.right.right.first
          have hlt : s1.mem.word y.addr < addrEnd := by
            rw [hbehind]
            apply h.heap.next_lt
            exact fun c hc => List.mem_append_right xs (List.mem_cons_of_mem y hc)
          refine (store_meets (hwithin (h.own_within (Or.inl rfl))) (Or.inl rfl) hlt).mono ?_ ?_
          · intro s2 hall
            rcases hall with ⟨hat2, hlink, hother2⟩
            have hat := hat1.trans hat2
            refine ⟨hat, u.join y, rest, ?_, rfl, ?_, ?_, fun c hc => List.mem_cons_of_mem y hc⟩
            · rw [putFront, if_pos heq]
            · unfold Sized
              show headerSize * s2.mem.word (u.addr + 4) = u.len + y.len
              rw [hother2 _ (Or.inr (Nat.le_refl _)), hsum]
              lia
            · have hlinked := hparts.right.right.kept hat (Or.inr (by lia))
                (fun c hc => Or.inr (hrest c hc))
              apply hlinked.restart
              rw [hlink, hat2.word (Or.inr (by lia))]
          · exact fun e he => hat1.toSameSpace.hole he

/-- The list after both joins, by where the search ended. -/
theorem putBack_prev (hlen : 0 < u.len) {x u1 : Extent} {rest ys1 : List Extent}
    (hpacked : Packed (rest ++ x :: ys)) (hx : x.stop = u.addr)
    (hys : forall y, y ∈ ys -> u.stop ≤ y.addr) (hfront : putFront u ys = u1 :: ys1) :
    putBack u (rest ++ x :: ys) = rest ++ x.join u1 :: ys1 := by
  have hstop : u.stop = u.addr + u.len := rfl
  have hjoined : (x.join u).stop = u.stop := Extent.join_stop hx
  have hgaps := (List.pairwise_append.mp hpacked.gaps).right.right
  have hrest : forall c, c ∈ rest -> c.stop < u.addr := by
    intro c hc
    have hlt := hgaps c hc x List.mem_cons_self
    have hxstop : x.stop = x.addr + x.len := rfl
    lia
  rw [putBack_joined hlen hrest hx, putBack_front (by rw [hjoined]; exact hys)]
  cases ys with
  | nil =>
      rw [putFront] at hfront
      cases hfront
      rfl
  | cons y more =>
      rw [putFront] at hfront ⊢
      rw [hjoined]
      split at hfront
      · rename_i heq
        cases hfront
        rw [if_pos heq]
        unfold Extent.join
        dsimp only
        rw [Nat.add_assoc]
      · rename_i hne
        cases hfront
        rw [if_neg hne]

theorem putBack_apart (hlen : 0 < u.len) {u1 : Extent} {ys1 : List Extent}
    (hxs : forall x, x ∈ xs -> x.stop < u.addr) (hys : forall y, y ∈ ys -> u.stop ≤ y.addr)
    (hfront : putFront u ys = u1 :: ys1) : putBack u (xs ++ ys) = xs ++ u1 :: ys1 := by
  rw [putBack_append hlen hxs, putBack_front hys, hfront]

/-- What the second `if` leaves. -/
structure Joined (base : Nat) (s s2 : Process) (p : Nat) (fs : List Extent) : Prop where
  ring : Linked s2.mem base fs base
  empty : s2.mem.word (base + 4) = s.mem.word (base + 4)
  freep : p = base ∨ exists f, f ∈ fs ∧ p = f.addr

theorem Hooked.stop_le {u1 : Extent} {ys1 : List Extent} (hooked : Hooked base s1 ys u u1 ys1)
    (h : Between base s xs ys us u) : u1.addr + u1.len ≤ addrEnd := by
  have hfront := hooked.front
  have hlt := h.word_lt.right.right.right.left
  have hustop : u.stop = u.addr + u.len := rfl
  cases ys with
  | nil =>
      rw [putFront] at hfront
      cases hfront
      exact Nat.le_of_lt hlt
  | cons y more =>
      rw [putFront] at hfront
      split at hfront
      · rename_i heq
        cases hfront
        have hylt := h.heap.stop_lt (List.mem_append_right xs List.mem_cons_self)
        have hystop : y.stop = y.addr + y.len := rfl
        show u.addr + (u.len + y.len) ≤ addrEnd
        lia
      · cases hfront
        exact Nat.le_of_lt hlt

theorem Hooked.kept {u1 : Extent} {ys1 : List Extent} (hooked : Hooked base s1 ys u u1 ys1)
    (h : Between base s xs ys us u) (hat : AtHeader p s1 s2) (hp : p + headerSize ≤ u.addr) :
    Hooked base s2 ys u u1 ys1 := by
  have hroom := h.word_lt.right.right.left
  constructor
  · exact hooked.front
  · exact hooked.addr
  · apply hooked.sized.kept hat
    rw [hooked.addr]
    exact Or.inr hp
  · apply hooked.links.kept hat (Or.inr hp)
    intro y hy
    have hle := h.behind y (hooked.later y hy)
    exact Or.inr (by lia)
  · exact hooked.later

section Prev

variable {rest ys1 : List Extent} {x u1 : Extent}

theorem Between.previous (h : Between base s (rest ++ [x]) ys us u) : Previous base s rest x := by
  have hheap := h.heap
  rw [List.append_assoc, List.singleton_append] at hheap
  exact hheap.previous

/-- There is no free block before the one that is put back: the header at `base` gets the link. -/
theorem joinPrev_first (h : Between base s [] ys us u) (hat : AtHeader u.addr s s1)
    (hooked : Hooked base s1 ys u u1 ys1) :
    Meets (fun s2 => AtHeader base s1 s2 ∧ Joined base s s2 base (putBack u ys)) (Hole base s)
      (joinPrev u.addr base s1) := by
  have hsize : headerSize = 8 := rfl
  have hword := h.word_lt
  have hwithin : forall {a}, Within base s a -> Within base s1 a :=
    fun ha => hat.toSameSpace.within.mpr ha
  have hholes : forall e, Hole base s1 e -> Hole base s e :=
    fun e he => hat.toSameSpace.hole he
  have hzero : s1.mem.word (base + 4) = 0 := by
    rw [hat.word (Or.inl (by lia)), h.heap.empty]
  have hoffset : offset base 0 = base := Nat.mod_eq_of_lt (by lia)
  unfold joinPrev
  apply Meets.bind
    ((load_meets (hwithin (within_base base s (Or.inr rfl)))).mono (fun _ hv => hv) hholes)
  intro size hread
  rw [hread, hzero, hoffset, if_neg (by lia)]
  refine (store_meets (hwithin (within_base base s (Or.inl rfl))) (Or.inl rfl) (by lia)).mono
    ?_ hholes
  intro s2 hstored
  rcases hstored with ⟨hat2, hlink, hother⟩
  have hkept := hooked.kept h hat2 hword.right.left
  refine ⟨hat2, ?_, ?_, Or.inl rfl⟩
  · have hback : putBack u ys = u1 :: ys1 :=
      putBack_apart h.spare.inside.nonempty (fun x hx => (List.not_mem_nil hx).elim) h.behind
        hooked.front
    rw [hback]
    exact linked_cons.mpr
      ⟨hlink.trans hooked.addr.symm, hkept.sized, hooked.addr.symm ▸ hkept.links⟩
  · rw [hother _ (Or.inr (Nat.le_refl _)), hat.word (Or.inl (by lia))]

/-- The free block before it ends where the block begins: it gets the length and the link. -/
theorem joinPrev_joined (h : Between base s (rest ++ [x]) ys us u) (hat : AtHeader u.addr s s1)
    (hooked : Hooked base s1 ys u u1 ys1) (heq : x.stop = u.addr) :
    Meets (fun s2 => AtHeader x.addr s1 s2 ∧
        Joined base s s2 x.addr (putBack u (rest ++ x :: ys)))
      (Hole base s) (joinPrev u.addr x.addr s1) := by
  have hsize : headerSize = 8 := rfl
  have hword := h.word_lt
  have hlast := h.last
  rw [lastOf_concat] at hlast
  rcases hlast with ⟨hbelow, hpin, hpin4⟩
  have hwithin : forall {a}, Within base s a -> Within base s1 a :=
    fun ha => hat.toSameSpace.within.mpr ha
  have hholes : forall e, Hole base s1 e -> Hole base s e :=
    fun e he => hat.toSameSpace.hole he
  have hprev := h.previous.kept hat hbelow
  have hlow := hprev.low
  have hpacked := h.heap.packed
  rw [List.append_assoc, List.singleton_append] at hpacked
  have hback := putBack_prev h.spare.inside.nonempty hpacked heq h.behind hooked.front
  have hxsized := hprev.sized
  have hused := hooked.sized
  have hfits := hooked.stop_le h
  unfold joinPrev
  apply Meets.bind ((load_meets (hwithin hpin4)).mono (fun _ hv => hv) hholes)
  intro size hread
  rw [hread, offset_sized hxsized (by lia), if_pos heq]
  apply Meets.bind ((load_meets (hwithin (h.own_within (Or.inr rfl)))).mono
    (fun _ hv => hv) hholes)
  intro more hmore
  rw [hmore]
  unfold Sized at hused hxsized
  rw [hooked.addr] at hused hfits
  have hxstop : x.stop = x.addr + x.len := rfl
  apply Meets.bind ((store_meets (hwithin hpin4) (Or.inr rfl) (by lia)).mono
    (fun _ hv => hv) hholes)
  intro s2 hstored
  rcases hstored with ⟨hat2, hsum, hother2⟩
  have hwithin2 : forall {a}, Within base s a -> Within base s2 a :=
    fun ha => hat2.toSameSpace.within.mpr (hwithin ha)
  have hholes2 : forall e, Hole base s2 e -> Hole base s e :=
    fun e he => hholes e (hat2.toSameSpace.hole he)
  apply Meets.bind ((load_meets (hwithin2 (h.own_within (Or.inl rfl)))).mono
    (fun _ hv => hv) hholes2)
  intro behind hbehind
  rw [hbehind]
  have hlt : s2.mem.word u.addr < addrEnd := by
    rw [(hooked.kept h hat2 hbelow).links.first]
    exact h.heap.next_lt (fun y hy => List.mem_append_right _ (hooked.later y hy))
  refine (store_meets (hwithin2 hpin) (Or.inl rfl) hlt).mono ?_ hholes2
  intro s3 hstored
  rcases hstored with ⟨hat3, hlink, hother3⟩
  have hat23 := hat2.trans hat3
  rw [hback]
  refine ⟨hat23, ?_, ?_, Or.inr ⟨x.join u1, List.mem_append_right rest List.mem_cons_self, rfl⟩⟩
  · refine linked_append.mpr ⟨?_, ?_, ?_⟩
    · exact hprev.links.kept hat23 (Or.inl hlow) (fun c hc => Or.inl (hprev.below c hc))
    · unfold Sized
      show headerSize * s3.mem.word (x.addr + 4) = x.len + u1.len
      rw [hother3 _ (Or.inr (Nat.le_refl _)), hsum]
      lia
    · apply (hooked.kept h hat23 hbelow).links.restart
      show s3.mem.word x.addr = s3.mem.word u.addr
      rw [hlink, hat3.word (Or.inr (by lia))]
  · rw [hat23.word (Or.inl (by lia)), hat.word (Or.inl (by lia))]

/-- The free block before it ends earlier: it gets the link. -/
theorem joinPrev_apart (h : Between base s (rest ++ [x]) ys us u) (hat : AtHeader u.addr s s1)
    (hooked : Hooked base s1 ys u u1 ys1) (hne : x.stop ≠ u.addr) :
    Meets (fun s2 => AtHeader x.addr s1 s2 ∧
        Joined base s s2 x.addr (putBack u (rest ++ x :: ys)))
      (Hole base s) (joinPrev u.addr x.addr s1) := by
  have hsize : headerSize = 8 := rfl
  have hword := h.word_lt
  have hlast := h.last
  rw [lastOf_concat] at hlast
  rcases hlast with ⟨hbelow, hpin, hpin4⟩
  have hwithin : forall {a}, Within base s a -> Within base s1 a :=
    fun ha => hat.toSameSpace.within.mpr ha
  have hholes : forall e, Hole base s1 e -> Hole base s e :=
    fun e he => hat.toSameSpace.hole he
  have hprev := h.previous.kept hat hbelow
  have hlow := hprev.low
  have hbefore : forall c, c ∈ rest ++ [x] -> c.stop < u.addr := by
    intro c hc
    have hle := h.before c hc
    rcases List.mem_append.mp hc with hc | hc
    · have hpacked := h.heap.packed
      rw [List.append_assoc, List.singleton_append] at hpacked
      have hgaps := (List.pairwise_append.mp hpacked.gaps).right.right
      have hlt := hgaps c hc x List.mem_cons_self
      have hxstop : x.stop = x.addr + x.len := rfl
      have hxle := h.before x (List.mem_append_right rest List.mem_cons_self)
      lia
    · rw [List.mem_singleton.mp hc] at hle ⊢
      exact Nat.lt_of_le_of_ne hle hne
  have hback := putBack_apart h.spare.inside.nonempty hbefore h.behind hooked.front
  rw [List.append_assoc, List.singleton_append, List.append_assoc,
    List.singleton_append] at hback
  have hxlt := hbefore x (List.mem_append_right rest List.mem_cons_self)
  unfold joinPrev
  apply Meets.bind ((load_meets (hwithin hpin4)).mono (fun _ hv => hv) hholes)
  intro size hread
  rw [hread, offset_sized hprev.sized (by lia), if_neg hne]
  refine (store_meets (hwithin hpin) (Or.inl rfl) (by lia)).mono ?_ hholes
  intro s2 hstored
  rcases hstored with ⟨hat2, hlink, hother⟩
  have hkept := hooked.kept h hat2 hbelow
  rw [hback]
  refine ⟨hat2, ?_, ?_, Or.inr ⟨x, List.mem_append_right rest List.mem_cons_self, rfl⟩⟩
  · refine linked_append.mpr ⟨?_, ?_, linked_cons.mpr ⟨?_, hkept.sized, ?_⟩⟩
    · exact hprev.links.kept hat2 (Or.inl hlow) (fun c hc => Or.inl (hprev.below c hc))
    · have hxsized := hprev.sized
      unfold Sized at hxsized ⊢
      rw [hother _ (Or.inr (Nat.le_refl _))]
      exact hxsized
    · exact hlink.trans hooked.addr.symm
    · rw [hooked.addr]
      exact hkept.links
  · rw [hat2.word (Or.inl (by lia)), hat.word (Or.inl (by lia))]

theorem joinPrev_meets (h : Between base s xs ys us u) (hat : AtHeader u.addr s s1)
    (hooked : Hooked base s1 ys u u1 ys1) :
    Meets (fun s2 => AtHeader (lastOf base xs) s1 s2 ∧
        Joined base s s2 (lastOf base xs) (putBack u (xs ++ ys)))
      (Hole base s) (joinPrev u.addr (lastOf base xs) s1) := by
  rcases List.eq_nil_or_concat' xs with hnil | ⟨rest, x, hxs⟩
  · subst hnil
    exact joinPrev_first h hat hooked
  · subst hxs
    rw [lastOf_concat, List.append_assoc, List.singleton_append]
    cases Classical.em (x.stop = u.addr) with
    | inl heq => exact joinPrev_joined h hat hooked heq
    | inr hne => exact joinPrev_apart h hat hooked hne

end Prev

end Joins

/-!
# The call
-/

section Free

variable {base a : Nat} {s s2 : Process} {b u : Extent} {fs us xs ys : List Extent}

/-- An address that the allocator does not write while it puts a block back. -/
structure Untouched (base : Nat) (fs : List Extent) (u : Extent) (a : Nat) : Prop where
  base : Not (base ≤ a ∧ a < base + headerSize)
  free : Not (Covered fs a)
  own : Not (u.Covers a)

theorem Inside.of_covered {x : Extent} (hx : 0 < x.len)
    (h : forall a, x.Covers a -> userHeapBase ≤ a ∧ a < s.brk) : Inside s x := by
  have hstop : x.stop = x.addr + x.len := rfl
  have hfirst := h x.addr ⟨Nat.le_refl _, by lia⟩
  have hlast := h (x.stop - 1) ⟨by lia, by lia⟩
  exact ⟨hfirst.left, by lia, hx⟩

theorem Inside.covers (h : Inside s b) (ha : b.Covers a) : userHeapBase ≤ a ∧ a < s.brk :=
  ⟨Nat.le_trans h.low ha.left, Nat.lt_of_lt_of_le ha.right h.high⟩

theorem Between.put (h : Between base s xs ys us u) (hspace : SameSpace s s2)
    (hjoined : Joined base s s2 (lastOf base xs) (putBack u (xs ++ ys)))
    (hmem : forall a, Untouched base (xs ++ ys) u a -> s2.mem a = s.mem a) :
    Heap base { s2 with freep := lastOf base xs } (putBack u (xs ++ ys)) us := by
  have hheap := h.heap
  have hsize : headerSize = 8 := rfl
  rcases putBack_packed hheap.packed h.spare.inside.nonempty h.spare.free with
    ⟨hpacked, hcovered, -⟩
  have hin : forall a, Covered (putBack u (xs ++ ys)) a -> userHeapBase ≤ a ∧ a < s.brk := by
    intro a ha
    rcases (hcovered a).mp ha with hcovers | ⟨f, hf, hcovers⟩
    · exact h.spare.inside.covers hcovers
    · exact (hheap.inside f (List.mem_append_left us hf)).covers hcovers
  constructor
  · exact hjoined.ring
  · exact hjoined.empty.trans hheap.empty
  · exact hpacked
  · exact hjoined.freep
  · intro v hv
    have hvin := hheap.inside v (List.mem_append_right _ hv)
    have hvsized := hheap.used v hv
    have height := hvsized.eight_le hvin.nonempty
    have hvlow := hvin.low
    have hbelow := hheap.below
    have hvstop : v.stop = v.addr + v.len := rfl
    unfold Sized at *
    have hword : s2.mem.word (v.addr + 4) = s.mem.word (v.addr + 4) := by
      apply Memory.word_congr
      intro x hx1 hx2
      have hcovers : v.Covers x := ⟨by lia, by lia⟩
      apply hmem
      constructor
      · lia
      · intro hex
        rcases hex with ⟨f, hf, hfcovers⟩
        exact (hheap.cross f v hf hv).not_covers hfcovers hcovers
      · exact fun hown => (h.spare.used v hv).not_covers hown hcovers
    show headerSize * s2.mem.word (v.addr + 4) = v.len
    rw [hword]
    exact hvsized
  · intro c hc
    rcases List.mem_append.mp hc with hc | hc
    · have hcin : Inside s c :=
        Inside.of_covered (hpacked.nonempty c hc) (fun a ha => hin a ⟨c, hc, ha⟩)
      exact ⟨hcin.low, hspace.brk ▸ hcin.high, hcin.nonempty⟩
    · have hcin := hheap.inside c (List.mem_append_right _ hc)
      exact ⟨hcin.low, hspace.brk ▸ hcin.high, hcin.nonempty⟩
  · exact hheap.apart
  · intro c v hc hv
    have hvin := hheap.inside v (List.mem_append_right _ hv)
    apply Extent.apart_of_not_covers (hpacked.nonempty c hc) hvin.nonempty
    intro a ha hva
    rcases (hcovered a).mp ⟨c, hc, ha⟩ with hcovers | ⟨f, hf, hcovers⟩
    · exact (h.spare.used v hv).not_covers hcovers hva
    · exact (hheap.cross f v hf hv).not_covers hcovers hva
  · exact hheap.below
  · show userHeapBase ≤ s2.brk ∧ s2.brk < userHeapTop
    rw [hspace.brk]
    exact hheap.top

/-- `free` of a block that is neither free nor with the program puts it back. -/
theorem free_meets (h : Heap base s fs us) (hu : Spare s fs us u) :
    Meets (fun s' => Heap base s' (putBack u fs) us ∧ SameSpace s s' ∧
        forall a, Untouched base fs u a -> s'.mem a = s.mem a)
      (Hole base s) (free (u.addr + headerSize) s) := by
  rcases h.packed.split hu.inside.nonempty hu.free with ⟨xs, ys, hsplit, hbefore, hbehind⟩
  subst hsplit
  have hbetween : Between base s xs ys us u := ⟨h, hu, hbefore, hbehind⟩
  have hword := hbetween.word_lt
  have hsize : headerSize = 8 := rfl
  have hend : addrEnd = 0x100000000 := rfl
  have hbp : (u.addr + headerSize + addrEnd - headerSize) % addrEnd = u.addr := by
    have hsub : u.addr + headerSize + addrEnd - headerSize = u.addr + addrEnd := by lia
    rw [hsub, Nat.add_mod_right]
    exact Nat.mod_eq_of_lt (by lia)
  unfold free
  dsimp only
  rw [hbp]
  have hsearch : Meets (fun q => q = lastOf base xs) (Hole base s)
      (search u.addr visits s.freep s) := by
    apply search_meets h (by lia)
    · intro x hx
      have hle := hbefore x hx
      have hlen := h.packed.nonempty x (List.mem_append_left ys hx)
      have hstop : x.stop = x.addr + x.len := rfl
      lia
    · intro y hy
      have hle := hbehind y hy
      have hstop : u.stop = u.addr + u.len := rfl
      lia
  apply Meets.bind hsearch
  intro p heq
  subst heq
  apply Meets.bind (joinNext_meets hbetween)
  intro s1 hall
  rcases hall with ⟨hat1, u1, ys1, hooked⟩
  apply Meets.bind (joinPrev_meets hbetween hat1 hooked)
  intro s2 hboth
  rcases hboth with ⟨hat2, hjoined⟩
  have hspace : SameSpace s s2 :=
    ⟨hat2.mapped.trans hat1.mapped, hat2.brk.trans hat1.brk⟩
  have hmem : forall a, Untouched base (xs ++ ys) u a -> s2.mem a = s.mem a := by
    intro a ha
    have hown : a < u.addr ∨ u.addr + headerSize ≤ a := by
      have hnot := ha.own
      unfold Extent.Covers at hnot
      lia
    rw [hat2.mem a ?_, hat1.mem a hown]
    rcases List.eq_nil_or_concat' xs with hnil | ⟨rest, x, hxs⟩
    · rw [hnil, lastOf_nil]
      have hnot := ha.base
      lia
    · have hxmem : x ∈ xs ++ ys := by
        rw [hxs]
        exact List.mem_append_left ys (List.mem_append_right rest List.mem_cons_self)
      have hlen := (h.ring.sizes x hxmem).eight_le
        (h.inside x (List.mem_append_left us hxmem)).nonempty
      have hnot : Not (x.Covers a) := fun hcovers => ha.free ⟨x, hxmem, hcovers⟩
      have hstop : x.stop = x.addr + x.len := rfl
      rw [hxs, lastOf_concat]
      unfold Extent.Covers at hnot
      lia
  exact ⟨hbetween.put hspace hjoined hmem, ⟨hspace.mapped, hspace.brk⟩, hmem⟩

end Free

end Malloc
end User
end NicoOS
