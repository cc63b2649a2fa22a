import Mathlib.Data.List.Basic
import Mathlib.Data.List.Pairwise
import Mathlib.Tactic.Common

/-!
# Blocks of addresses

Free blocks are kept by address with a gap behind each of them: a block that is put back is
joined with its neighbours, and one that is taken out is cut off the end of another.
-/

namespace NicoOS
namespace Lib

structure Extent where
  addr : Nat
  len : Nat
  deriving DecidableEq

namespace Extent

def stop (b : Extent) : Nat := b.addr + b.len

def Covers (b : Extent) (a : Nat) : Prop := b.addr ≤ a ∧ a < b.stop

def Apart (b c : Extent) : Prop := b.stop ≤ c.addr ∨ c.stop ≤ b.addr

/-- Both blocks as one, where the second one starts behind the first. -/
def join (b c : Extent) : Extent where
  addr := b.addr
  len := b.len + c.len

variable {b c : Extent}

theorem Apart.symm (h : b.Apart c) : c.Apart b := Or.symm h

instance : Std.Symm Apart := ⟨fun _ _ h => h.symm⟩

theorem Apart.not_covers (h : b.Apart c) {a : Nat} (hb : b.Covers a) : Not (c.Covers a) := by
  intro hc
  rcases h with hle | hle
  · exact Nat.not_lt_of_le (Nat.le_trans hle hc.left) hb.right
  · exact Nat.not_lt_of_le (Nat.le_trans hle hb.left) hc.right

theorem apart_of_not_covers (hb : 0 < b.len) (hc : 0 < c.len)
    (h : forall a, b.Covers a -> Not (c.Covers a)) : b.Apart c := by
  have hbstop : b.stop = b.addr + b.len := rfl
  have hcstop : c.stop = c.addr + c.len := rfl
  unfold Apart
  cases Nat.lt_or_ge b.addr c.addr with
  | inl hlt =>
      have hout : Not (b.Covers c.addr) := fun hin => h c.addr hin ⟨Nat.le_refl _, by lia⟩
      unfold Covers at hout
      lia
  | inr hge =>
      have hout := h b.addr ⟨Nat.le_refl _, by lia⟩
      unfold Covers at hout
      lia

@[simp] theorem join_addr (b c : Extent) : (b.join c).addr = b.addr := rfl

theorem join_stop (h : b.stop = c.addr) : (b.join c).stop = c.stop := by
  unfold join stop at *
  dsimp only
  lia

theorem covers_join (h : b.stop = c.addr) (a : Nat) :
    (b.join c).Covers a <-> b.Covers a ∨ c.Covers a := by
  unfold Covers
  rw [join_stop h]
  unfold join stop at *
  dsimp only
  lia

theorem apart_join (h : b.stop = c.addr) {x : Extent} (hb : b.Apart x) (hc : c.Apart x)
    (hx : 0 < x.len) : (b.join c).Apart x := by
  unfold Apart at *
  rw [join_stop h]
  unfold join stop at *
  dsimp only
  lia

end Extent

/-!
# Lists of free blocks
-/

def Covered (bs : List Extent) (a : Nat) : Prop := exists b, b ∈ bs ∧ b.Covers a

def totalLen : List Extent -> Nat
  | [] => 0
  | b :: rest => b.len + totalLen rest

/-- The blocks are not empty, and there is a gap between one and the next. -/
structure Packed (bs : List Extent) : Prop where
  nonempty : forall b, b ∈ bs -> 0 < b.len
  gaps : bs.Pairwise (fun b c => b.stop < c.addr)

def putBack (b : Extent) : List Extent -> List Extent
  | [] => [b]
  | x :: rest =>
      if b.stop < x.addr then b :: x :: rest
      else if b.stop = x.addr then b.join x :: rest
      else if x.stop = b.addr then putBack (x.join b) rest
      else x :: putBack b rest

def putFront (b : Extent) : List Extent -> List Extent
  | [] => [b]
  | x :: rest => if b.stop = x.addr then b.join x :: rest else b :: x :: rest

/-- What is left of a block that `n` addresses are cut off. -/
def cut (n : Nat) (b : Extent) : List Extent :=
  if b.len = n then [] else [{ addr := b.addr, len := b.len - n }]

def cutOff (n : Nat) (b : Extent) : Extent where
  addr := b.stop - n
  len := n

section Lists

variable {b x : Extent} {bs xs ys : List Extent} {a n : Nat}

theorem covered_nil : Not (Covered [] a) := by
  intro hex
  rcases hex with ⟨b, hb, -⟩
  cases hb

theorem covered_cons : Covered (b :: bs) a <-> b.Covers a ∨ Covered bs a := by
  constructor
  · intro hex
    rcases hex with ⟨c, hc, hcovers⟩
    cases List.mem_cons.mp hc with
    | inl heq => exact Or.inl (heq ▸ hcovers)
    | inr hmem => exact Or.inr ⟨c, hmem, hcovers⟩
  · intro hor
    rcases hor with hcovers | ⟨c, hc, hcovers⟩
    · exact ⟨b, List.mem_cons_self, hcovers⟩
    · exact ⟨c, List.mem_cons_of_mem b hc, hcovers⟩

theorem covered_append : Covered (xs ++ ys) a <-> Covered xs a ∨ Covered ys a := by
  constructor
  · intro hex
    rcases hex with ⟨c, hc, hcovers⟩
    cases List.mem_append.mp hc with
    | inl hmem => exact Or.inl ⟨c, hmem, hcovers⟩
    | inr hmem => exact Or.inr ⟨c, hmem, hcovers⟩
  · intro hor
    rcases hor with ⟨c, hc, hcovers⟩ | ⟨c, hc, hcovers⟩
    · exact ⟨c, List.mem_append_left ys hc, hcovers⟩
    · exact ⟨c, List.mem_append_right xs hc, hcovers⟩

theorem totalLen_append (xs ys : List Extent) :
    totalLen (xs ++ ys) = totalLen xs + totalLen ys := by
  induction xs with
  | nil => exact (Nat.zero_add _).symm
  | cons x rest ih =>
      show x.len + totalLen (rest ++ ys) = (x.len + totalLen rest) + totalLen ys
      rw [ih, Nat.add_assoc]

theorem packed_nil : Packed [] where
  nonempty := fun _ hb => by cases hb
  gaps := List.Pairwise.nil

theorem packed_cons : Packed (b :: bs) <->
    0 < b.len ∧ (forall c, c ∈ bs -> b.stop < c.addr) ∧ Packed bs := by
  constructor
  · intro h
    have hgaps := List.pairwise_cons.mp h.gaps
    exact ⟨h.nonempty b List.mem_cons_self, hgaps.left,
      fun c hc => h.nonempty c (List.mem_cons_of_mem b hc), hgaps.right⟩
  · intro hall
    rcases hall with ⟨hlen, hbefore, hpacked⟩
    constructor
    · intro c hc
      cases List.mem_cons.mp hc with
      | inl heq => exact heq ▸ hlen
      | inr hmem => exact hpacked.nonempty c hmem
    · exact List.pairwise_cons.mpr ⟨hbefore, hpacked.gaps⟩

theorem Packed.tail (h : Packed (b :: bs)) : Packed bs := (packed_cons.mp h).right.right

theorem putBack_front (h : forall c, c ∈ bs -> b.stop ≤ c.addr) :
    putBack b bs = putFront b bs := by
  cases bs with
  | nil => rfl
  | cons x rest =>
      have hle := h x List.mem_cons_self
      rw [putBack, putFront]
      cases Nat.eq_or_lt_of_le hle with
      | inl heq => rw [if_neg (Nat.not_lt_of_le (Nat.le_of_eq heq.symm)), if_pos heq, if_pos heq]
      | inr hlt => rw [if_pos hlt, if_neg (Nat.ne_of_lt hlt)]

theorem putBack_append (hlen : 0 < b.len) (h : forall c, c ∈ xs -> c.stop < b.addr) :
    putBack b (xs ++ ys) = xs ++ putBack b ys := by
  induction xs with
  | nil => rfl
  | cons x rest ih =>
      have hlt := h x List.mem_cons_self
      have hstop : b.stop = b.addr + b.len := rfl
      have hx : x.stop = x.addr + x.len := rfl
      rw [List.cons_append, putBack, if_neg (by lia), if_neg (by lia), if_neg (by lia),
        ih (fun c hc => h c (List.mem_cons_of_mem x hc))]
      rfl

/-- It is joined with the block that ends where it starts. -/
theorem putBack_joined (hlen : 0 < b.len) (h : forall c, c ∈ xs -> c.stop < b.addr)
    (hx : x.stop = b.addr) : putBack b (xs ++ x :: ys) = xs ++ putBack (x.join b) ys := by
  have hstop : b.stop = b.addr + b.len := rfl
  have hxstop : x.stop = x.addr + x.len := rfl
  rw [putBack_append hlen h, putBack, if_neg (by lia), if_neg (by lia), if_pos hx]

/-- What is put back starts where it or another block did. -/
theorem addr_putBack {c : Extent} (h : c ∈ putBack b bs) :
    c.addr = b.addr ∨ exists x, x ∈ bs ∧ c.addr = x.addr := by
  induction bs generalizing b with
  | nil => exact Or.inl (congrArg Extent.addr (List.mem_singleton.mp h))
  | cons x rest ih =>
      have hrest : forall {y : Extent}, c ∈ putBack y rest -> c.addr = y.addr ∨
          exists z, z ∈ x :: rest ∧ c.addr = z.addr := by
        intro y hy
        rcases ih hy with heq | ⟨z, hz, heq⟩
        · exact Or.inl heq
        · exact Or.inr ⟨z, List.mem_cons_of_mem x hz, heq⟩
      unfold putBack at h
      split at h
      · cases List.mem_cons.mp h with
        | inl heq => exact Or.inl (congrArg Extent.addr heq)
        | inr hmem => exact Or.inr ⟨c, hmem, rfl⟩
      · split at h
        · cases List.mem_cons.mp h with
          | inl heq =>
              left
              rw [heq]
              rfl
          | inr hmem => exact Or.inr ⟨c, List.mem_cons_of_mem x hmem, rfl⟩
        · split at h
          · rcases hrest h with heq | hother
            · exact Or.inr ⟨x, List.mem_cons_self, heq⟩
            · exact Or.inr hother
          · cases List.mem_cons.mp h with
            | inl heq => exact Or.inr ⟨x, List.mem_cons_self, congrArg Extent.addr heq⟩
            | inr hmem => exact hrest hmem

theorem exists_len_putBack (b : Extent) (bs : List Extent) :
    exists c, c ∈ putBack b bs ∧ b.len ≤ c.len := by
  induction bs generalizing b with
  | nil => exact ⟨b, List.mem_cons_self, Nat.le_refl _⟩
  | cons x rest ih =>
      unfold putBack
      split
      · exact ⟨b, List.mem_cons_self, Nat.le_refl _⟩
      · split
        · exact ⟨b.join x, List.mem_cons_self, Nat.le_add_right _ _⟩
        · split
          · rcases ih (x.join b) with ⟨c, hc, hle⟩
            exact ⟨c, hc, Nat.le_trans (Nat.le_add_left b.len x.len) hle⟩
          · rcases ih b with ⟨c, hc, hle⟩
            exact ⟨c, List.mem_cons_of_mem x hc, hle⟩

/-- What is put back, with the rest, keeps its gaps and its addresses. -/
theorem putBack_packed (h : Packed bs) (hlen : 0 < b.len) (hapart : forall c, c ∈ bs -> b.Apart c) :
    Packed (putBack b bs) ∧ (forall a, Covered (putBack b bs) a <-> b.Covers a ∨ Covered bs a) ∧
      totalLen (putBack b bs) = b.len + totalLen bs := by
  induction bs generalizing b with
  | nil =>
      refine ⟨packed_cons.mpr ⟨hlen, fun c hc => (List.not_mem_nil hc).elim, packed_nil⟩, ?_, rfl⟩
      exact fun a => covered_cons
  | cons x rest ih =>
      rcases packed_cons.mp h with ⟨hx, hbefore, hrest⟩
      have hstop : b.stop = b.addr + b.len := rfl
      have hxstop : x.stop = x.addr + x.len := rfl
      have hbx := hapart x List.mem_cons_self
      have htail : forall c, c ∈ rest -> b.Apart c :=
        fun c hc => hapart c (List.mem_cons_of_mem x hc)
      unfold putBack
      split
      · rename_i hlt
        refine ⟨packed_cons.mpr ⟨hlen, ?_, h⟩, fun a => covered_cons, rfl⟩
        intro c hc
        cases List.mem_cons.mp hc with
        | inl heq => exact heq ▸ hlt
        | inr hmem =>
            have hgap := hbefore c hmem
            lia
      · rename_i hnlt
        split
        · rename_i heq
          refine ⟨packed_cons.mpr ⟨Nat.lt_of_lt_of_le hlen (Nat.le_add_right _ _), ?_, hrest⟩,
            ?_, ?_⟩
          · rw [Extent.join_stop heq]
            exact hbefore
          · intro a
            rw [covered_cons, covered_cons, Extent.covers_join heq, or_assoc]
          · show (b.len + x.len) + totalLen rest = b.len + (x.len + totalLen rest)
            exact Nat.add_assoc _ _ _
        · rename_i hne
          split
          · rename_i heq
            have hjoined := ih hrest (b := x.join b) (Nat.lt_of_lt_of_le hx (Nat.le_add_right _ _))
              (by
                intro c hc
                have hxc : x.Apart c := Or.inl (Nat.le_of_lt (hbefore c hc))
                exact Extent.apart_join heq hxc (htail c hc) (hrest.nonempty c hc))
            refine ⟨hjoined.left, ?_, ?_⟩
            · intro a
              rw [hjoined.right.left, covered_cons, Extent.covers_join heq, or_assoc, or_left_comm]
            · rw [hjoined.right.right]
              show (x.len + b.len) + totalLen rest = b.len + (x.len + totalLen rest)
              lia
          · rename_i hnot
            have hle : x.stop < b.addr := by
              rcases hbx with hle | hle
              · lia
              · lia
            have hpast := ih hrest hlen htail
            refine ⟨packed_cons.mpr ⟨hx, ?_, hpast.left⟩, ?_, ?_⟩
            · intro c hc
              rcases addr_putBack hc with heq | ⟨y, hy, heq⟩
              · rw [heq]
                exact hle
              · rw [heq]
                exact hbefore y hy
            · intro a
              rw [covered_cons, hpast.right.left, covered_cons, or_left_comm]
            · show x.len + totalLen (putBack b rest) = b.len + (x.len + totalLen rest)
              rw [hpast.right.right]
              lia

theorem covered_cut (hn : n ≤ b.len) :
    b.Covers a <-> (cutOff n b).Covers a ∨ Covered (cut n b) a := by
  unfold cut
  split
  · rename_i heq
    constructor
    · intro h
      left
      unfold Extent.Covers cutOff Extent.stop at *
      dsimp only
      lia
    · intro hor
      rcases hor with h | h
      · unfold Extent.Covers cutOff Extent.stop at *
        dsimp only at h
        lia
      · exact absurd h covered_nil
  · rename_i hne
    rw [covered_cons]
    constructor
    · intro h
      unfold Extent.Covers cutOff Extent.stop at *
      dsimp only
      lia
    · intro hor
      rcases hor with h | h | h
      · unfold Extent.Covers cutOff Extent.stop at *
        dsimp only at h
        lia
      · unfold Extent.Covers Extent.stop at *
        dsimp only at h
        lia
      · exact absurd h covered_nil

theorem cut_packed (h : Packed (xs ++ b :: ys)) (hn : n ≤ b.len) :
    Packed (xs ++ cut n b ++ ys) ∧
      (forall a, Covered (xs ++ b :: ys) a <->
        (cutOff n b).Covers a ∨ Covered (xs ++ cut n b ++ ys) a) ∧
      totalLen (xs ++ b :: ys) = n + totalLen (xs ++ cut n b ++ ys) := by
  have hgaps := List.pairwise_append.mp h.gaps
  have htail := List.pairwise_cons.mp hgaps.right.left
  have hlen := h.nonempty b (List.mem_append_right xs List.mem_cons_self)
  refine ⟨?_, ?_, ?_⟩
  · constructor
    · intro c hc
      unfold cut at hc
      rcases List.mem_append.mp hc with hc | hc
      · rcases List.mem_append.mp hc with hc | hc
        · exact h.nonempty c (List.mem_append_left _ hc)
        · split at hc
          · cases hc
          · rw [List.mem_singleton.mp hc]
            dsimp only
            lia
      · exact h.nonempty c (List.mem_append_right xs (List.mem_cons_of_mem b hc))
    · unfold cut
      split
      · rw [List.append_nil]
        refine List.pairwise_append.mpr ⟨hgaps.left, htail.right, ?_⟩
        exact fun c hc d hd => hgaps.right.right c hc d (List.mem_cons_of_mem b hd)
      · rw [List.append_assoc]
        refine List.pairwise_append.mpr ⟨hgaps.left, ?_, ?_⟩
        · refine List.pairwise_cons.mpr ⟨?_, htail.right⟩
          intro d hd
          have hgap := htail.left d hd
          unfold Extent.stop at *
          dsimp only
          lia
        · intro c hc d hd
          cases List.mem_cons.mp hd with
          | inl heq =>
              rw [heq]
              exact hgaps.right.right c hc b List.mem_cons_self
          | inr hmem => exact hgaps.right.right c hc d (List.mem_cons_of_mem b hmem)
  · intro a
    rw [covered_append, covered_cons, covered_cut hn, covered_append, covered_append]
    constructor
    · intro hor
      rcases hor with h1 | (h1 | h1) | h1
      · exact Or.inr (Or.inl (Or.inl h1))
      · exact Or.inl h1
      · exact Or.inr (Or.inl (Or.inr h1))
      · exact Or.inr (Or.inr h1)
    · intro hor
      rcases hor with h1 | (h1 | h1) | h1
      · exact Or.inr (Or.inl (Or.inl h1))
      · exact Or.inl h1
      · exact Or.inr (Or.inl (Or.inr h1))
      · exact Or.inr (Or.inr h1)
  · have hrest : b.len = n + totalLen (cut n b) := by
      unfold cut
      split
      · rename_i heq
        exact heq
      · show b.len = n + (b.len - n + 0)
        lia
    have hcons : totalLen (b :: ys) = b.len + totalLen ys := rfl
    rw [totalLen_append, totalLen_append, totalLen_append, hcons, hrest]
    lia

/-- A block lies between those before it and those behind it. -/
theorem Packed.split (h : Packed bs) (hlen : 0 < b.len)
    (hapart : forall c, c ∈ bs -> b.Apart c) : exists xs ys, bs = xs ++ ys ∧
      (forall x, x ∈ xs -> x.stop ≤ b.addr) ∧ forall y, y ∈ ys -> b.stop ≤ y.addr := by
  induction bs with
  | nil => exact ⟨[], [], rfl, fun x hx => (List.not_mem_nil hx).elim,
      fun y hy => (List.not_mem_nil hy).elim⟩
  | cons x rest ih =>
      rcases packed_cons.mp h with ⟨hx, hbefore, hrest⟩
      rcases hapart x List.mem_cons_self with hle | hle
      · refine ⟨[], x :: rest, rfl, fun c hc => (List.not_mem_nil hc).elim, ?_⟩
        intro y hy
        cases List.mem_cons.mp hy with
        | inl heq => exact heq ▸ hle
        | inr hmem =>
            have hlt := hbefore y hmem
            have hstop : x.stop = x.addr + x.len := rfl
            lia
      · rcases ih hrest (fun c hc => hapart c (List.mem_cons_of_mem x hc)) with
          ⟨xs, ys, heq, hxs, hys⟩
        refine ⟨x :: xs, ys, congrArg (List.cons x) heq, ?_, hys⟩
        intro c hc
        cases List.mem_cons.mp hc with
        | inl heq => exact heq ▸ hle
        | inr hmem => exact hxs c hmem

theorem Packed.totalLen_le (h : Packed bs) {lo hi : Nat} (hle : lo ≤ hi)
    (hin : forall c, c ∈ bs -> lo ≤ c.addr ∧ c.stop ≤ hi) : totalLen bs ≤ hi - lo := by
  induction bs generalizing lo with
  | nil => exact Nat.zero_le _
  | cons b rest ih =>
      rcases packed_cons.mp h with ⟨hlen, hbefore, hrest⟩
      have hb := hin b List.mem_cons_self
      have hstop : b.stop = b.addr + b.len := rfl
      have htail := ih hrest hb.right (fun c hc =>
        ⟨Nat.le_of_lt (hbefore c hc), (hin c (List.mem_cons_of_mem b hc)).right⟩)
      show b.len + totalLen rest ≤ hi - lo
      lia

theorem Packed.length_le (h : Packed bs) : bs.length ≤ totalLen bs := by
  induction bs with
  | nil => exact Nat.zero_le _
  | cons b rest ih =>
      rcases packed_cons.mp h with ⟨hlen, -, hrest⟩
      have hle := ih hrest
      show rest.length + 1 ≤ b.len + totalLen rest
      lia

theorem Packed.addrs (h : Packed bs) : (bs.map Extent.addr).Pairwise (fun a c => a < c) := by
  apply List.pairwise_map.mpr
  apply h.gaps.imp
  intro b c hlt
  exact Nat.lt_of_le_of_lt (Nat.le_add_right b.addr b.len) hlt

theorem Packed.eq_singleton (h : Packed bs) {lo hi : Nat} (hlt : lo < hi)
    (hall : forall a, Covered bs a <-> lo ≤ a ∧ a < hi) :
    bs = [{ addr := lo, len := hi - lo }] := by
  have hlo := (hall lo).mpr ⟨Nat.le_refl lo, hlt⟩
  cases bs with
  | nil => exact absurd hlo covered_nil
  | cons b rest =>
      rcases packed_cons.mp h with ⟨hlen, hbefore, hrest⟩
      have hstop : b.stop = b.addr + b.len := rfl
      have hbin := (hall b.addr).mp (covered_cons.mpr (Or.inl ⟨Nat.le_refl _, by lia⟩))
      have hblast := (hall (b.stop - 1)).mp (covered_cons.mpr (Or.inl ⟨by lia, by lia⟩))
      have hfirst : b.addr = lo := by
        rcases covered_cons.mp hlo with hcovers | ⟨c, hc, hcovers⟩
        · have hle := hcovers.left
          lia
        · have hgap := hbefore c hc
          have hle := hcovers.left
          lia
      have hend : b.stop = hi := by
        cases Nat.lt_or_ge b.stop hi with
        | inr hge => lia
        | inl hgap =>
            have hat := (hall b.stop).mpr ⟨by lia, hgap⟩
            rcases covered_cons.mp hat with hcovers | ⟨c, hc, hcovers⟩
            · exact absurd hcovers.right (Nat.lt_irrefl _)
            · exact absurd hcovers.left (Nat.not_le_of_lt (hbefore c hc))
      have hnil : rest = [] := by
        cases rest with
        | nil => rfl
        | cons c more =>
            have hgap := hbefore c List.mem_cons_self
            have hclen := hrest.nonempty c List.mem_cons_self
            have hcin := (hall c.addr).mp (covered_cons.mpr (Or.inr
              (covered_cons.mpr (Or.inl ⟨Nat.le_refl _, Nat.lt_add_of_pos_right hclen⟩))))
            lia
      rw [hnil]
      rcases b with ⟨addr, len⟩
      have haddr : addr = lo := hfirst
      have hsum : addr + len = hi := hend
      have hlen' : len = hi - lo := by lia
      rw [haddr, hlen']

end Lists

end Lib
end NicoOS
