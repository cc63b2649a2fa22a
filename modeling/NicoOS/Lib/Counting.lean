import Mathlib.Data.Set.Card
import Mathlib.Tactic.Common

/-!
# Reference counts

Slots point at objects, and every object has a count of the slots that point at
it.  In the middle of an operation a count may be ahead of the slots or behind
them; the difference is kept as a credit of the object.
-/

namespace NicoOS
namespace Lib

variable {Slot Obj : Type} {count count' : Obj -> Nat} {slot slot' : Slot -> Option Obj}
variable {extra extra' : Obj -> Int}

open Classical in
/-- One reference to the object, if there is one. -/
noncomputable def credit (o : Option Obj) : Obj -> Int :=
  fun p => if o = some p then 1 else 0

@[simp] theorem credit_none (p : Obj) : credit none p = 0 := by
  unfold credit
  exact if_neg (fun h => by cases h)

theorem credit_zero : (credit none : Obj -> Int) = 0 := funext credit_none

@[simp] theorem credit_self (p : Obj) : credit (some p) p = 1 := if_pos rfl

theorem credit_of_ne {o p : Obj} (h : o ≠ p) : credit (some o) p = 0 :=
  if_neg (fun e => h (Option.some.inj e))

theorem credit_some [DecidableEq Obj] (o p : Obj) :
    credit (some o) p = if p = o then 1 else 0 := by
  by_cases h : p = o
  · rw [if_pos h, h, credit_self]
  · rw [if_neg h, credit_of_ne (fun e => h e.symm)]

/-- The slots that point at an object. -/
def pointing (slot : Slot -> Option Obj) (o : Obj) : Set Slot := { x | slot x = some o }

def Balanced (count : Obj -> Nat) (slot : Slot -> Option Obj) (extra : Obj -> Int) : Prop :=
  forall o, exists n : Nat, (pointing slot o).encard = n ∧ (count o : Int) = n + extra o

namespace Balanced

/-- A slot that points at an object accounts for one reference. -/
theorem slot_le (h : Balanced count slot extra) {x : Slot} {o : Obj} (hx : slot x = some o) :
    1 + extra o ≤ count o := by
  rcases h o with ⟨n, hcard, hn⟩
  have hpos : n ≠ 0 := by
    intro hzero
    rw [hzero] at hcard
    have hempty : pointing slot o = ∅ := Set.encard_eq_zero.mp hcard
    have hmem : x ∈ pointing slot o := hx
    rw [hempty] at hmem
    exact hmem
  lia

/-- Without credits the count is the number of slots. -/
theorem encard_eq (h : Balanced count slot extra) {o : Obj} (ho : extra o = 0) :
    (pointing slot o).encard = count o := by
  rcases h o with ⟨n, hcard, hn⟩
  have heq : count o = n := by lia
  rw [hcard, heq]

theorem of_encard (h : forall o, (pointing slot o).encard = count o) :
    Balanced count slot (fun _ => 0) := by
  intro o
  exact ⟨count o, h o, by lia⟩

theorem recount (h : Balanced count slot extra) (hslot : forall x, slot' x = slot x)
    (hcount : forall o, (count' o : Int) - extra' o = count o - extra o) :
    Balanced count' slot' extra' := by
  have heq : slot' = slot := funext hslot
  intro o
  rcases h o with ⟨n, hcard, hn⟩
  refine ⟨n, ?_, ?_⟩
  · rw [heq]
    exact hcard
  · have hc := hcount o
    lia

theorem encard_change {x : Slot} (hslot : forall y, y ≠ x -> slot' y = slot y) {o : Obj} {n : Nat}
    (hcard : (pointing slot o).encard = n) :
    exists m : Nat, (pointing slot' o).encard = m ∧
      (m : Int) = n - credit (slot x) o + credit (slot' x) o := by
  have hrest : pointing slot' o \ {x} = pointing slot o \ {x} := by
    ext y
    constructor
    · intro hy
      have hne : y ≠ x := hy.right
      exact ⟨by rw [pointing, Set.mem_ofPred_eq, <- hslot y hne]; exact hy.left, hy.right⟩
    · intro hy
      have hne : y ≠ x := hy.right
      exact ⟨by rw [pointing, Set.mem_ofPred_eq, hslot y hne]; exact hy.left, hy.right⟩
  have hold : exists k : Nat, (pointing slot o \ {x}).encard = k ∧
      (n : Int) = k + credit (slot x) o := by
    by_cases hx : slot x = some o
    · have hadd := Set.encard_sdiff_singleton_add_one (show x ∈ pointing slot o from hx)
      rw [hcard] at hadd
      have hfinite : (pointing slot o \ {x}).encard ≠ ⊤ := by
        intro htop
        rw [htop] at hadd
        exact ENat.natCast_ne_top n hadd.symm
      rcases ENat.ne_top_iff_exists.mp hfinite with ⟨k, hk⟩
      rw [<- hk] at hadd
      refine ⟨k, hk.symm, ?_⟩
      rw [hx, credit_self]
      have hnat : k + 1 = n := by exact_mod_cast hadd
      lia
    · have hsame : pointing slot o \ {x} = pointing slot o :=
        Set.sdiff_singleton_eq_self hx
      refine ⟨n, by rw [hsame, hcard], ?_⟩
      unfold credit
      rw [if_neg hx]
      lia
  rcases hold with ⟨k, hk, hn⟩
  by_cases hx : slot' x = some o
  · have hadd := Set.encard_sdiff_singleton_add_one (show x ∈ pointing slot' o from hx)
    rw [hrest, hk] at hadd
    refine ⟨k + 1, by rw [<- hadd]; rfl, ?_⟩
    rw [hx, credit_self]
    lia
  · have hsame : pointing slot' o \ {x} = pointing slot' o :=
      Set.sdiff_singleton_eq_self hx
    refine ⟨k, by rw [<- hsame, hrest, hk], ?_⟩
    have hzero : credit (slot' x) o = 0 := if_neg hx
    lia

/-- One slot is set; counts and credits make up for it. -/
theorem set_slot (h : Balanced count slot extra) (x : Slot)
    (hslot : forall y, y ≠ x -> slot' y = slot y)
    (hcount : forall o, (count' o : Int) - extra' o - credit (slot' x) o =
      count o - extra o - credit (slot x) o) :
    Balanced count' slot' extra' := by
  intro o
  rcases h o with ⟨n, hcard, hn⟩
  rcases encard_change hslot hcard with ⟨m, hm, hmn⟩
  have hc := hcount o
  exact ⟨m, hm, by lia⟩

end Balanced

theorem encard_pointing_sum {A B : Type} (slot : A ⊕ B -> Option Obj) (o : Obj) :
    (pointing slot o).encard =
      (pointing (fun a => slot (Sum.inl a)) o).encard +
        (pointing (fun b => slot (Sum.inr b)) o).encard := by
  have hunion : pointing slot o =
      Sum.inl '' pointing (fun a => slot (Sum.inl a)) o ∪
        Sum.inr '' pointing (fun b => slot (Sum.inr b)) o := by
    ext x
    cases x with
    | inl a =>
        constructor
        · exact fun h => Or.inl ⟨a, h, rfl⟩
        · intro hor
          rcases hor with ⟨b, hb, heq⟩ | ⟨b, hb, heq⟩
          · cases heq
            exact hb
          · cases heq
    | inr a =>
        constructor
        · exact fun h => Or.inr ⟨a, h, rfl⟩
        · intro hor
          rcases hor with ⟨b, hb, heq⟩ | ⟨b, hb, heq⟩
          · cases heq
          · cases heq
            exact hb
  have hdisjoint : Disjoint (Sum.inl '' pointing (fun a => slot (Sum.inl a)) o)
      (Sum.inr '' pointing (fun b => slot (Sum.inr b)) o) := by
    rw [Set.disjoint_left]
    intro x hex hex'
    rcases hex with ⟨a, -, ha⟩
    rcases hex' with ⟨b, -, hb⟩
    rw [<- hb] at ha
    cases ha
  rw [hunion, Set.encard_union_eq hdisjoint, Sum.inl_injective.injOn.encard_image,
    Sum.inr_injective.injOn.encard_image]

end Lib
end NicoOS
