import Mathlib.Tactic.Common
import Mathlib.Logic.ExistsUnique

/-!
# Exclusive ownership

Places hold names of resources or the null name.  The places are exact for a set
of resources in use if every resource of the set is named by one place and no
other resource is named at all.
-/

namespace NicoOS
namespace Lib

universe u v

variable {Place : Type u} {Name : Type v}

structure Exact (null : Name) (ref : Place -> Name) (used : Name -> Prop) : Prop where
  used_of_ref : forall p, ref p ≠ null -> used (ref p)
  unique : forall p q, ref p = ref q -> ref p ≠ null -> p = q
  covered : forall a, used a -> a ≠ null ∧ exists p, ref p = a

namespace Exact

variable {null : Name} {ref ref' : Place -> Name} {used used' : Name -> Prop}

/-- A resource is in use just if one place, and only one, names it. -/
theorem used_iff (h : Exact null ref used) {a : Name} (ha : a ≠ null) :
    used a <-> ExistsUnique (fun p => ref p = a) := by
  constructor
  · intro hused
    rcases (h.covered a hused).right with ⟨p, hp⟩
    exists p
    constructor
    · exact hp
    · intro q hq
      exact h.unique q p (hq.trans hp.symm) (fun hnull => ha (hq.symm.trans hnull))
  · intro hone
    rcases hone with ⟨p, hp, _⟩
    have hused := h.used_of_ref p (fun hnull => ha (hp.symm.trans hnull))
    rw [hp] at hused
    exact hused

theorem congr (h : Exact null ref used) (href : forall p, ref' p = ref p)
    (hused : forall a, used' a <-> used a) : Exact null ref' used' where
  used_of_ref := by
    intro p hp
    rw [href p] at hp ⊢
    exact (hused _).mpr (h.used_of_ref p hp)
  unique := by
    intro p q heq hp
    rw [href p, href q] at heq
    rw [href p] at hp
    exact h.unique p q heq hp
  covered := by
    intro a ha
    rcases h.covered a ((hused a).mp ha) with ⟨hnull, p, hp⟩
    exact ⟨hnull, p, (href p).trans hp⟩

/-- An empty place takes a resource that was not in use. -/
theorem assign (h : Exact null ref used) {p : Place} {a : Name} (hp : ref p = null)
    (ha : a ≠ null) (hfree : Not (used a)) (hself : ref' p = a)
    (hother : forall q, q ≠ p -> ref' q = ref q)
    (hused : forall x, used' x <-> used x ∨ x = a) : Exact null ref' used' where
  used_of_ref := by
    intro q hq
    cases Classical.em (q = p) with
    | inl heq =>
        rw [heq, hself]
        exact (hused a).mpr (Or.inr rfl)
    | inr hne =>
        rw [hother q hne] at hq ⊢
        exact (hused _).mpr (Or.inl (h.used_of_ref q hq))
  unique := by
    have hnew : forall q, q ≠ p -> ref' q ≠ a := by
      intro q hne heq
      rw [hother q hne] at heq
      apply hfree
      rw [← heq]
      apply h.used_of_ref q
      rw [heq]
      exact ha
    intro q r heq hq
    cases Classical.em (q = p) with
    | inl hqp =>
        cases Classical.em (r = p) with
        | inl hrp => exact hqp.trans hrp.symm
        | inr hrp =>
            rw [hqp, hself] at heq
            exact absurd heq.symm (hnew r hrp)
    | inr hqp =>
        cases Classical.em (r = p) with
        | inl hrp =>
            rw [hrp, hself] at heq
            exact absurd heq (hnew q hqp)
        | inr hrp =>
            rw [hother q hqp, hother r hrp] at heq
            rw [hother q hqp] at hq
            exact h.unique q r heq hq
  covered := by
    intro x hx
    cases (hused x).mp hx with
    | inl hold =>
        rcases h.covered x hold with ⟨hnull, q, hq⟩
        have hne : q ≠ p := by
          intro heq
          rw [heq, hp] at hq
          exact hnull hq.symm
        exact ⟨hnull, q, (hother q hne).trans hq⟩
    | inr heq =>
        rw [heq]
        exact ⟨ha, p, hself⟩

theorem clear (h : Exact null ref used) {p : Place} (hself : ref' p = null)
    (hother : forall q, q ≠ p -> ref' q = ref q)
    (hused : forall x, used' x <-> used x ∧ x ≠ ref p) : Exact null ref' used' where
  used_of_ref := by
    intro q hq
    have hne : q ≠ p := by
      intro heq
      rw [heq] at hq
      exact hq hself
    rw [hother q hne] at hq ⊢
    apply (hused _).mpr
    exact And.intro (h.used_of_ref q hq) (fun heq => hne (h.unique q p heq hq))
  unique := by
    intro q r heq hq
    have hqp : q ≠ p := by
      intro hqp
      rw [hqp] at hq
      exact hq hself
    have hrp : r ≠ p := by
      intro hrp
      rw [heq, hrp] at hq
      exact hq hself
    rw [hother q hqp, hother r hrp] at heq
    rw [hother q hqp] at hq
    exact h.unique q r heq hq
  covered := by
    intro x hx
    rcases (hused x).mp hx with ⟨hold, hxp⟩
    rcases h.covered x hold with ⟨hnull, q, hq⟩
    have hne : q ≠ p := by
      intro heq
      rw [heq] at hq
      exact hxp hq.symm
    exact ⟨hnull, q, (hother q hne).trans hq⟩

end Exact

end Lib
end NicoOS
