import Mathlib.Tactic.Common

/-!
# Two-sided postconditions

A computation that may stop early meets a pair of conditions: one on its result
and one on what an early stop leaves.  Sequential composition keeps the second
condition and passes the first one on.
-/

namespace NicoOS
namespace Lib

universe u v

variable {α β : Type u} {ε : Type v}

def Meets (P : α -> Prop) (E : ε -> Prop) : Except ε α -> Prop
  | Except.ok a => P a
  | Except.error e => E e

theorem Meets.mono {P Q : α -> Prop} {E F : ε -> Prop} {r : Except ε α}
    (h : Meets P E r) (hP : forall a, P a -> Q a) (hE : forall e, E e -> F e) :
    Meets Q F r := by
  cases r with
  | ok a => exact hP a h
  | error e => exact hE e h

theorem Meets.of_ok {P : α -> Prop} {E : ε -> Prop} {r : Except ε α} {a : α}
    (h : Meets P E r) (hr : r = Except.ok a) : P a := by
  rw [hr] at h
  exact h

theorem Meets.of_error {P : α -> Prop} {E : ε -> Prop} {r : Except ε α} {e : ε}
    (h : Meets P E r) (hr : r = Except.error e) : E e := by
  rw [hr] at h
  exact h

theorem Meets.and {P Q : α -> Prop} {E F : ε -> Prop} {r : Except ε α} (h : Meets P E r)
    (h' : Meets Q F r) : Meets (fun a => P a ∧ Q a) (fun e => E e ∧ F e) r := by
  cases r with
  | ok a => exact And.intro h h'
  | error e => exact And.intro h h'

/-- The rest of a computation runs where the first part ends well. -/
theorem Meets.bind {P : α -> Prop} {Q : β -> Prop} {E : ε -> Prop} {r : Except ε α}
    {f : α -> Except ε β} (h : Meets P E r) (hf : forall a, P a -> Meets Q E (f a)) :
    Meets Q E (r >>= f) := by
  cases r with
  | ok a => exact hf a h
  | error e => exact h

/-- The same computation with its errors under another name. -/
theorem Meets.mapError {P : α -> Prop} {E : ε -> Prop} {F : ζ -> Prop} {r : Except ε α}
    {g : ε -> ζ} (h : Meets P E r) (hg : forall e, E e -> F (g e)) : Meets P F (r.mapError g) := by
  cases r with
  | ok a => exact h
  | error e => exact hg e h

/-- A computation that has no reason to fail ends well. -/
theorem Meets.ok {P : α -> Prop} {E : ε -> Prop} {r : Except ε α} (h : Meets P E r)
    (hno : forall e, Not (E e)) : exists a, r = Except.ok a ∧ P a := by
  cases r with
  | ok a => exact ⟨a, rfl, h⟩
  | error e => exact absurd h (hno e)

theorem ok_bind (a : α) (f : α -> Except ε β) : (Except.ok a >>= f) = f a := rfl

theorem error_bind (e : ε) (f : α -> Except ε β) :
    ((Except.error e : Except ε α) >>= f) = Except.error e := rfl

/-- A composition that ends well is a first part and a rest that do. -/
theorem bind_ok {r : Except ε α} {f : α -> Except ε β} {b : β}
    (h : (r >>= f) = Except.ok b) : exists a, r = Except.ok a ∧ f a = Except.ok b := by
  cases r with
  | ok a => exact ⟨a, rfl, h⟩
  | error e => cases h

end Lib
end NicoOS
