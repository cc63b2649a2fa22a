import NicoOS.Lib.Program

/-!
# Programs and nesting depth

Some operations open or close a bracket, and some need to be inside one.  A program
is followed through the depths at which it asks for its operations, whatever the
answers that the depth allows.
-/

namespace NicoOS
namespace Lib

variable {Op : Type} {Answer : Op -> Type} {α β : Type}

/-- What an operation needs of the depth, which answers it allows, and the depth behind it. -/
structure Nesting (Op : Type) (Answer : Op -> Type) where
  need : Op -> Nat -> Prop
  may : (o : Op) -> Answer o -> Nat -> Prop
  after : Op -> Nat -> Nat

namespace Nesting

variable {n : Nesting Op Answer}

/-- The program runs from one depth to another, and every operation has what it needs. -/
def Runs (n : Nesting Op Answer) : Program Op Answer α -> Nat -> Nat -> Prop
  | Program.ret _, d, e => d = e
  | Program.ask o next, d, e =>
      n.need o d ∧ forall a, n.may o a d -> Runs n (next a) (n.after o d) e

theorem runs_pure (a : α) (d : Nat) : n.Runs (pure a : Program Op Answer α) d d := rfl

theorem runs_op {o : Op} {d : Nat} (h : n.need o d) :
    n.Runs (Program.op o : Program Op Answer (Answer o)) d (n.after o d) :=
  And.intro h (fun _ _ => rfl)

theorem runs_bind {p : Program Op Answer α} {f : α -> Program Op Answer β} {d e e' : Nat}
    (hp : n.Runs p d e) (hf : forall a, n.Runs (f a) e e') : n.Runs (p >>= f) d e' := by
  induction p generalizing d with
  | ret a =>
      have heq : d = e := hp
      rw [heq]
      exact hf a
  | ask o next ih => exact And.intro hp.left (fun a hmay => ih a (hp.right a hmay))

/-- The program keeps the depth, where it starts at one that meets `C`. -/
def Within (n : Nesting Op Answer) (C : Nat -> Prop) (p : Program Op Answer α) : Prop :=
  forall d, C d -> n.Runs p d d

/-- The program closes the bracket that it runs in. -/
def Closes (n : Nesting Op Answer) (p : Program Op Answer α) : Prop :=
  forall d, n.Runs p (d + 1) d

/-- The depths inside a bracket. -/
def Open (d : Nat) : Prop := 0 < d

section Rules

variable {C : Nat -> Prop} {p q : Program Op Answer α} {f : α -> Program Op Answer β}

theorem within_pure (a : α) : n.Within C (pure a : Program Op Answer α) :=
  fun d _ => runs_pure a d

theorem Within.any (h : n.Within (fun _ => True) p) : n.Within C p := fun d _ => h d trivial

theorem within_bind (hp : n.Within C p) (hf : forall a, n.Within C (f a)) :
    n.Within C (p >>= f) :=
  fun d hd => runs_bind (hp d hd) (fun a => hf a d hd)

theorem closes_bind (hp : n.Within Open p) (hf : forall a, n.Closes (f a)) : n.Closes (p >>= f) :=
  fun d => runs_bind (hp (d + 1) (Nat.succ_pos d)) (fun a => hf a d)

/-- The bracket is closed, and the rest keeps the depth. -/
theorem closes_then (hp : n.Closes p) (hf : forall a, n.Within (fun _ => True) (f a)) :
    n.Closes (p >>= f) :=
  fun d => runs_bind (hp d) (fun a => hf a d trivial)

theorem within_open (hp : forall d, n.Runs p d (d + 1)) (hf : forall a, n.Closes (f a)) :
    n.Within C (p >>= f) :=
  fun d _ => runs_bind (hp d) (fun a => hf a d)

variable {c : Prop} [Decidable c]

theorem within_ite (hp : n.Within C p) (hq : n.Within C q) :
    n.Within C (if c then p else q) := by
  split
  · exact hp
  · exact hq

theorem closes_ite (hp : n.Closes p) (hq : n.Closes q) : n.Closes (if c then p else q) := by
  split
  · exact hp
  · exact hq

end Rules

end Nesting
end Lib
end NicoOS
