import NicoOS.Lib.Outcome

/-!
# Programs over operations

A program asks for operations one after another and goes on with their answers.
It says nothing about what an operation does, so the same program can be run
without interruption or step by step among other programs.
-/

namespace NicoOS
namespace Lib

universe u

variable {Op : Type} {Answer : Op -> Type} {State : Type} {ε : Type u} {α β : Type}

inductive Program (Op : Type) (Answer : Op -> Type) (α : Type) where
  | ret (a : α)
  | ask (o : Op) (next : Answer o -> Program Op Answer α)

namespace Program

def bind : Program Op Answer α -> (α -> Program Op Answer β) -> Program Op Answer β
  | ret a, f => f a
  | ask o next, f => ask o (fun answer => bind (next answer) f)

instance : Monad (Program Op Answer) where
  pure := ret
  bind := bind

def op (o : Op) : Program Op Answer (Answer o) := ask o ret

@[simp] theorem pure_def (a : α) : (pure a : Program Op Answer α) = ret a := rfl

@[simp] theorem bind_def (p : Program Op Answer α) (f : α -> Program Op Answer β) :
    (p >>= f) = p.bind f := rfl

@[simp] theorem ret_bind (a : α) (f : α -> Program Op Answer β) : (ret a).bind f = f a := rfl

@[simp] theorem ask_bind (o : Op) (next : Answer o -> Program Op Answer α)
    (f : α -> Program Op Answer β) :
    (ask o next).bind f = ask o (fun answer => (next answer).bind f) := rfl

@[simp] theorem op_bind (o : Op) (f : Answer o -> Program Op Answer β) :
    (op o).bind f = ask o f := rfl

theorem bind_assoc_def (p : Program Op Answer α) (f : α -> Program Op Answer β) {γ : Type}
    (g : β -> Program Op Answer γ) :
    (p.bind f).bind g = p.bind (fun a => (f a).bind g) := by
  induction p with
  | ret a => rfl
  | ask o next ih => exact congrArg (ask o) (funext ih)

theorem bind_ret (p : Program Op Answer α) : p.bind ret = p := by
  induction p with
  | ret a => rfl
  | ask o next ih => exact congrArg (ask o) (funext ih)

instance : LawfulMonad (Program Op Answer) :=
  LawfulMonad.mk' _ bind_ret (fun _ _ => rfl) (fun p f g => bind_assoc_def p f g)

/-!
# Runs without interruption
-/

section Exec

variable (perform : (o : Op) -> State -> Except ε (Answer o × State))

def exec : Program Op Answer α -> State -> Except ε (α × State)
  | ret a, s => Except.ok (a, s)
  | ask o next, s => perform o s >>= fun r => exec (next r.1) r.2

variable {perform}

@[simp] theorem exec_ret (a : α) (s : State) :
    exec perform (ret a : Program Op Answer α) s = Except.ok (a, s) := rfl

theorem exec_ask (o : Op) (next : Answer o -> Program Op Answer α) (s : State) :
    exec perform (ask o next) s = perform o s >>= fun r => exec perform (next r.1) r.2 := rfl

theorem exec_bind (p : Program Op Answer α) (f : α -> Program Op Answer β) (s : State) :
    exec perform (p.bind f) s = exec perform p s >>= fun r => exec perform (f r.1) r.2 := by
  induction p generalizing s with
  | ret a => rfl
  | ask o next ih =>
      rw [ask_bind, exec_ask, exec_ask]
      cases perform o s with
      | error e => rfl
      | ok r => exact ih r.1 r.2

theorem exec_bind_ok {p : Program Op Answer α} {f : α -> Program Op Answer β} {s u : State}
    {a : α} (h : exec perform p s = Except.ok (a, u)) :
    exec perform (p >>= f) s = exec perform (f a) u := by
  rw [bind_def, exec_bind, h]
  rfl

theorem exec_bind_error {p : Program Op Answer α} {f : α -> Program Op Answer β} {s : State}
    {e : ε} (h : exec perform p s = Except.error e) :
    exec perform (p >>= f) s = Except.error e := by
  rw [bind_def, exec_bind, h]
  rfl

theorem exec_op_ok {o : Op} {f : Answer o -> Program Op Answer β} {s u : State} {a : Answer o}
    (h : perform o s = Except.ok (a, u)) :
    exec perform (op o >>= f) s = exec perform (f a) u := by
  rw [bind_def, op_bind, exec_ask, h]
  rfl

theorem exec_op_error {o : Op} {f : Answer o -> Program Op Answer β} {s : State} {e : ε}
    (h : perform o s = Except.error e) :
    exec perform (op o >>= f) s = Except.error e := by
  rw [bind_def, op_bind, exec_ask, h]
  rfl

/-!
# Conditions on the end of a run
-/

variable (perform) in
/-- Where the run from `s` gets to its end, its result and last state meet `Q`. -/
structure Ends (p : Program Op Answer α) (s : State) (Q : α -> State -> Prop) : Prop where
  run : forall a t, exec perform p s = Except.ok (a, t) -> Q a t

theorem ends_pure {a : α} {s : State} {Q : α -> State -> Prop} (h : Q a s) :
    Ends perform (pure a) s Q := by
  constructor
  intro b t hrun
  cases hrun
  exact h

/-- An operation and the rest of the program behind it. -/
theorem ends_op {o : Op} {f : Answer o -> Program Op Answer α} {s : State}
    {Q : α -> State -> Prop}
    (h : forall a t, perform o s = Except.ok (a, t) -> Ends perform (f a) t Q) :
    Ends perform (op o >>= f) s Q := by
  constructor
  intro b t hrun
  rcases bind_ok hrun with ⟨r, hr, hrest⟩
  exact (h r.1 r.2 hr).run b t hrest

theorem ends_last {o : Op} {s : State} {Q : Answer o -> State -> Prop}
    (h : forall a t, perform o s = Except.ok (a, t) -> Q a t) :
    Ends perform (op o) s Q := by
  constructor
  intro b t hrun
  rcases bind_ok hrun with ⟨r, hr, hrest⟩
  cases hrest
  exact h r.1 r.2 hr

/-- A first part and the rest of the program behind it. -/
theorem ends_bind {p : Program Op Answer α} {f : α -> Program Op Answer β} {s : State}
    {P : α -> State -> Prop} {Q : β -> State -> Prop} (h : Ends perform p s P)
    (hf : forall a t, exec perform p s = Except.ok (a, t) -> P a t -> Ends perform (f a) t Q) :
    Ends perform (p >>= f) s Q := by
  constructor
  intro b t hrun
  rw [bind_def, exec_bind] at hrun
  rcases bind_ok hrun with ⟨r, hr, hrest⟩
  exact (hf r.1 r.2 hr (h.run r.1 r.2 hr)).run b t hrest

theorem ends_mono {p : Program Op Answer α} {s : State} {P Q : α -> State -> Prop}
    (h : Ends perform p s P) (hPQ : forall a t, P a t -> Q a t) : Ends perform p s Q :=
  ⟨fun a t hrun => hPQ a t (h.run a t hrun)⟩

theorem ends_ite {c : Prop} [Decidable c] {p q : Program Op Answer α} {s : State}
    {Q : α -> State -> Prop} (hp : c -> Ends perform p s Q)
    (hq : Not c -> Ends perform q s Q) : Ends perform (if c then p else q) s Q := by
  by_cases h : c
  · rw [if_pos h]
    exact hp h
  · rw [if_neg h]
    exact hq h

end Exec

/-!
# Restricted programs
-/

/-- Every operation that the program may ask for meets `P`. -/
def Only (P : Op -> Prop) : Program Op Answer α -> Prop
  | ret _ => True
  | ask o next => P o ∧ forall answer, Only P (next answer)

section Only

variable {P : Op -> Prop}

theorem only_pure (a : α) : Only P (pure a : Program Op Answer α) := trivial

theorem only_op {o : Op} (h : P o) : Only P (op o : Program Op Answer (Answer o)) :=
  ⟨h, fun _ => trivial⟩

theorem only_bind {p : Program Op Answer α} {f : α -> Program Op Answer β}
    (hp : Only P p) (hf : forall a, Only P (f a)) : Only P (p >>= f) := by
  induction p with
  | ret a => exact hf a
  | ask o next ih => exact ⟨hp.left, fun answer => ih answer (hp.right answer)⟩

theorem only_ite {c : Prop} [Decidable c] {p q : Program Op Answer α}
    (hp : Only P p) (hq : Only P q) : Only P (if c then p else q) := by
  by_cases h : c
  · rw [if_pos h]
    exact hp
  · rw [if_neg h]
    exact hq

/-- What every allowed operation keeps, the program keeps. -/
theorem only_exec {perform : (o : Op) -> State -> Except ε (Answer o × State)}
    {R : State -> State -> Prop} (hrefl : forall s, R s s)
    (htrans : forall r s t, R r s -> R s t -> R r t)
    (hop : forall o s a t, P o -> perform o s = Except.ok (a, t) -> R s t)
    {p : Program Op Answer α} (hp : Only P p) (s : State) :
    Ends perform p s (fun _ t => R s t) := by
  induction p generalizing s with
  | ret a => exact ends_pure (hrefl s)
  | ask o next ih =>
      constructor
      intro b t hrun
      rcases bind_ok hrun with ⟨r, hr, hrest⟩
      have hfirst := hop o s r.1 r.2 hp.left hr
      exact htrans s r.2 t hfirst ((ih r.1 (hp.right r.1) r.2).run b t hrest)

theorem only_mono {R : Op -> Prop} (h : forall o, P o -> R o) {p : Program Op Answer α}
    (hp : Only P p) : Only R p := by
  induction p with
  | ret a => exact trivial
  | ask o next ih => exact ⟨h o hp.left, fun answer => ih answer (hp.right answer)⟩

/-- A stop that no allowed operation makes, the program does not make. -/
theorem only_ne_error {perform : (o : Op) -> State -> Except ε (Answer o × State)} {e : ε}
    (hop : forall o s, P o -> perform o s ≠ Except.error e)
    {p : Program Op Answer α} (hp : Only P p) (s : State) :
    exec perform p s ≠ Except.error e := by
  induction p generalizing s with
  | ret a =>
      intro h
      cases h
  | ask o next ih =>
      rw [exec_ask]
      have hfirst := hop o s hp.left
      cases hrun : perform o s with
      | error e' =>
          rw [hrun] at hfirst
          intro h
          cases h
          exact hfirst rfl
      | ok r => exact ih r.1 (hp.right r.1) r.2

end Only

/-- Every result that the program may return meets `Q`. -/
def Yields (Q : α -> Prop) : Program Op Answer α -> Prop
  | ret a => Q a
  | ask _ next => forall answer, Yields Q (next answer)

section Yields

variable {P : Op -> Prop} {R : α -> Prop} {Q : β -> Prop}

theorem yields_bind {p : Program Op Answer α} {f : α -> Program Op Answer β}
    (hp : Yields R p) (hf : forall a, R a -> Yields Q (f a)) : Yields Q (p >>= f) := by
  induction p with
  | ret a => exact hf a hp
  | ask o next ih => exact fun answer => ih answer (hp answer)

theorem yields_any (p : Program Op Answer α) : Yields (fun _ => True) p := by
  induction p with
  | ret a => exact trivial
  | ask o next ih => exact ih

theorem yields_mono {R' : α -> Prop} (h : forall a, R a -> R' a) {p : Program Op Answer α}
    (hp : Yields R p) : Yields R' p := by
  induction p with
  | ret a => exact h a hp
  | ask o next ih => exact fun answer => ih answer (hp answer)

theorem yields_ite {c : Prop} [Decidable c] {p q : Program Op Answer α}
    (hp : Yields R p) (hq : Yields R q) : Yields R (if c then p else q) := by
  by_cases h : c
  · rw [if_pos h]
    exact hp
  · rw [if_neg h]
    exact hq

theorem only_bind_of_yields {p : Program Op Answer α} {f : α -> Program Op Answer β}
    (hp : Only P p) (hy : Yields R p) (hf : forall a, R a -> Only P (f a)) :
    Only P (p >>= f) := by
  induction p with
  | ret a => exact hf a hy
  | ask o next ih =>
      exact ⟨hp.left, fun answer => ih answer (hp.right answer) (hy answer)⟩

end Yields

/-!
# Stops that are not made
-/

section Avoids

variable (perform : (o : Op) -> State -> Except ε (Answer o × State))

/-- The run from `s` does not make the stop `e`, and an end of it meets `Q`. -/
structure Avoids (e : ε) (p : Program Op Answer α) (s : State) (Q : α -> State -> Prop) :
    Prop where
  run : Meets (fun r => Q r.1 r.2) (fun f => f ≠ e) (exec perform p s)

variable {perform} {e : ε} {s : State}

theorem Avoids.ends {p : Program Op Answer α} {Q : α -> State -> Prop}
    (h : Avoids perform e p s Q) : Ends perform p s Q :=
  ⟨fun _ _ hrun => h.run.of_ok hrun⟩

theorem Avoids.ne {p : Program Op Answer α} {Q : α -> State -> Prop}
    (h : Avoids perform e p s Q) : exec perform p s ≠ Except.error e :=
  fun hrun => h.run.of_error hrun rfl

theorem avoids_of_ends {p : Program Op Answer α} {Q : α -> State -> Prop}
    (hno : exec perform p s ≠ Except.error e) (h : Ends perform p s Q) :
    Avoids perform e p s Q := by
  constructor
  cases hrun : exec perform p s with
  | error f =>
      intro heq
      rw [hrun, heq] at hno
      exact hno rfl
  | ok r => exact h.run r.1 r.2 hrun

theorem avoids_pure {a : α} {Q : α -> State -> Prop} (h : Q a s) :
    Avoids perform e (pure a) s Q :=
  ⟨h⟩

theorem avoids_bind {p : Program Op Answer α} {f : α -> Program Op Answer β}
    {P : α -> State -> Prop} {Q : β -> State -> Prop} (h : Avoids perform e p s P)
    (hf : forall a t, P a t -> Avoids perform e (f a) t Q) : Avoids perform e (p >>= f) s Q := by
  constructor
  rw [bind_def, exec_bind]
  exact h.run.bind (fun r hr => (hf r.1 r.2 hr).run)

/-- An operation and the rest of the program behind it. -/
theorem avoids_op {o : Op} {f : Answer o -> Program Op Answer α} {Q : α -> State -> Prop}
    (hno : perform o s ≠ Except.error e)
    (h : forall a t, perform o s = Except.ok (a, t) -> Avoids perform e (f a) t Q) :
    Avoids perform e (op o >>= f) s Q := by
  constructor
  rw [bind_def, op_bind, exec_ask]
  cases hrun : perform o s with
  | error g =>
      intro heq
      rw [hrun, heq] at hno
      exact hno rfl
  | ok r => exact (h r.1 r.2 hrun).run

theorem avoids_last {o : Op} {Q : Answer o -> State -> Prop}
    (hno : perform o s ≠ Except.error e)
    (h : forall a t, perform o s = Except.ok (a, t) -> Q a t) :
    Avoids perform e (op o) s Q := by
  constructor
  have hlast : exec perform (op o) s = perform o s := by
    show (perform o s >>= fun r => Except.ok (r.1, r.2)) = perform o s
    cases perform o s with
    | error g => rfl
    | ok r => rfl
  rw [hlast]
  cases hrun : perform o s with
  | error g =>
      intro heq
      rw [hrun, heq] at hno
      exact hno rfl
  | ok r => exact h r.1 r.2 hrun

theorem avoids_mono {p : Program Op Answer α} {P Q : α -> State -> Prop}
    (h : Avoids perform e p s P) (hPQ : forall a t, P a t -> Q a t) :
    Avoids perform e p s Q :=
  ⟨h.run.mono (fun r hr => hPQ r.1 r.2 hr) (fun _ hf => hf)⟩

theorem avoids_ite {c : Prop} [Decidable c] {p q : Program Op Answer α}
    {Q : α -> State -> Prop} (hp : c -> Avoids perform e p s Q)
    (hq : Not c -> Avoids perform e q s Q) : Avoids perform e (if c then p else q) s Q := by
  by_cases h : c
  · rw [if_pos h]
    exact hp h
  · rw [if_neg h]
    exact hq h

end Avoids

end Program
end Lib
end NicoOS
