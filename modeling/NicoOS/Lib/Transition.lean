import Mathlib.Tactic.Common

/-!
# Runs of a partial step function

A system is given by a step function that may refuse an action.  A run may be
restricted to steps that meet a condition on the state before the step; the
invariant rule then needs to be checked under that condition only.
-/

namespace NicoOS
namespace Lib

universe u v

variable {State : Type u} {Action : Type v}

/-- States reached from `start` by steps that all meet `ok`. -/
inductive Reaches (step : State -> Action -> Option State)
    (ok : State -> Action -> Prop) (start : State) : State -> Prop where
  | refl : Reaches step ok start start
  | next {s t : State} {a : Action} :
      Reaches step ok start s -> ok s a -> step s a = some t ->
      Reaches step ok start t

/-- What holds at the start and is kept by every step holds wherever a run gets. -/
theorem Reaches.invariant {step : State -> Action -> Option State}
    {ok : State -> Action -> Prop} {start : State} {P : State -> Prop}
    (hstart : P start)
    (hstep : forall s t a, P s -> ok s a -> step s a = some t -> P t)
    {s : State} (h : Reaches step ok start s) : P s := by
  induction h with
  | refl => exact hstart
  | next _ hok hs ih => exact hstep _ _ _ ih hok hs

theorem Reaches.mono {step : State -> Action -> Option State}
    {ok ok' : State -> Action -> Prop} {start s : State}
    (h : Reaches step ok start s) (hok : forall r a, ok r a -> ok' r a) :
    Reaches step ok' start s := by
  induction h with
  | refl => exact Reaches.refl
  | next _ ha hs ih => exact Reaches.next ih (hok _ _ ha) hs

theorem Reaches.trans {step : State -> Action -> Option State}
    {ok : State -> Action -> Prop} {r s t : State}
    (hrs : Reaches step ok r s) (hst : Reaches step ok s t) :
    Reaches step ok r t := by
  induction hst with
  | refl => exact hrs
  | next _ hok hs ih => exact Reaches.next ih hok hs

/-- Run a list of actions, stopping at the first refused one. -/
def runFrom (step : State -> Action -> Option State) :
    State -> List Action -> Option State
  | s, [] => some s
  | s, a :: rest =>
      match step s a with
      | none => none
      | some t => runFrom step t rest

@[simp] theorem runFrom_nil (step : State -> Action -> Option State)
    (s : State) : runFrom step s [] = some s := rfl

theorem runFrom_cons_of_step {step : State -> Action -> Option State}
    {s t : State} {a : Action} (rest : List Action) (h : step s a = some t) :
    runFrom step s (a :: rest) = runFrom step t rest := by
  rw [runFrom, h]

/-- The condition holds before every step of the run. -/
def RunMeets (step : State -> Action -> Option State)
    (ok : State -> Action -> Prop) : State -> List Action -> Prop
  | _, [] => True
  | s, a :: rest =>
      ok s a ∧ forall t, step s a = some t -> RunMeets step ok t rest

theorem runFrom_reaches {step : State -> Action -> Option State}
    {ok : State -> Action -> Prop} {s t : State} {as : List Action}
    (hok : RunMeets step ok s as) (h : runFrom step s as = some t) :
    Reaches step ok s t := by
  induction as generalizing s with
  | nil =>
      cases h
      exact Reaches.refl
  | cons a rest ih =>
      cases hs : step s a with
      | none =>
          rw [runFrom, hs] at h
          cases h
      | some r =>
          rw [runFrom_cons_of_step rest hs] at h
          have hfirst := Reaches.next Reaches.refl hok.left hs
          exact Reaches.trans hfirst (ih (hok.right r hs) h)

def runCheck (step : State -> Action -> Option State)
    (test : State -> Action -> Bool) : State -> List Action -> Bool
  | _, [] => true
  | s, a :: rest =>
      test s a &&
        match step s a with
        | none => true
        | some t => runCheck step test t rest

theorem runMeets_of_runCheck {step : State -> Action -> Option State}
    {ok : State -> Action -> Prop} {test : State -> Action -> Bool}
    (htest : forall s a, test s a = true -> ok s a) {s : State} {as : List Action}
    (h : runCheck step test s as = true) : RunMeets step ok s as := by
  induction as generalizing s with
  | nil => exact trivial
  | cons a rest ih =>
      rcases Bool.and_eq_true_iff.mp h with ⟨hfirst, hrest⟩
      refine ⟨htest s a hfirst, ?_⟩
      intro t hstep
      rw [hstep] at hrest
      exact ih hrest

/-- A run that evaluates and passes the test gives a reached state. -/
theorem reaches_of_runCheck {step : State -> Action -> Option State}
    {ok : State -> Action -> Prop} {test : State -> Action -> Bool}
    (htest : forall s a, test s a = true -> ok s a) {s : State} {as : List Action}
    (hcheck : runCheck step test s as = true) (hrun : (runFrom step s as).isSome = true) :
    exists t, runFrom step s as = some t ∧ Reaches step ok s t := by
  rcases Option.isSome_iff_exists.mp hrun with ⟨t, ht⟩
  exact ⟨t, ht, runFrom_reaches (runMeets_of_runCheck htest hcheck) ht⟩

end Lib
end NicoOS
