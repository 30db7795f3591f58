/-
# Transition systems

A small library about systems that take step after step.  A run may be restricted to
steps that meet a condition: `Reach ok` has the states of such runs, `Reachable` those of
all runs.  `Reach.invariant` is the rule for what holds in every state reached.
-/
import Mathlib.Logic.Basic

namespace Transition

/-- A transition system: where runs start, and which states an action leads to. -/
structure System (σ α : Type*) where
  init : σ → Prop
  step : σ → α → σ → Prop

variable {σ α : Type*} {sys : System σ α}

/-- The states of the runs whose steps all meet `ok`. -/
inductive System.Reach (sys : System σ α) (ok : σ → α → Prop) : σ → Prop
  | init {s : σ} (h : sys.init s) : sys.Reach ok s
  | step {s s' : σ} {a : α} (h : sys.Reach ok s) (hok : ok s a) (hstep : sys.step s a s') :
      sys.Reach ok s'

/-- The states of all runs. -/
def System.Reachable (sys : System σ α) (s : σ) : Prop := sys.Reach (fun _ _ => True) s

/-- The start is reached. -/
theorem System.Reachable.init {s : σ} (h : sys.init s) : sys.Reachable s :=
  System.Reach.init h

/-- So is what a step leads to. -/
theorem System.Reachable.step {s s' : σ} {a : α} (h : sys.Reachable s) (hstep : sys.step s a s') :
    sys.Reachable s' :=
  System.Reach.step h trivial hstep

/-- A weaker condition allows more runs. -/
theorem System.Reach.mono {ok ok' : σ → α → Prop} (hok : ∀ s a, ok s a → ok' s a) {s : σ}
    (h : sys.Reach ok s) : sys.Reach ok' s := by
  induction h with
  | init h => exact .init h
  | step _ ha hs ih => exact .step ih (hok _ _ ha) hs

/-- The runs that go on from a state. -/
def System.goingOn (sys : System σ α) (s : σ) : System σ α := { sys with init := (· = s) }

/-- **The invariant rule**: what holds at the start and is kept by every step that meets the
condition holds in every state reached. -/
theorem System.Reach.invariant {ok : σ → α → Prop} {I : σ → Prop}
    (hinit : ∀ s, sys.init s → I s) (hstep : ∀ s a s', I s → ok s a → sys.step s a s' → I s')
    {s : σ} (h : sys.Reach ok s) : I s := by
  induction h with
  | init h => exact hinit _ h
  | step _ hok hs ih => exact hstep _ _ _ ih hok hs

end Transition
