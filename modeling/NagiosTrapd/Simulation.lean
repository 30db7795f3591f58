/-
# Data types with operations

A data type is a state and what an operation does to it and answers.  An implementation may be
replaced by another one when a relation between their states is kept by every operation and no
operation answers differently: `Simulates.run` is the rule, that every sequence of operations
then has the same answers.
-/
import Mathlib.Logic.Basic

namespace Simulation

/-- States `σ`, operations `ο`, answers `ρ`. -/
structure DataType (σ ο ρ : Type*) where
  apply : σ → ο → ρ × σ

variable {σ σ' ο ρ : Type*}

/-- The answers to a sequence of operations, and the state behind them. -/
def DataType.run (d : DataType σ ο ρ) (s : σ) : List ο → List ρ × σ
  | [] => ([], s)
  | o :: os =>
      let (answer, s') := d.apply s o
      let (answers, s'') := d.run s' os
      (answer :: answers, s'')

@[simp] theorem DataType.run_nil (d : DataType σ ο ρ) (s : σ) : d.run s [] = ([], s) := rfl

theorem DataType.run_cons (d : DataType σ ο ρ) (s : σ) (o : ο) (os : List ο) :
    d.run s (o :: os)
      = ((d.apply s o).1 :: (d.run (d.apply s o).2 os).1, (d.run (d.apply s o).2 os).2) := rfl

/-- The answers to operations in front of others. -/
theorem DataType.run_append (d : DataType σ ο ρ) (s : σ) (os os' : List ο) :
    d.run s (os ++ os')
      = ((d.run s os).1 ++ (d.run (d.run s os).2 os').1, (d.run (d.run s os).2 os').2) := by
  induction os generalizing s with
  | nil => rfl
  | cons o os ih => rw [List.cons_append, run_cons, ih, run_cons, List.cons_append]

/-- `d` does what `d'` does, through `R`, for the operations in `ok`. -/
structure Simulates (d : DataType σ ο ρ) (d' : DataType σ' ο ρ) (ok : ο → Prop)
    (R : σ → σ' → Prop) : Prop where
  apply : ∀ {s s' o}, R s s' → ok o →
    (d.apply s o).1 = (d'.apply s' o).1 ∧ R (d.apply s o).2 (d'.apply s' o).2

/-- **The rule**: the same answers to every sequence of operations, and related states. -/
theorem Simulates.run {d : DataType σ ο ρ} {d' : DataType σ' ο ρ} {ok : ο → Prop}
    {R : σ → σ' → Prop} (h : Simulates d d' ok R) {s : σ} {s' : σ'} (hR : R s s') {os : List ο}
    (hos : ∀ o ∈ os, ok o) :
    (d.run s os).1 = (d'.run s' os).1 ∧ R (d.run s os).2 (d'.run s' os).2 := by
  induction os generalizing s s' with
  | nil => exact ⟨rfl, hR⟩
  | cons o os ih =>
      obtain ⟨ho, hrest⟩ := List.forall_mem_cons.mp hos
      obtain ⟨hanswer, hR'⟩ := h.apply hR ho
      obtain ⟨hanswers, hR''⟩ := ih hR' hrest
      rw [DataType.run_cons, DataType.run_cons, hanswer, hanswers]
      exact ⟨rfl, hR''⟩

/-- What every operation keeps holds behind every sequence of operations. -/
theorem DataType.run_invariant {d : DataType σ ο ρ} {I : σ → Prop} {ok : ο → Prop}
    (hstep : ∀ s o, I s → ok o → I (d.apply s o).2) {s : σ} (hs : I s) {os : List ο}
    (hos : ∀ o ∈ os, ok o) : I (d.run s os).2 := by
  induction os generalizing s with
  | nil => exact hs
  | cons o os ih =>
      obtain ⟨ho, hrest⟩ := List.forall_mem_cons.mp hos
      rw [run_cons]
      exact ih (hstep s o hs ho) hrest

end Simulation
