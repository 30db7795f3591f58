/-
# Work lists

A small library about working off a list: a turn takes the first item and puts
others in front of the rest.  Nothing is lost and nothing doubled
(`Runs.conserved`): what has been taken and what is left are together what was there
and what was put in front.
-/
import Mathlib.Data.List.Perm.Basic

namespace Worklist

variable {α : Type*}

/-- `Runs start turns final`: from `start`, each turn takes an item and pushes others,
and `final` is left. -/
inductive Runs : List α → List (α × List α) → List α → Prop
  | stop (start : List α) : Runs start [] start
  | turn {item : α} {rest pushed final : List α} {turns : List (α × List α)}
      (h : Runs (pushed ++ rest) turns final) :
      Runs (item :: rest) ((item, pushed) :: turns) final

/-- **Items are conserved.** -/
theorem Runs.conserved {start final : List α} {turns : List (α × List α)}
    (h : Runs start turns final) :
    (turns.map Prod.fst ++ final).Perm (start ++ turns.flatMap Prod.snd) := by
  induction h with
  | stop start => simp
  | @turn item rest pushed final turns _ ih =>
      have hswap : (pushed ++ rest ++ turns.flatMap Prod.snd).Perm
          (rest ++ (pushed ++ turns.flatMap Prod.snd)) := by
        rw [← List.append_assoc]
        exact (List.perm_append_comm).append_right _
      exact (ih.trans hswap).cons item

/-- Nothing is left exactly when each item, old or pushed, has been taken once. -/
theorem Runs.final_eq_nil_iff {start final : List α} {turns : List (α × List α)}
    (h : Runs start turns final) :
    final = [] ↔ (turns.map Prod.fst).Perm (start ++ turns.flatMap Prod.snd) := by
  constructor
  · rintro rfl
    simpa using h.conserved
  · intro hperm
    have hlength := hperm.length_eq
    have hall := h.conserved.length_eq
    rw [List.length_append] at hall
    exact List.length_eq_zero_iff.mp (by omega)

end Worklist
