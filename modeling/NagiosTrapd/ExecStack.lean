/-
# The stack of `exec_trap` in memory (`exec.c`, `stack.c`)

`Exec` has the stack of `exec_trap` as a list and counts its executions beside it; the code has
both in the structure of `stack.c`.

**Main results:** `exec_stack_answers`: in every run the functions of `stack.c` answer what the
run has on its list.  `exec_trap_frees_nothing`: when the run is over, the items executed are all
allocated still, and `stack_free` frees neither them nor the structure.
-/
import NagiosTrapd.ExecRuns
import NagiosTrapd.Stack

namespace Trapd

open Cells Simulation

/-- What a turn does with the stack, from the test of the loop on. -/
def Round.stackOps (c : ExecCtx) (rd : Round) : List (StackOp ExecItem) :=
  [.getDepth, .countExecutions, .incrementExecutions, .pop]
    ++ (c.pushed rd.item (rd.lines c)).map .push

/-- What it learns of it. -/
def Round.stackAnswers (c : ExecCtx) (rd : Round) : List (StackAnswer ExecItem) :=
  [.rc (rd.item :: rd.rest).length, .rc rd.executions, .done, .data (some rd.item)]
    ++ (c.pushed rd.item (rd.lines c)).map fun _ => .rc 1

/-- The initial execution list goes onto the stack. -/
def initialOps (stack : List ExecItem) : List (StackOp ExecItem) := stack.reverse.map .push

/-- What a run does with the stack. -/
def ExecCtx.stackOps (c : ExecCtx) (stack : List ExecItem) : List (StackOp ExecItem) :=
  initialOps stack ++ (c.run stack).1.flatMap (Round.stackOps c)

/-- Items that are pushed, one after the other. -/
theorem lifo_run_push {α : Type} (xs : List α) (l : Lifo α) :
    (lifo α).run l (xs.map .push)
      = (xs.map fun _ => .rc 1, { l with items := xs.reverse ++ l.items }) := by
  induction xs generalizing l with
  | nil => rfl
  | cons x xs ih =>
      rw [List.map_cons, DataType.run_cons, show (lifo α).apply l (.push x)
        = (.rc 1, { l with items := x :: l.items }) from rfl, ih]
      simp

/-- **A turn**: the item is taken from the top, and what the turn pushes is on top then. -/
theorem Round.Sound.lifo_run {c : ExecCtx} {rd : Round} (h : rd.Sound c) (taken : ℕ) :
    (lifo ExecItem).run ⟨rd.item :: rd.rest, rd.executions, taken⟩ (rd.stackOps c)
      = (rd.stackAnswers c, ⟨rd.run.stack, (rd.executions + 1 : ℕ), taken + 1⟩) := by
  have hstack : rd.run.stack = (c.pushed rd.item (rd.lines c)).reverse ++ rd.rest := h.stack_eq
  rw [Round.stackOps, DataType.run_append]
  have hturn : (lifo ExecItem).run ⟨rd.item :: rd.rest, rd.executions, taken⟩
      [.getDepth, .countExecutions, .incrementExecutions, .pop]
      = ([.rc (rd.item :: rd.rest).length, .rc rd.executions, .done, .data (some rd.item)],
          ⟨rd.rest, (rd.executions + 1 : ℕ), taken + 1⟩) := rfl
  rw [hturn, lifo_run_push, hstack]
  rfl

/-- **The turns of a run.** -/
theorem lifo_run_execLoop (c : ExecCtx) (fuel : ℕ) :
    ∀ (executions : ℕ) (stack : List ExecItem) (taken : ℕ), ∃ final,
      (lifo ExecItem).run ⟨stack, executions, taken⟩
          ((execLoop c fuel executions stack).1.flatMap (Round.stackOps c))
        = ((execLoop c fuel executions stack).1.flatMap (Round.stackAnswers c), final) ∧
      final.taken = taken + (execLoop c fuel executions stack).1.length ∧
      ((execLoop c fuel executions stack).2 = .finished → final.items = []) := by
  induction fuel with
  | zero =>
      intro executions stack taken
      exact ⟨_, rfl, rfl, nofun⟩
  | succ fuel ih =>
      intro executions stack taken
      cases stack with
      | nil => exact ⟨_, rfl, rfl, fun _ => rfl⟩
      | cons item rest =>
          rcases execLoop_cases c fuel executions item rest with
            ⟨-, h⟩ | ⟨-, rd, rfl, rfl, rfl, hrd, ⟨halt, hhalt, h⟩ | ⟨-, h⟩⟩
          · rw [h]
            exact ⟨_, rfl, rfl, fun hfinished => Halt.noConfusion hfinished⟩
          · rw [h]
            have hne : halt ≠ .finished := by
              rcases Round.halt_cases hhalt with rfl | ⟨f, rfl⟩
              · exact Halt.noConfusion
              · exact Halt.noConfusion
            refine ⟨⟨rd.run.stack, (rd.executions + 1 : ℕ), taken + 1⟩, ?_, rfl,
              fun hfinished => absurd hfinished hne⟩
            simpa using hrd.lifo_run taken
          · rw [h]
            obtain ⟨final, hrun, htaken, hitems⟩ := ih (rd.executions + 1) rd.run.stack (taken + 1)
            refine ⟨final, ?_, ?_, hitems⟩
            · rw [List.flatMap_cons, List.flatMap_cons, DataType.run_append, hrd.lifo_run, hrun]
            · rw [htaken, List.length_cons]
              omega

/-- The stack as a list, in a run from the initial execution list on. -/
theorem lifo_run_stackOps (c : ExecCtx) (stack : List ExecItem) : ∃ final,
    (lifo ExecItem).run ⟨[], 0, 0⟩ (c.stackOps stack)
      = (stack.map (fun _ => .rc 1) ++ (c.run stack).1.flatMap (Round.stackAnswers c), final) ∧
    final.taken = (c.run stack).1.length ∧ ((c.run stack).2 = .finished → final.items = []) := by
  obtain ⟨final, hrun, htaken, hitems⟩ := lifo_run_execLoop c c.fuel 0 stack 0
  refine ⟨final, ?_, htaken.trans (Nat.zero_add _), hitems⟩
  have hpushed : (lifo ExecItem).run ⟨[], 0, 0⟩ (initialOps stack)
      = (stack.map fun _ => .rc 1, ⟨stack, (0 : ℕ), 0⟩) := by
    rw [initialOps, lifo_run_push]
    simp
  rw [ExecCtx.stackOps, DataType.run_append, hpushed]
  show (_ ++ ((lifo ExecItem).run ⟨stack, (0 : ℕ), 0⟩ _).1, _) = _
  rw [ExecCtx.run, hrun]

/-- **The stack of a run is the stack of `stack.c`**: its functions answer with the depth of the
list that the run has, with the number of its executions, and with the item that it executes. -/
theorem exec_stack_answers (c : ExecCtx) (stack : List ExecItem) :
    ((linkedStack ExecItem).run (Memory.empty, some stackInit) (c.stackOps stack)).1
      = stack.map (fun _ => .rc 1) ++ (c.run stack).1.flatMap (Round.stackAnswers c) := by
  obtain ⟨final, hrun, -⟩ := lifo_run_stackOps c stack
  rw [(linkedStack_simulates.run isLifo_init fun _ _ => trivial).1, hrun]

/-- **What `exec_trap` leaves in memory**: when it has executed all items and frees the stack, no
destructor is called, the structure stays, and so does one item for each execution. -/
theorem exec_trap_frees_nothing (c : ExecCtx) (stack : List ExecItem)
    (hfinished : (c.run stack).2 = .finished) :
    let s := ((linkedStack ExecItem).run (Memory.empty, some stackInit) (c.stackOps stack)).2
    s.2.isSome = true ∧ ∃ m', stackFree s.1 s.2 = .ok ([], m', s.2) ∧
      m'.live = (c.run stack).1.length := by
  intro s
  obtain ⟨final, hrun, htaken, hitems⟩ := lifo_run_stackOps c stack
  obtain ⟨t, as, ht, h⟩ : IsLifo s ((lifo ExecItem).run ⟨[], 0, 0⟩ (c.stackOps stack)).2 :=
    (linkedStack_simulates.run isLifo_init fun _ _ => trivial).2
  rw [hrun] at h
  obtain ⟨m', hlive, hfree⟩ := h.free
  rw [hitems hfinished, if_pos rfl] at hfree
  rw [ht]
  exact ⟨rfl, m', hfree, hlive.trans htaken⟩

/-- A run over two items. -/
theorem exec_trap_frees_nothing_two :
    let s := ((linkedStack ExecItem).run (Memory.empty, some stackInit)
      (bothReportCtx.stackOps oneAddressStack)).2
    s.2.isSome = true ∧ ∃ m', stackFree s.1 s.2 = .ok ([], m', s.2) ∧ m'.live = 2 := by
  have hlength : (bothReportCtx.run oneAddressStack).1.length = 2 := by decide
  rw [← hlength]
  exact exec_trap_frees_nothing bothReportCtx oneAddressStack (by decide)

end Trapd
