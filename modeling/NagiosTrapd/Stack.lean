/-
# The stack (`stack.c`)

A stack is a structure and a chain of items in memory, the top of the stack first.  `stack_pop`
cuts off the first item and hands it out; whoever takes it has to free it.

**Main results:** `stack_is_lifo`: any sequence of operations is answered as by a list, last in,
first out, and touches no memory that is not allocated.  `stack_free_items`: `stack_free` passes
the data that are left to the destructor, once each and from the top on; items that have been
popped stay allocated, and so does the structure of a stack that is empty.
-/
import NagiosTrapd.Cells
import NagiosTrapd.Simulation

namespace Trapd

open Cells Simulation

variable {α : Type}

/-- `struct stack_t`; its items are cells. -/
structure StackT where
  top : Option ℕ
  bottom : Option ℕ
  depth : ℤ
  executions : ℤ
  deriving DecidableEq, Repr

/-- What would go wrong: an assertion, an item that is not there, a loop without end. -/
inductive StackFault
  | assertion
  | noItem
  | endless
  deriving DecidableEq, Repr

/-- `stack_init`. -/
def stackInit : StackT := ⟨none, none, 0, 0⟩

/-- `stack_increment_executions`. -/
def stackIncrementExecutions (stack : StackT) : StackT :=
  { stack with executions := stack.executions + 1 }

/-- `stack_count_executions`. -/
def stackCountExecutions (stack : StackT) : ℤ := stack.executions

/-- `stack_get_depth`; the stack may be NULL. -/
def stackGetDepth : Option StackT → ℤ
  | none => -1
  | some stack => stack.depth

/-- `stack_push`. -/
def stackPush (m : Memory α) (stack : Option StackT) (data : α) :
    Except StackFault (ℤ × Memory α × Option StackT) :=
  match stack with
  | none => .ok (0, m, none)
  | some s =>
      if stackGetDepth stack < 0 then .error .assertion
      else
        let (new, m) := m.alloc ⟨data, s.top⟩
        .ok (1, m, some { s with top := some new, depth := s.depth + 1 })

/-- `stack_pop`. -/
def stackPop (m : Memory α) (stack : Option StackT) :
    Except StackFault (Option ℕ × Memory α × Option StackT) :=
  match stack with
  | none => .ok (none, m, none)
  | some s =>
      if stackGetDepth stack = 0 then .ok (none, m, stack)
      else
        match s.top with
        | none => .error .noItem
        | some item =>
            match m.cells item with
            | none => .error .noItem
            | some cell =>
                match m.write item { cell with next := none } with
                | none => .error .noItem
                | some m => .ok (some item, m, some { s with top := cell.next, depth := s.depth - 1 })

/-- `stack_get_data`. -/
def stackGetData (m : Memory α) : Option ℕ → Except StackFault (Option α)
  | none => .ok none
  | some item =>
      match m.cells item with
      | none => .error .noItem
      | some cell => .ok (some cell.data)

/-- The loop of `stack_free`, with a bound on its turns: what the destructor is called with, and
the memory. -/
def freeItems : ℕ → Memory α → Option ℕ → Except StackFault (List α × Memory α)
  | _, m, none => .ok ([], m)
  | 0, _, some _ => .error .endless
  | bound + 1, m, some top =>
      match m.cells top with
      | none => .error .noItem
      | some cell =>
          match m.free top with
          | none => .error .noItem
          | some m => do
              let (destroyed, m) ← freeItems bound m cell.next
              .ok (cell.data :: destroyed, m)

/-- `stack_free`: what the destructor is called with, the memory, and the structure, if it has
not been freed. -/
def stackFree (m : Memory α) (stack : Option StackT) :
    Except StackFault (List α × Memory α × Option StackT) :=
  match stack with
  | none => .ok ([], m, none)
  | some s =>
      match s.top with
      -- return, with the structure allocated
      | none => .ok ([], m, stack)
      | some top => do
          let (destroyed, m) ← freeItems m.fresh m (some top)
          .ok (destroyed, m, none)

/-! ## Operations -/

/-- The operations on a stack; `pop` is followed by `stack_get_data`. -/
inductive StackOp (α : Type)
  | push (data : α)
  | pop
  | getDepth
  | incrementExecutions
  | countExecutions
  deriving DecidableEq, Repr

/-- What they return. -/
inductive StackAnswer (α : Type)
  | rc (n : ℤ)
  | data (d : Option α)
  | done
  | fault (f : StackFault)
  deriving DecidableEq, Repr

/-- A stack in memory with its functions. -/
def linkedStack (α : Type) :
    DataType (Memory α × Option StackT) (StackOp α) (StackAnswer α) where
  apply s
    | .push data =>
        match stackPush s.1 s.2 data with
        | .error f => (.fault f, s)
        | .ok (rc, s) => (.rc rc, s)
    | .pop =>
        match stackPop s.1 s.2 with
        | .error f => (.fault f, s)
        | .ok (item, s) =>
            match stackGetData s.1 item with
            | .error f => (.fault f, s)
            | .ok data => (.data data, s)
    | .getDepth => (.rc (stackGetDepth s.2), s)
    | .incrementExecutions => (.done, s.1, s.2.map stackIncrementExecutions)
    | .countExecutions =>
        match s.2 with
        | none => (.fault .noItem, s)
        | some stack => (.rc (stackCountExecutions stack), s)

/-- What a stack is: the data on it, the counter, and how many data have been taken. -/
structure Lifo (α : Type) where
  items : List α
  executions : ℤ
  taken : ℕ
  deriving DecidableEq, Repr

/-- The stack as a list. -/
def lifo (α : Type) : DataType (Lifo α) (StackOp α) (StackAnswer α) where
  apply l
    | .push data => (.rc 1, { l with items := data :: l.items })
    | .pop =>
        match l.items with
        | [] => (.data none, l)
        | data :: items => (.data (some data), { l with items := items, taken := l.taken + 1 })
    | .getDepth => (.rc l.items.length, l)
    | .incrementExecutions => (.done, { l with executions := l.executions + 1 })
    | .countExecutions => (.rc l.executions, l)

/-- The stack is linked in memory, and no other cells are there but those that have been taken
from it. -/
structure StackT.Has (s : StackT) (m : Memory α) (as : List ℕ) (l : Lifo α) : Prop where
  chain : Chain m s.top as l.items
  depth : s.depth = l.items.length
  executions : s.executions = l.executions
  live : m.live = l.items.length + l.taken

/-- A stack and the list that it is. -/
def IsLifo (s : Memory α × Option StackT) (l : Lifo α) : Prop :=
  ∃ stack as, s.2 = some stack ∧ stack.Has s.1 as l

theorem isLifo_init : IsLifo (Memory.empty, some stackInit) (⟨[], 0, 0⟩ : Lifo α) :=
  ⟨stackInit, [], rfl, .nil, rfl, rfl, rfl⟩

variable {m : Memory α} {s : StackT} {as : List ℕ} {l : Lifo α}

/-- `stack_push` puts a new item on top. -/
theorem StackT.Has.push (h : s.Has m as l) (data : α) :
    ∃ m' s', stackPush m (some s) data = .ok (1, m', some s') ∧
      s'.Has m' (m.fresh :: as) { l with items := data :: l.items } := by
  have hdepth : ¬ stackGetDepth (some s) < 0 := by
    show ¬ s.depth < 0
    rw [h.depth]
    omega
  refine ⟨_, _, if_neg hdepth, h.chain.alloc data, ?_, h.executions, ?_⟩
  · show s.depth + 1 = _
    rw [h.depth, List.length_cons]
    push_cast
    rfl
  · show (m.alloc ⟨data, s.top⟩).2.live = (data :: l.items).length + l.taken
    rw [Memory.live_alloc, h.live, List.length_cons]
    omega

/-- From an empty stack nothing is taken. -/
theorem StackT.Has.pop_nil (h : s.Has m as l) (hitems : l.items = []) :
    stackPop m (some s) = .ok (none, m, some s) := by
  have hdepth : stackGetDepth (some s) = 0 := by
    show s.depth = 0
    rw [h.depth, hitems]
    rfl
  exact if_pos hdepth

/-- `stack_pop` takes the top item, which has its data still. -/
theorem StackT.Has.pop (h : s.Has m as l) {x : α} {xs : List α} (hitems : l.items = x :: xs) :
    ∃ item m' s' as', stackPop m (some s) = .ok (some item, m', some s') ∧
      stackGetData m' (some item) = .ok (some x) ∧
      s'.Has m' as' { l with items := xs, taken := l.taken + 1 } := by
  obtain ⟨hchain, hdepth, hexecutions, hlive⟩ := h
  rw [hitems] at hchain hdepth hlive
  have hne : ¬ stackGetDepth (some s) = 0 := by
    show ¬ s.depth = 0
    rw [hdepth, List.length_cons]
    omega
  obtain ⟨top, bottom, depth, executions⟩ := s
  cases hchain with
  | @cons a next as _ _ hcell hnot hrest =>
      obtain ⟨m', hwrite, hcells, hfresh⟩ := Memory.write_eq hcell ⟨x, none⟩
      refine ⟨a, m', ⟨next, bottom, depth - 1, executions⟩, as, ?_, ?_, ?_⟩
      · simp only [stackPop, if_neg hne, hcell, hwrite]
      · rw [stackGetData, hcells, Function.update_self]
      · refine ⟨hrest.cut hnot hcells, ?_, hexecutions, ?_⟩
        · show depth - 1 = _
          rw [show depth = _ from hdepth, List.length_cons]
          push_cast
          omega
        · rw [Memory.live_write hcell hwrite, hlive, List.length_cons]
          show xs.length + 1 + l.taken = xs.length + (l.taken + 1)
          omega

theorem linkedStack_simulates :
    Simulates (linkedStack α) (lifo α) (fun _ => True) IsLifo where
  apply {w l op} h _ := by
    obtain ⟨m, _⟩ := w
    obtain ⟨s, as, rfl, h⟩ := h
    cases op with
    | push data =>
        obtain ⟨m', s', hpush, hs'⟩ := h.push data
        simp only [linkedStack, lifo, hpush]
        exact ⟨trivial, s', _, rfl, hs'⟩
    | pop =>
        cases hitems : l.items with
        | nil =>
            simp only [linkedStack, lifo, h.pop_nil hitems, hitems, stackGetData]
            exact ⟨trivial, s, as, rfl, h⟩
        | cons x xs =>
            obtain ⟨item, m', s', as', hpop, hdata, hs'⟩ := h.pop hitems
            simp only [linkedStack, lifo, hpop, hdata, hitems]
            exact ⟨trivial, s', as', rfl, hs'⟩
    | getDepth =>
        refine ⟨?_, s, as, rfl, h⟩
        show StackAnswer.rc s.depth = .rc _
        rw [h.depth]
    | incrementExecutions =>
        refine ⟨rfl, stackIncrementExecutions s, as, rfl, h.chain, h.depth, ?_, h.live⟩
        show s.executions + 1 = l.executions + 1
        rw [h.executions]
    | countExecutions =>
        refine ⟨?_, s, as, rfl, h⟩
        show StackAnswer.rc s.executions = .rc _
        rw [h.executions]

/-- **Last in, first out**: every sequence of operations on a fresh stack is answered as by a
list, so that none of them uses an item that is not there. -/
theorem stack_is_lifo (ops : List (StackOp α)) :
    ((linkedStack α).run (Memory.empty, some stackInit) ops).1
      = ((lifo α).run ⟨[], 0, 0⟩ ops).1 :=
  (linkedStack_simulates.run isLifo_init fun _ _ => trivial).1

/-! ## The end of a stack -/

/-- **The loop of `stack_free`** takes every item of a chain, from its head on. -/
theorem freeItems_chain {p : Option ℕ} {xs : List α} (h : Chain m p as xs) :
    ∀ {bound : ℕ}, as.length ≤ bound →
      ∃ m', freeItems bound m p = .ok (xs, m') ∧ m'.live + xs.length = m.live := by
  induction as generalizing m p xs with
  | nil =>
      intro bound _
      cases h
      exact ⟨m, by cases bound <;> rfl, rfl⟩
  | cons a as ih =>
      intro bound hbound
      cases h with
      | @cons _ next _ x xs hcell hnot hrest =>
          obtain ⟨bound, rfl⟩ := Nat.exists_eq_add_of_le' hbound
          obtain ⟨m₁, hfree, hcells, -⟩ := Memory.free_eq hcell
          obtain ⟨m', hrun, hlive⟩ := ih (hrest.cut hnot hcells) (Nat.le_add_left _ bound)
          refine ⟨m', ?_, ?_⟩
          · show freeItems (bound + as.length + 1) m (some a) = _
            simp only [freeItems, hcell, hfree, hrun]
            rfl
          · have hone := Memory.live_free hcell hfree
            rw [List.length_cons]
            omega

/-- `stack_free` of a stack with items, and of one without. -/
theorem StackT.Has.free (h : s.Has m as l) :
    ∃ m', m'.live = l.taken ∧
      stackFree m (some s) = .ok (l.items, m', if l.items = [] then some s else none) := by
  obtain ⟨m', hrun, hfreed⟩ := freeItems_chain h.chain h.chain.length_le
  have hlive := h.live
  cases htop : s.top with
  | none =>
      have hitems : l.items = [] := Chain.eq_nil (htop ▸ h.chain)
      refine ⟨m, by rw [hlive, hitems, List.length_nil, Nat.zero_add], ?_⟩
      rw [hitems, if_pos rfl]
      simp only [stackFree, htop]
  | some top =>
      have hitems : l.items ≠ [] := fun hnil => by
        have hchain := h.chain
        rw [htop, hnil] at hchain
        cases hchain
      refine ⟨m', by omega, ?_⟩
      rw [if_neg hitems]
      rw [htop] at hrun
      simp only [stackFree, htop, hrun]
      rfl

/-- **What `stack_free` leaves**: the destructor is called with the data that are on the stack,
once each and from the top on; the items taken before stay allocated, and the structure is freed
unless the stack is empty. -/
theorem stack_free_items (ops : List (StackOp α)) :
    let s := ((linkedStack α).run (Memory.empty, some stackInit) ops).2
    let l := ((lifo α).run ⟨[], 0, 0⟩ ops).2
    s.2.isSome = true ∧ ∃ m', m'.live = l.taken ∧
      stackFree s.1 s.2 = .ok (l.items, m', if l.items = [] then s.2 else none) := by
  intro s l
  obtain ⟨stack, as, hstack, h⟩ : IsLifo s l :=
    (linkedStack_simulates.run isLifo_init fun _ _ => trivial).2
  rw [hstack]
  exact ⟨rfl, h.free⟩

end Trapd
