/-
# Linked cells

A small library about memory as programs with linked lists use it.  A cell has data and the
address of the next one; `alloc` hands out an address that has never been in use, and `write`
and `free` have no result for an address without a cell.

`Chain m p as xs` says that from the pointer `p` on, the cells at `as` are linked, and have the
data `xs`.  The rules say what the three operations do to a chain and to the number of cells.
-/
import Mathlib.Data.Finset.Card
import Mathlib.Data.Finset.Range

namespace Cells

variable {α : Type*}

/-- Data, and where the next cell is. -/
structure Cell (α : Type*) where
  data : α
  next : Option ℕ
  deriving DecidableEq, Repr

/-- The cells by their addresses, and the first address that has never been in use. -/
structure Memory (α : Type*) where
  cells : ℕ → Option (Cell α)
  fresh : ℕ
  unused : ∀ a, fresh ≤ a → cells a = none

namespace Memory

/-- Memory before the first allocation. -/
def empty : Memory α := ⟨fun _ => none, 0, fun _ _ => rfl⟩

/-- What is allocated lies below the next address. -/
theorem lt_fresh {m : Memory α} {a : ℕ} (h : (m.cells a).isSome = true) : a < m.fresh := by
  by_contra hle
  rw [m.unused a (Nat.le_of_not_lt hle)] at h
  exact Bool.false_ne_true h

/-- `malloc`, and what is stored in the new cell. -/
def alloc (m : Memory α) (c : Cell α) : ℕ × Memory α :=
  (m.fresh,
    { cells := Function.update m.cells m.fresh (some c)
      fresh := m.fresh + 1
      unused := fun a ha => by
        rw [Function.update_of_ne (by omega)]
        exact m.unused a (by omega) })

/-- What is stored at an address, or the cell taken away. -/
def set (m : Memory α) (a : ℕ) (c : Option (Cell α)) (h : a < m.fresh) : Memory α where
  cells := Function.update m.cells a c
  fresh := m.fresh
  unused b hb := by
    rw [Function.update_of_ne (by omega)]
    exact m.unused b hb

/-- A store. -/
def write (m : Memory α) (a : ℕ) (c : Cell α) : Option (Memory α) :=
  if h : (m.cells a).isSome = true then some (m.set a (some c) (lt_fresh h)) else none

/-- `free`. -/
def free (m : Memory α) (a : ℕ) : Option (Memory α) :=
  if h : (m.cells a).isSome = true then some (m.set a none (lt_fresh h)) else none

/-- The number of cells. -/
def live (m : Memory α) : ℕ :=
  ((Finset.range m.fresh).filter fun a => (m.cells a).isSome = true).card

variable {m m' : Memory α} {a : ℕ} {c c' : Cell α}

/-- At the start nothing is live. -/
@[simp] theorem live_empty : (empty : Memory α).live = 0 := rfl

/-- A live cell can be written. -/
theorem write_eq (h : m.cells a = some c) (c' : Cell α) :
    ∃ m', m.write a c' = some m' ∧ m'.cells = Function.update m.cells a (some c') ∧
      m'.fresh = m.fresh := by
  have ha : (m.cells a).isSome = true := by rw [h, Option.isSome_some]
  exact ⟨m.set a (some c') (lt_fresh ha), dif_pos ha, rfl, rfl⟩

/-- A live cell can be freed. -/
theorem free_eq (h : m.cells a = some c) :
    ∃ m', m.free a = some m' ∧ m'.cells = Function.update m.cells a none ∧
      m'.fresh = m.fresh := by
  have ha : (m.cells a).isSome = true := by rw [h, Option.isSome_some]
  exact ⟨m.set a none (lt_fresh ha), dif_pos ha, rfl, rfl⟩

/-! ## The number of cells -/

/-- One cell more is live. -/
theorem live_alloc (m : Memory α) (c : Cell α) : (m.alloc c).2.live = m.live + 1 := by
  have hcells : (Finset.range (m.fresh + 1)).filter
      (fun a => (Function.update m.cells m.fresh (some c) a).isSome = true)
      = insert m.fresh ((Finset.range m.fresh).filter fun a => (m.cells a).isSome = true) := by
    ext a
    simp only [Finset.mem_filter, Finset.mem_range, Finset.mem_insert]
    by_cases ha : a = m.fresh
    · subst ha
      simp
    · rw [Function.update_of_ne ha]
      constructor
      · rintro ⟨hlt, hsome⟩
        exact .inr ⟨by omega, hsome⟩
      · rintro (heq | ⟨hlt, hsome⟩)
        · exact absurd heq ha
        · exact ⟨by omega, hsome⟩
  show ((Finset.range (m.fresh + 1)).filter
    fun a => (Function.update m.cells m.fresh (some c) a).isSome = true).card = m.live + 1
  rw [hcells, Finset.card_insert_of_notMem (by simp), live]

/-- A store leaves the number of cells as it is. -/
theorem live_write (h : m.cells a = some c) (hwrite : m.write a c' = some m') :
    m'.live = m.live := by
  obtain ⟨_, heq, hcells, hfresh⟩ := write_eq h c'
  obtain rfl := Option.some.inj (heq.symm.trans hwrite)
  have hsame : ∀ b, (Function.update m.cells a (some c') b).isSome = (m.cells b).isSome := fun b => by
    by_cases hb : b = a
    · rw [hb, Function.update_self, h, Option.isSome_some, Option.isSome_some]
    · rw [Function.update_of_ne hb]
  simp only [live, hcells, hfresh, hsame]

/-- One cell less is live. -/
theorem live_free (h : m.cells a = some c) (hfree : m.free a = some m') :
    m'.live + 1 = m.live := by
  obtain ⟨_, heq, hcells, hfresh⟩ := free_eq h
  obtain rfl := Option.some.inj (heq.symm.trans hfree)
  have hmem : a ∈ (Finset.range m.fresh).filter fun b => (m.cells b).isSome = true := by
    have ha : (m.cells a).isSome = true := by rw [h, Option.isSome_some]
    simp [ha, lt_fresh ha]
  have herase : (Finset.range m.fresh).filter
      (fun b => (Function.update m.cells a none b).isSome = true)
      = ((Finset.range m.fresh).filter fun b => (m.cells b).isSome = true).erase a := by
    ext b
    simp only [Finset.mem_filter, Finset.mem_range, Finset.mem_erase]
    by_cases hb : b = a
    · subst hb
      simp
    · simp [hb]
  simp only [live, hcells, hfresh]
  rw [herase, Finset.card_erase_add_one hmem]

end Memory

/-! ## Chains -/

/-- From a pointer on, the cells at these addresses are linked, with these data. -/
inductive Chain (m : Memory α) : Option ℕ → List ℕ → List α → Prop
  | nil : Chain m none [] []
  | cons {a : ℕ} {next : Option ℕ} {as : List ℕ} {x : α} {xs : List α}
      (hcell : m.cells a = some ⟨x, next⟩) (hnot : a ∉ as) (h : Chain m next as xs) :
      Chain m (some a) (a :: as) (x :: xs)

variable {m m' : Memory α} {p next : Option ℕ} {a : ℕ} {as : List ℕ} {x : α} {xs : List α}

/-- A chain has a cell for each element. -/
theorem Chain.length_eq (h : Chain m p as xs) : as.length = xs.length := by
  induction h with
  | nil => rfl
  | cons _ _ _ ih => rw [List.length_cons, List.length_cons, ih]

/-- A chain from NULL has none. -/
theorem Chain.eq_nil (h : Chain m none as xs) : xs = [] := by
  cases h
  rfl

/-- The cells of a chain are there. -/
theorem Chain.isSome (h : Chain m p as xs) : ∀ a ∈ as, (m.cells a).isSome = true := by
  induction h with
  | nil => simp
  | cons hcell _ _ ih =>
      intro b hb
      rcases List.mem_cons.mp hb with rfl | hb
      · rw [hcell, Option.isSome_some]
      · exact ih b hb

/-- **The frame rule**: what happens to other cells does not matter. -/
theorem Chain.congr (h : Chain m p as xs) (hsame : ∀ a ∈ as, m'.cells a = m.cells a) :
    Chain m' p as xs := by
  induction h with
  | nil => exact .nil
  | @cons a next as x xs hcell hnot _ ih =>
      obtain ⟨ha, hrest⟩ := List.forall_mem_cons.mp hsame
      exact .cons (ha.trans hcell) hnot (ih hrest)

/-- A new cell in front of a chain. -/
theorem Chain.alloc (h : Chain m p as xs) (x : α) :
    Chain (m.alloc ⟨x, p⟩).2 (some m.fresh) (m.fresh :: as) (x :: xs) := by
  have hnot : m.fresh ∉ as := fun hmem => Nat.lt_irrefl _ (Memory.lt_fresh (h.isSome _ hmem))
  refine .cons (Function.update_self _ _ _) hnot (h.congr fun a ha => ?_)
  have hne : a ≠ m.fresh := fun heq => hnot (heq ▸ ha)
  exact Function.update_of_ne hne _ _

/-- The first cell of a chain is cut off. -/
theorem Chain.cut (hnot : a ∉ as) (h : Chain m next as xs) {c : Option (Cell α)}
    (hcells : m'.cells = Function.update m.cells a c) : Chain m' next as xs :=
  h.congr fun b hb => by
    have hne : b ≠ a := fun heq => hnot (heq ▸ hb)
    rw [hcells, Function.update_of_ne hne]

/-- A chain has no more cells than have been allocated. -/
theorem Chain.length_le (h : Chain m p as xs) : as.length ≤ m.fresh := by
  have hnodup : as.Nodup := by
    induction h with
    | nil => exact List.nodup_nil
    | cons _ hnot _ ih => exact List.nodup_cons.mpr ⟨hnot, ih⟩
  have hsub : as ⊆ List.range m.fresh := fun a ha =>
    List.mem_range.mpr (Memory.lt_fresh (h.isSome a ha))
  simpa using (hnodup.subperm hsub).length_le

end Cells
