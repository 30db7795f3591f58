/-
# Blocks of allocated memory

A small library about memory as `malloc` and `realloc` hand it out.  A `Block` is the list
of its cells; a cell that nothing has been stored in holds no value.  A store at an index
that the block does not have changes no cell and is noted in `outside`.

`Holds b text` says that the first cells of the block are `text` and that no store has gone
outside.  The rules say what allocating, resizing and storing at the end of the text make of
this; `outside_store` says exactly when a store stays inside.
-/
import Mathlib.Data.List.Basic
import Mathlib.Data.Option.Basic
import Mathlib.Tactic.SplitIfs

namespace Blocks

variable {α : Type*}

/-- Allocated cells, and the indexes outside them that something has been stored at. -/
structure Block (α : Type*) where
  cells : List (Option α)
  outside : List ℕ
  deriving DecidableEq, Repr

namespace Block

/-- The number of cells. -/
def size (b : Block α) : ℕ := b.cells.length

/-- `malloc`: cells without values. -/
def alloc (n : ℕ) : Block α := ⟨List.replicate n none, []⟩

/-- `realloc`: the values are kept as far as there are cells for them. -/
def resize (b : Block α) (n : ℕ) : Block α :=
  { b with cells := b.cells.take n ++ List.replicate (n - b.size) none }

/-- `realloc` of a pointer that may be NULL. -/
def realloc (b : Option (Block α)) (n : ℕ) : Block α :=
  match b with
  | none => alloc n
  | some b => b.resize n

/-- Store one value. -/
def put (b : Block α) (i : ℕ) (a : α) : Block α :=
  if i < b.size then { b with cells := b.cells.set i (some a) }
  else { b with outside := b.outside ++ [i] }

/-- Store values one behind the other, from index `i` on. -/
def store (b : Block α) (i : ℕ) : List α → Block α
  | [] => b
  | a :: as => (b.put i a).store (i + 1) as

@[simp] theorem size_alloc (n : ℕ) : (alloc n : Block α).size = n := List.length_replicate

@[simp] theorem size_resize (b : Block α) (n : ℕ) : (b.resize n).size = n := by
  unfold size resize
  rw [List.length_append, List.length_take, List.length_replicate, size]
  omega

@[simp] theorem size_realloc (b : Option (Block α)) (n : ℕ) : (realloc b n).size = n := by
  cases b with
  | none => exact size_alloc n
  | some b => exact size_resize b n

@[simp] theorem size_put (b : Block α) (i : ℕ) (a : α) : (b.put i a).size = b.size := by
  unfold put
  split_ifs
  · exact List.length_set
  · rfl

@[simp] theorem size_store (b : Block α) (i : ℕ) (xs : List α) : (b.store i xs).size = b.size := by
  induction xs generalizing b i with
  | nil => rfl
  | cons a as ih => rw [store, ih, size_put]

/-- Storing two texts one behind the other is storing them as one. -/
theorem store_append (b : Block α) (i : ℕ) (xs ys : List α) :
    b.store i (xs ++ ys) = (b.store i xs).store (i + xs.length) ys := by
  induction xs generalizing b i with
  | nil => rfl
  | cons a as ih =>
      rw [List.cons_append, store, ih, store, List.length_cons]
      congr 1
      omega

/-! ## Stores outside a block -/

theorem outside_put (b : Block α) (i : ℕ) (a : α) :
    (b.put i a).outside = [] ↔ b.outside = [] ∧ i < b.size := by
  unfold put
  split_ifs with hi
  · simp [hi]
  · simp [hi]

/-- **A store stays inside** exactly when the block has an index for its last value. -/
theorem outside_store (b : Block α) (i : ℕ) (xs : List α) :
    (b.store i xs).outside = [] ↔ b.outside = [] ∧ (xs = [] ∨ i + xs.length ≤ b.size) := by
  induction xs generalizing b i with
  | nil => simp [store]
  | cons a as ih =>
      rw [store, ih, outside_put, size_put, List.length_cons]
      constructor
      · rintro ⟨⟨hout, hi⟩, rfl | hle⟩
        · exact ⟨hout, Or.inr hi⟩
        · exact ⟨hout, Or.inr (by omega)⟩
      · rintro ⟨hout, h | hle⟩
        · exact absurd h (List.cons_ne_nil a as)
        · exact ⟨⟨hout, by omega⟩, Or.inr (by omega)⟩

end Block

/-! ## The text in a block -/

/-- The first cells are `text`, and every store so far was one to a cell. -/
structure Holds (b : Block α) (text : List α) : Prop where
  isPrefix : text.map some <+: b.cells
  outside : b.outside = []

namespace Holds

variable {b : Block α} {text : List α}

theorem alloc (n : ℕ) : Holds (Block.alloc n : Block α) [] := ⟨List.nil_prefix, rfl⟩

theorem length_le (h : Holds b text) : text.length ≤ b.size := by
  have hle := h.isPrefix.length_le
  rwa [List.length_map] at hle

/-- A block resized to no less than the text keeps it. -/
theorem resize (h : Holds b text) {n : ℕ} (hn : text.length ≤ n) : Holds (b.resize n) text := by
  refine ⟨?_, h.outside⟩
  obtain ⟨rest, hrest⟩ := h.isPrefix
  have htake : (text.map some).take n = text.map some :=
    List.take_of_length_le (by rwa [List.length_map])
  rw [Block.resize, ← hrest, List.take_append, htake, List.append_assoc]
  exact List.prefix_append _ _

/-- A value stored behind the text. -/
theorem put (h : Holds b text) (hroom : text.length < b.size) (a : α) :
    Holds (b.put text.length a) (text ++ [a]) := by
  refine ⟨?_, (Block.outside_put b _ a).mpr ⟨h.outside, hroom⟩⟩
  obtain ⟨rest, hrest⟩ := h.isPrefix
  rw [Block.put, if_pos hroom, ← hrest]
  cases rest with
  | nil =>
      rw [Block.size, ← hrest] at hroom
      simp at hroom
  | cons c rest =>
      refine ⟨rest, ?_⟩
      simp [List.set_append_right]

/-- **A text stored behind the text.** -/
theorem store (h : Holds b text) (xs : List α) (hroom : text.length + xs.length ≤ b.size) :
    Holds (b.store text.length xs) (text ++ xs) := by
  induction xs generalizing b text with
  | nil => rwa [List.append_nil]
  | cons a as ih =>
      rw [List.length_cons] at hroom
      have hput := h.put (by omega) a
      have hlen : (text ++ [a]).length = text.length + 1 := by
        rw [List.length_append, List.length_singleton]
      have hrest := ih hput (by rw [hlen, Block.size_put]; omega)
      rw [hlen, List.append_assoc] at hrest
      exact hrest

/-- A text without its last part is there as well. -/
theorem left {rest : List α} (h : Holds b (text ++ rest)) : Holds b text := by
  refine ⟨?_, h.outside⟩
  have hprefix := h.isPrefix
  rw [List.map_append] at hprefix
  exact (List.prefix_append _ _).trans hprefix

/-- Of two texts in one block the shorter is the beginning of the other. -/
theorem isPrefix_of_length_le {other : List α} (h : Holds b text) (h' : Holds b other)
    (hle : text.length ≤ other.length) : text <+: other := by
  have hprefix := List.prefix_of_prefix_length_le h.isPrefix h'.isPrefix
    (by rwa [List.length_map, List.length_map])
  obtain ⟨front, hfront, heq⟩ := List.prefix_map_iff.mp hprefix
  rwa [List.map_injective_iff.mpr (Option.some_injective α) heq]

/-- A block that the text fills. -/
theorem cells_eq (h : Holds b text) (hsize : b.size = text.length) : b.cells = text.map some :=
  (h.isPrefix.eq_of_length (by rw [List.length_map]; exact hsize.symm)).symm

end Holds

/-- What is behind a pointer holds a text, where NULL stands for the empty one. -/
def PointsTo (b : Option (Block α)) (text : List α) : Prop :=
  match b with
  | none => text = []
  | some b => Holds b text

/-- A larger block holds the same text. -/
theorem PointsTo.realloc {b : Option (Block α)} {text : List α} (h : PointsTo b text) {n : ℕ}
    (hn : text.length ≤ n) : Holds (Block.realloc b n) text := by
  cases b with
  | none =>
      obtain rfl : text = [] := h
      exact Holds.alloc n
  | some b => exact Holds.resize h hn

/-- There is a block behind a pointer to a text. -/
theorem PointsTo.exists_block {b : Option (Block α)} {text : List α} (h : PointsTo b text)
    (hne : text ≠ []) : ∃ block, b = some block ∧ Holds block text := by
  cases b with
  | none => exact absurd h hne
  | some b => exact ⟨b, rfl, h⟩

/-! ## Reading up to a terminator -/

variable [DecidableEq α]

/-- The values in front of the first `stop`, if all of them have been stored. -/
def readTo (stop : α) : List (Option α) → Option (List α)
  | [] => none
  | none :: _ => none
  | some a :: cells => if a = stop then some [] else (readTo stop cells).map (a :: ·)

/-- **A terminated text is read back.** -/
theorem Holds.readTo {b : Block α} {stop : α} {text : List α} (h : Holds b (text ++ [stop]))
    (hstop : stop ∉ text) : readTo stop b.cells = some text := by
  obtain ⟨rest, hrest⟩ := h.isPrefix
  rw [← hrest]
  clear hrest h
  induction text with
  | nil => simp [Blocks.readTo]
  | cons a text ih =>
      rw [List.mem_cons, not_or] at hstop
      have htext := ih hstop.2
      simp only [List.cons_append, List.map_cons, Blocks.readTo, if_neg (Ne.symm hstop.1), htext]
      rfl

end Blocks
