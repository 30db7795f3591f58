/-
# Ring buffers

`N` cells used in a circle: a list is laid out in the cells from the position `h` on, modulo
`N`, and every other cell is empty.  The layout is stated for all `N` cells at once: the cell
`i` positions behind the head has the `i`-th element of the list, if there is one.

`Window.push` and `Window.pop` are the two ends of a queue, `Window.restart` moves the head of an
empty one, and `Window.read_eq` reads the list back.
-/
import Mathlib.Data.Nat.ModEq
import Mathlib.Logic.Function.Basic

namespace Ring

variable {α : Type*} {N h : ℕ} {cells : ℕ → Option α} {x : α} {xs : List α}

/-- The cells have `xs` from the position `h` on, and nothing else. -/
structure Window (N h : ℕ) (cells : ℕ → Option α) (xs : List α) : Prop where
  length_le : xs.length ≤ N
  cell : ∀ i < N, cells ((h + i) % N) = xs[i]?

/-- The contents of `n` cells from the position `h` on. -/
def read (N h : ℕ) (cells : ℕ → Option α) (n : ℕ) : List α :=
  (List.range n).filterMap fun i => cells ((h + i) % N)

/-- Positions less than `N` apart are different. -/
theorem position_inj {i j : ℕ} (hi : i < N) (hj : j < N) :
    (h + i) % N = (h + j) % N ↔ i = j := by
  refine ⟨fun heq => ?_, fun heq => by rw [heq]⟩
  have hmod : i % N = j % N := Nat.ModEq.add_left_cancel' h heq
  rwa [Nat.mod_eq_of_lt hi, Nat.mod_eq_of_lt hj] at hmod

/-- Every cell is at some position. -/
theorem exists_position {j : ℕ} (hj : j < N) : ∃ i < N, (h + i) % N = j := by
  have hN : 0 < N := by omega
  refine ⟨(j + (N - h % N)) % N, Nat.mod_lt _ hN, ?_⟩
  have hlt : h % N < N := Nat.mod_lt _ hN
  have hsum : h % N + (j + (N - h % N)) = j + N := by omega
  rw [Nat.add_mod, Nat.mod_mod, ← Nat.add_mod, ← Nat.mod_add_mod, hsum, Nat.add_mod_right,
    Nat.mod_eq_of_lt hj]

theorem window_nil_iff : Window N h cells [] ↔ ∀ j < N, cells j = none := by
  constructor
  · intro hw j hj
    obtain ⟨i, hi, hpos⟩ := exists_position (h := h) hj
    rw [← hpos, hw.cell i hi, List.getElem?_nil]
  · intro hnone
    refine ⟨Nat.zero_le _, fun i hi => ?_⟩
    rw [hnone _ (Nat.mod_lt _ (by omega)), List.getElem?_nil]

/-- The head of an empty window may be anywhere. -/
theorem Window.restart (hw : Window N h cells []) (h' : ℕ) : Window N h' cells [] :=
  window_nil_iff.mpr (window_nil_iff.mp hw)

/-- The cell behind the window is empty. -/
theorem Window.next_eq_none (hw : Window N h cells xs) (hlt : xs.length < N) :
    cells ((h + xs.length) % N) = none := by
  rw [hw.cell _ hlt, List.getElem?_eq_none (Nat.le_refl _)]

/-- An element is put into the cell behind the window. -/
theorem Window.push (hw : Window N h cells xs) (hlt : xs.length < N) :
    Window N h (Function.update cells ((h + xs.length) % N) (some x)) (xs ++ [x]) := by
  refine ⟨by simpa using Nat.succ_le_of_lt hlt, fun i hi => ?_⟩
  by_cases heq : i = xs.length
  · rw [heq, Function.update_self, List.getElem?_concat_length]
  · have hne : (h + i) % N ≠ (h + xs.length) % N := fun hpos =>
      heq ((position_inj hi hlt).mp hpos)
    rw [Function.update_of_ne hne, hw.cell i hi]
    rcases Nat.lt_or_ge i xs.length with hin | hout
    · rw [List.getElem?_append_left hin]
    · rw [List.getElem?_eq_none hout, List.getElem?_eq_none (by simp; omega)]

/-- The first element is in the cell at the head. -/
theorem Window.head_eq (hw : Window N h cells (x :: xs)) : cells (h % N) = some x := by
  have hN : 0 < N := Nat.lt_of_lt_of_le (Nat.succ_pos _) hw.length_le
  simpa using hw.cell 0 hN

/-- The first element is taken out of the window. -/
theorem Window.pop (hw : Window N h cells (x :: xs)) :
    Window N (h + 1) (Function.update cells (h % N) none) xs := by
  have hlen : xs.length + 1 ≤ N := hw.length_le
  refine ⟨by omega, fun i hi => ?_⟩
  have hpos : (h + 1 + i) % N = (h + (i + 1)) % N := by rw [Nat.add_assoc, Nat.add_comm 1 i]
  rw [hpos]
  by_cases hlast : i + 1 = N
  · rw [hlast, Nat.add_mod_right, Function.update_self, List.getElem?_eq_none (by omega)]
  · have hne : (h + (i + 1)) % N ≠ h % N := fun heq => by
      have := (position_inj (h := h) (i := i + 1) (j := 0) (by omega) (by omega)).mp heq
      omega
    rw [Function.update_of_ne hne, hw.cell (i + 1) (by omega), List.getElem?_cons_succ]

/-- The head may be taken modulo `N`. -/
theorem Window.mod (hw : Window N h cells xs) : Window N (h % N) cells xs :=
  ⟨hw.length_le, fun i hi => by rw [Nat.mod_add_mod, hw.cell i hi]⟩

/-- **A window is read back** from its head and its length. -/
theorem Window.read_eq (hw : Window N h cells xs) : read N h cells xs.length = xs := by
  have hmap : (List.range xs.length).map (fun i => cells ((h + i) % N)) = xs.map some := by
    refine List.ext_getElem (by simp) fun i hi _ => ?_
    have hlen : i < xs.length := by simpa using hi
    rw [List.getElem_map, List.getElem_range, List.getElem_map,
      hw.cell i (Nat.lt_of_lt_of_le hlen hw.length_le), List.getElem?_eq_getElem hlen]
  have hread : read N h cells xs.length
      = ((List.range xs.length).map fun i => cells ((h + i) % N)).filterMap id := by
    rw [List.filterMap_map]
    rfl
  rw [hread, hmap, List.filterMap_map]
  exact List.filterMap_some

end Ring
