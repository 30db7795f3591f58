/-
# Reading lines through a bounded buffer

A small library about `fgets` on a text: one call takes what stands in front of and with the
next `stop`, but no more symbols than the buffer has room for.  `buffers` is what the calls
return one after the other.  A line longer than the buffer comes in several pieces, its
`chunks`.

The rule for callers is `filterMap_buffers`: seen through a function that takes no notice of
a `stop` at the end, the buffers of a text are the chunks of its lines.
-/
import Mathlib.Data.List.Infix
import NagiosTrapd.Words

namespace LineBuffer

variable {α β : Type*}

/-! ## Chunks -/

/-- The pieces of `n` symbols that a list is cut into, the last one shorter. -/
def chunks (n : ℕ) (s : List α) : List (List α) :=
  if s = [] ∨ n = 0 then [] else s.take n :: chunks n (s.drop n)
termination_by s.length
decreasing_by
  rename_i h
  rw [not_or] at h
  have hpos := List.length_pos_iff.mpr h.1
  rw [List.length_drop]
  omega

theorem chunks_nil (n : ℕ) : chunks n ([] : List α) = [] := by
  rw [chunks, if_pos (Or.inl rfl)]

theorem chunks_of_ne_nil {n : ℕ} (hn : 0 < n) {s : List α} (hs : s ≠ []) :
    chunks n s = s.take n :: chunks n (s.drop n) := by
  rw [chunks, if_neg (by simp [hs, Nat.ne_of_gt hn])]

/-- A short list is its only chunk. -/
theorem chunks_of_length_le {n : ℕ} {s : List α} (hs : s ≠ []) (hle : s.length ≤ n) :
    chunks n s = [s] := by
  have hpos := List.length_pos_iff.mpr hs
  rw [chunks_of_ne_nil (by omega) hs, List.take_of_length_le hle, List.drop_of_length_le hle,
    chunks_nil]

/-- What is shown of the empty list, and of a list whose part behind the first chunk it is
shown of, is shown of every list. -/
theorem chunks_induction {motive : List α → Prop} {n : ℕ} (hn : 0 < n) (nil : motive [])
    (step : ∀ s, s ≠ [] → motive (s.drop n) → motive s) (s : List α) : motive s := by
  by_cases hs : s = []
  · rw [hs]
    exact nil
  · have hpos := List.length_pos_iff.mpr hs
    exact step s hs (chunks_induction hn nil step (s.drop n))
termination_by s.length
decreasing_by rw [List.length_drop]; omega

/-- A chunk is a nonempty part of the list. -/
theorem mem_chunks {n : ℕ} (hn : 0 < n) {s : List α} :
    ∀ c ∈ chunks n s, c ≠ [] ∧ c <:+: s := by
  induction s using chunks_induction hn with
  | nil => simp [chunks_nil]
  | step s hs ih =>
      rw [chunks_of_ne_nil hn hs, List.forall_mem_cons]
      refine ⟨⟨?_, (List.take_prefix n s).isInfix⟩, fun c hc => ?_⟩
      · rw [ne_eq, List.take_eq_nil_iff, not_or]
        exact ⟨by omega, hs⟩
      · exact ⟨(ih c hc).1, (ih c hc).2.trans (List.drop_suffix n s).isInfix⟩

/-- A chunk is no longer than the room for it. -/
theorem length_le_of_mem_chunks {n : ℕ} (hn : 0 < n) {s : List α} :
    ∀ c ∈ chunks n s, c.length ≤ n := by
  induction s using chunks_induction hn with
  | nil => simp [chunks_nil]
  | step s hs ih =>
      rw [chunks_of_ne_nil hn hs, List.forall_mem_cons]
      exact ⟨List.length_take_le n s, ih⟩

/-- A list has one chunk exactly when it fits. -/
theorem length_chunks_le_one {n : ℕ} (hn : 0 < n) (s : List α) :
    (chunks n s).length ≤ 1 ↔ s.length ≤ n := by
  by_cases hs : s = []
  · simp [hs, chunks_nil]
  · rw [chunks_of_ne_nil hn hs, List.length_cons]
    by_cases hdrop : s.drop n = []
    · rw [hdrop, chunks_nil]
      simpa using List.drop_eq_nil_iff.mp hdrop
    · rw [chunks_of_ne_nil hn hdrop, List.length_cons]
      rw [List.drop_eq_nil_iff] at hdrop
      omega

/-- The chunks of a list, a separator counted for each. -/
theorem sum_chunks {n : ℕ} (hn : 0 < n) (s : List α) :
    ((chunks n s).map fun c => c.length + 1).sum = s.length + (chunks n s).length := by
  induction s using chunks_induction hn with
  | nil => rw [chunks_nil]; rfl
  | step s hs ih =>
      rw [chunks_of_ne_nil hn hs, List.map_cons, List.sum_cons, ih, List.length_cons,
        List.length_take, List.length_drop]
      omega

/-- What is shown of the chunks of a short list is what is shown of it. -/
theorem filterMap_chunks_short {n : ℕ} {g : List α → Option β} (hnil : g [] = none)
    {line : List α} (hle : line.length ≤ n) :
    (chunks n line).filterMap g = [line].filterMap g := by
  by_cases hline : line = []
  · rw [hline, chunks_nil, List.filterMap_cons_none hnil]
  · rw [chunks_of_length_le hline hle]

/-- A symbol at the end that `g` takes no notice of. -/
theorem filterMap_chunks_concat {n : ℕ} (hn : 0 < n) {g : List α → Option β} {c : α}
    (hnil : g [] = none) (hc : ∀ b, g (b ++ [c]) = g b) (s : List α) :
    (chunks n (s ++ [c])).filterMap g = (chunks n s).filterMap g := by
  have hne : ∀ b : List α, b ++ [c] ≠ [] := fun b => by simp
  have hlength : ∀ b : List α, (b ++ [c]).length = b.length + 1 := fun b => by simp
  have hsingle : g [c] = none := (hc []).trans hnil
  induction s using chunks_induction hn with
  | nil =>
      rw [chunks_of_length_le (hne []) (by rw [hlength]; exact hn), chunks_nil]
      show [[c]].filterMap g = []
      rw [List.filterMap_cons_none hsingle, List.filterMap_nil]
  | step s hs ih =>
      by_cases hlt : s.length < n
      · rw [chunks_of_length_le (hne s) (by rw [hlength]; exact hlt),
          chunks_of_length_le hs (Nat.le_of_lt hlt)]
        simp only [List.filterMap_cons, hc]
      · have htake : (s ++ [c]).take n = s.take n := List.take_append_of_le_length (by omega)
        have hdrop : (s ++ [c]).drop n = s.drop n ++ [c] :=
          List.drop_append_of_le_length (by omega)
        rw [chunks_of_ne_nil hn (hne s), chunks_of_ne_nil hn hs, htake, hdrop]
        simp only [List.filterMap_cons, ih]

/-! ## Buffers -/

variable [DecidableEq α]

/-- One call, with room for `room` symbols: what is read, and what is left. -/
def fgets (stop : α) : ℕ → List α → List α × List α
  | 0, s => ([], s)
  | _ + 1, [] => ([], [])
  | room + 1, c :: s =>
      if c = stop then ([c], s)
      else
        let rest := fgets stop room s
        (c :: rest.1, rest.2)

/-- What the calls return until nothing is left; at most `bound` calls. -/
def buffers (stop : α) (room : ℕ) : ℕ → List α → List (List α)
  | _, [] => []
  | 0, _ :: _ => []
  | bound + 1, c :: s =>
      let read := fgets stop room (c :: s)
      read.1 :: buffers stop room bound read.2

theorem buffers_of_ne_nil (stop : α) (room bound : ℕ) {s : List α} (hs : s ≠ []) :
    buffers stop room (bound + 1) s
      = (fgets stop room s).1 :: buffers stop room bound (fgets stop room s).2 := by
  cases s with
  | nil => exact absurd rfl hs
  | cons c s => rfl

/-- A line with room for it and its `stop`. -/
theorem fgets_line {stop : α} {room : ℕ} {line : List α} (h : stop ∉ line)
    (hlt : line.length < room) (s : List α) :
    fgets stop room (line ++ stop :: s) = (line ++ [stop], s) := by
  induction line generalizing room with
  | nil =>
      cases room with
      | zero => exact absurd hlt (Nat.not_lt_zero _)
      | succ room => simp [fgets]
  | cons c line ih =>
      cases room with
      | zero => exact absurd hlt (Nat.not_lt_zero _)
      | succ room =>
          rw [List.mem_cons, not_or] at h
          have hrest := ih h.2 (by simpa using hlt)
          rw [List.cons_append, fgets, if_neg (Ne.symm h.1), hrest]
          rfl

/-- A line that fills the buffer. -/
theorem fgets_full {stop : α} {room : ℕ} {line : List α} (h : stop ∉ line)
    (hle : room ≤ line.length) (s : List α) :
    fgets stop room (line ++ s) = (line.take room, line.drop room ++ s) := by
  induction line generalizing room with
  | nil =>
      obtain rfl := Nat.le_zero.mp hle
      rfl
  | cons c line ih =>
      cases room with
      | zero => rfl
      | succ room =>
          rw [List.mem_cons, not_or] at h
          have hrest := ih h.2 (by simpa using hle)
          rw [List.cons_append, fgets, if_neg (Ne.symm h.1), hrest]
          rfl

/-- The end of a text without `stop`. -/
theorem fgets_last {stop : α} {room : ℕ} {line : List α} (h : stop ∉ line)
    (hlt : line.length < room) : fgets stop room line = (line, []) := by
  induction line generalizing room with
  | nil => cases room <;> rfl
  | cons c line ih =>
      cases room with
      | zero => exact absurd hlt (Nat.not_lt_zero _)
      | succ room =>
          rw [List.mem_cons, not_or] at h
          have hrest := ih h.2 (by simpa using hlt)
          rw [fgets, if_neg (Ne.symm h.1), hrest]

/-! ## The buffers of a text -/

variable {stop : α} {room : ℕ} {g : List α → Option β}

/-- A text is its first line and a rest that is empty or begins with `stop`. -/
theorem exists_line (stop : α) (s : List α) : ∃ line rest, stop ∉ line ∧ s = line ++ rest ∧
    (rest = [] ∨ ∃ t, rest = stop :: t) := by
  by_cases hmem : stop ∈ s
  · obtain ⟨line, t, rfl, hline⟩ := List.eq_append_cons_of_mem hmem
    exact ⟨line, stop :: t, hline, rfl, Or.inr ⟨t, rfl⟩⟩
  · exact ⟨s, [], hmem, (List.append_nil s).symm, Or.inl rfl⟩

/-- What follows a line leaves the other pieces as they are, whatever the line is. -/
theorem exists_pieces_append {rest : List α} (hrest : rest = [] ∨ ∃ t, rest = stop :: t) :
    ∃ ps, ∀ line, stop ∉ line → Words.pieces stop (line ++ rest) = line :: ps := by
  rcases hrest with rfl | ⟨t, rfl⟩
  · exact ⟨[], fun line hline => by rw [List.append_nil, Words.pieces_last hline]⟩
  · exact ⟨Words.pieces stop t, fun line hline => Words.pieces_append_cons hline t⟩

/-- **The buffers of a text are the chunks of its lines**, seen through a function that has
nothing for the empty buffer and takes no notice of a `stop` at the end. -/
theorem filterMap_buffers (hroom : 0 < room) (hnil : g [] = none)
    (hstop : ∀ b, g (b ++ [stop]) = g b) :
    ∀ (bound : ℕ) (s : List α), s.length ≤ bound →
      (buffers stop room bound s).filterMap g
        = (Words.pieces stop s).flatMap fun line => (chunks room line).filterMap g := by
  have hempty : (Words.pieces stop []).flatMap (fun line => (chunks room line).filterMap g)
      = [] := by
    rw [Words.pieces_last List.not_mem_nil, List.flatMap_singleton, chunks_nil,
      List.filterMap_nil]
  intro bound
  -- `bound` is the number of reads that suffice, and each takes one symbol at least
  induction bound with
  | zero =>
      intro s hs
      obtain rfl := List.length_eq_zero_iff.mp (Nat.le_zero.mp hs)
      exact hempty.symm
  | succ bound ih =>
      intro s hs
      by_cases hne : s = []
      · rw [hne, hempty]
        rfl
      obtain ⟨line, rest, hline, rfl, hrest⟩ := exists_line stop s
      rw [List.length_append] at hs
      rw [buffers_of_ne_nil stop room bound hne]
      by_cases hlt : line.length < room
      · -- the line is read at once, with its `stop` if it has one
        have hshort := filterMap_chunks_short hnil (Nat.le_of_lt hlt)
        rcases hrest with rfl | ⟨t, rfl⟩
        · rw [List.append_nil, fgets_last hline hlt, Words.pieces_last hline,
            List.flatMap_singleton, hshort]
          cases bound <;> rfl
        · rw [List.length_cons] at hs
          rw [fgets_line hline hlt, List.filterMap_cons, hstop, ih t (by omega),
            Words.pieces_append_cons hline, List.flatMap_cons, hshort, List.filterMap_cons]
          cases g line <;> rfl
      · -- its first chunk is read, and the rest of it is left in front of the other lines
        have hline_ne : line ≠ [] := by
          rintro rfl
          exact hlt hroom
        have hdrop : stop ∉ line.drop room := fun h => hline (List.mem_of_mem_drop h)
        have hlen : (line.drop room ++ rest).length ≤ bound := by
          rw [List.length_append, List.length_drop]
          omega
        obtain ⟨ps, hps⟩ := exists_pieces_append hrest
        rw [fgets_full hline (Nat.le_of_not_lt hlt), List.filterMap_cons, ih _ hlen,
          hps _ hdrop, hps _ hline, List.flatMap_cons, List.flatMap_cons,
          chunks_of_ne_nil hroom hline_ne, List.filterMap_cons]
        cases g (line.take room) <;> rfl

end LineBuffer
