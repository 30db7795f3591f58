/-
# The room in the buffers of the diagnostics (`diagnostics.c`, `diagnostics2.c`)

The buffer of a dump grows when a line would still fit, and stays as it is when none would.
It starts with room for any line that is shorter than `TMPBUFLEN`, and every growth adds more
than the line takes; so the test always holds, and the room never gets smaller (`Roomy`).

**Main result:** `dumps_inside_iff`: every write is inside the buffer exactly when there is a
line to write; without one, the line end behind the loop is stored in front of the buffer.
-/
import NagiosTrapd.Diagnostics

namespace Trapd

variable {D W : Type*}

/-- All the characters are stored in the buffer. -/
def BufferWrite.Inside (w : BufferWrite) : Prop := w.start + w.len ≤ w.size

instance (w : BufferWrite) : Decidable w.Inside :=
  inferInstanceAs (Decidable (w.start + w.len ≤ w.size))

/-! ## The lines -/

/-- Between two lines: there is room for any line, and every write was inside. -/
structure DumpBuffer.Roomy (b : DumpBuffer) : Prop where
  room : b.text.length + TMPBUFLEN ≤ b.buflen
  inside : ∀ w ∈ b.writes, w.Inside

theorem roomy_init : DumpBuffer.init.Roomy where
  room := le_refl _
  inside _ hw := absurd hw List.not_mem_nil

theorem length_dumpLine {padding : ℕ} {key : Str} (hkey : key.length ≤ padding) (value : Str) :
    (dumpLine padding key value).length = padding + value.length := by
  unfold dumpLine
  rw [List.length_append, List.length_append, List.length_replicate]
  omega

/-- **A line keeps the room**: the buffer grows by the line and `TMPBUFLEN`. -/
theorem DumpBuffer.Roomy.line {b : DumpBuffer} (h : b.Roomy) {padding : ℕ} {row : Str × Str}
    (hkey : row.1.length ≤ padding) (hfits : padding + row.2.length + 1 < TMPBUFLEN) :
    (b.line padding row).Roomy := by
  obtain ⟨key, aux⟩ := row
  dsimp only at hkey hfits
  have hroom := h.room
  have hgrows : b.text.length + padding + aux.length + 1 < b.buflen := by omega
  constructor
  · have htext : (b.line padding (key, aux)).text.length
        = b.text.length + (padding + aux.length + 1) := by
      show (b.text ++ (dumpLine padding key aux ++ ['\n'])).length = _
      rw [List.length_append, List.length_append, length_dumpLine hkey, List.length_singleton]
    have hbuflen : (b.line padding (key, aux)).buflen
        = b.buflen + (TMPBUFLEN + padding + aux.length + 1) := if_pos hgrows
    omega
  · intro w hw
    simp only [DumpBuffer.line, if_pos hgrows, List.mem_append, List.mem_cons, List.not_mem_nil,
      or_false] at hw
    rcases hw with hw | rfl | rfl | rfl | rfl
    · exact h.inside w hw
    all_goals
      unfold BufferWrite.Inside
      dsimp only
      omega

/-- All lines. -/
theorem roomy_foldl {padding : ℕ} {rows : List (Str × Str)}
    (hrows : ∀ row ∈ rows, row.1.length ≤ padding ∧ padding + row.2.length + 1 < TMPBUFLEN) :
    ∀ b : DumpBuffer, b.Roomy → (rows.foldl (DumpBuffer.line padding) b).Roomy := by
  induction rows with
  | nil => exact fun b hb => hb
  | cons row rows ih =>
      intro b hb
      obtain ⟨hkey, hfits⟩ := hrows row List.mem_cons_self
      exact ih (fun r hr => hrows r (List.mem_cons_of_mem row hr)) _ (hb.line hkey hfits)

/-! ## A dump -/

/-- Behind a line the last line end is stored again, and there is room for the terminator. -/
theorem DumpBuffer.Roomy.finish {b : DumpBuffer} (h : b.Roomy) (hne : b.text ≠ []) :
    ∀ w ∈ b.finish.writes, w.Inside := by
  have hroom := h.room
  have hpos := List.length_pos_of_ne_nil hne
  have htmp : 0 < TMPBUFLEN := by decide
  intro w hw
  simp only [DumpBuffer.finish, List.mem_append, List.mem_cons, List.not_mem_nil, or_false] at hw
  rcases hw with hw | rfl | rfl
  · exact h.inside w hw
  · unfold BufferWrite.Inside
    dsimp only
    omega
  · unfold BufferWrite.Inside
    dsimp only
    omega

/-- Rows that fit are written inside the buffer, if there are any. -/
theorem finish_inside_iff {padding : ℕ} {rows : List (Str × Str)}
    (hrows : ∀ row ∈ rows, row.1.length ≤ padding ∧ padding + row.2.length + 1 < TMPBUFLEN) :
    (∀ w ∈ (rows.foldl (DumpBuffer.line padding) .init).finish.writes, w.Inside) ↔ rows ≠ [] := by
  cases rows with
  | nil =>
      -- `usedlen - 1` wraps around
      have hmem : ⟨2 ^ 64 - 1, 1, TMPBUFLEN⟩ ∈ DumpBuffer.init.finish.writes := by decide
      exact iff_of_false (fun h => absurd (h _ hmem) (by decide)) (by simp)
  | cons row rows =>
      refine iff_of_true ((roomy_foldl hrows .init roomy_init).finish ?_) (by simp)
      rw [foldl_line_text]
      simp

/-! ## Both dumps -/

/-- A line of the dump is shorter than `TMPBUFLEN`. -/
def RowFits (table : List (DiagnosticsEntry W D)) (row : Str × Str) : Prop :=
  diagnosticsGetPadding table + row.2.length + 1 < TMPBUFLEN

theorem printedRows_ne_nil (ops : DoubleOps D) (table : List (DiagnosticsEntry W D)) (w : W) :
    printedRows ops table w ≠ [] ↔ ∃ e ∈ table, e.hook ≠ none := by
  rw [ne_eq, List.eq_nil_iff_forall_not_mem, not_forall]
  simp only [not_not, mem_printedRows, ne_eq, Option.ne_none_iff_exists']
  constructor
  · rintro ⟨row, e, he, hook, hhook, -⟩
    exact ⟨e, he, hook, hhook⟩
  · rintro ⟨e, he, hook, hhook⟩
    exact ⟨_, e, he, hook, hhook, rfl⟩

theorem globalRows_ne_nil (ops : DoubleOps D) (table : List (DiagnosticsEntry W D))
    (lists : List (List (Str × Str))) :
    globalRows ops table lists ≠ [] ↔ ∃ e ∈ table, e.key ≠ "Pid".toList := by
  unfold globalRows
  rw [ne_eq, List.map_eq_nil_iff, List.filter_eq_nil_iff]
  simp

/-- The key of a row is one of the table's. -/
theorem length_key_of_mem_globalRows {ops : DoubleOps D} {table : List (DiagnosticsEntry W D)}
    {lists : List (List (Str × Str))} {row : Str × Str} (h : row ∈ globalRows ops table lists) :
    row.1.length ≤ diagnosticsGetPadding table := by
  obtain ⟨e, he, rfl⟩ := List.mem_map.mp h
  exact (key_length_lt_padding (List.mem_filter.mp he).1).le

/-- **When the diagnostics are written inside their buffers**, as long as each line is shorter
than `TMPBUFLEN`: the dump of a worker exactly when some entry has a hook, the global dump
exactly when some entry is not `Pid`. -/
theorem dumps_inside_iff (ops : DoubleOps D) (table : List (DiagnosticsEntry W D)) :
    (∀ w : W, (∀ row ∈ printedRows ops table w, RowFits table row) →
      ((∀ write ∈ (diagnosticsPrepareWrite ops table w).writes, write.Inside)
        ↔ ∃ e ∈ table, e.hook ≠ none)) ∧
    ∀ lists : List (List (Str × Str)),
      (∀ row ∈ globalRows ops table lists, RowFits table row) →
      ((∀ write ∈ (getDiagnosticsGlobal ops table lists).writes, write.Inside)
        ↔ ∃ e ∈ table, e.key ≠ "Pid".toList) := by
  constructor
  · intro w hfits
    rw [← printedRows_ne_nil ops table w]
    apply finish_inside_iff
    intro row hrow
    obtain ⟨e, he, hook, -, rfl⟩ := mem_printedRows.mp hrow
    exact ⟨(key_length_lt_padding he).le, hfits _ hrow⟩
  · intro lists hfits
    rw [← globalRows_ne_nil ops table lists]
    apply finish_inside_iff
    exact fun row hrow => ⟨length_key_of_mem_globalRows hrow, hfits row hrow⟩

/-- The global dump of a table with the entry `Pid` only. -/
theorem not_dumps_inside :
    ¬ ∀ table : List (DiagnosticsEntry ℤ ℤ), table ≠ [] →
      (∀ row ∈ globalRows wholeNumbers table [], RowFits table row) →
      ∀ write ∈ (getDiagnosticsGlobal wholeNumbers table []).writes, write.Inside := by
  intro h
  have hrows : globalRows wholeNumbers (parsedTrapsTable.take 1) [] = [] := by decide
  have hinside := h (parsedTrapsTable.take 1) (by decide) (by rw [hrows]; simp)
    ⟨2 ^ 64 - 1, 1, TMPBUFLEN⟩ (by decide)
  exact absurd hinside (by decide)

end Trapd
