/-
# Diagnostics dumps (`diagnostics.c`, `diagnostics2.c`)

Every worker dumps its diagnostics table as lines of a key, blanks up to a fixed column
and a value.  `parse_diagnostics` reads the dumps back, cutting lines into words, and
`get_diagnostics_global` adds up the values of each key.

What the code needs of the C type `double` is a parameter, `DoubleOps`; that its arithmetic
is exact on integers below 2^53 is the hypothesis `DoubleOps.Exact`.

**Main result:** `diagnostics_survive`: dumps are read back as the keys and the values
that were printed, and the cumulative integer keys are summed exactly.
-/
import NagiosTrapd.Util
import NagiosTrapd.Words

namespace Trapd

open Words

/-! ## Numbers -/

/-- What the code uses of `double`. -/
structure DoubleOps (D : Type*) where
  /-- A whole number as a `double`. -/
  ofInt : ℤ → D
  add : D → D → D
  /-- The conversion `(long)`. -/
  toLong : D → ℤ
  /-- The conversion `(float)`, and back to the `double` that a `printf` argument is. -/
  toFloat : D → D
  /-- The format `%0.3f`. -/
  fixed3 : D → Str
  atof : Str → D

variable {D W : Type*}

/-- Integers below 2^53 are exact, and no number prints with a blank or a line end in it. -/
structure DoubleOps.Exact (ops : DoubleOps D) : Prop where
  add {a b : ℤ} : |a| < 2 ^ 53 → |b| < 2 ^ 53 → |a + b| < 2 ^ 53 →
    ops.add (ops.ofInt a) (ops.ofInt b) = ops.ofInt (a + b)
  toLong {n : ℤ} : |n| < 2 ^ 53 → ops.toLong (ops.ofInt n) = n
  atof {n : ℤ} : |n| < 2 ^ 53 → ops.atof (decimal n) = ops.ofInt n
  fixed3_ne_nil (d : D) : ops.fixed3 d ≠ []
  fixed3_graphic (d : D) : ' ' ∉ ops.fixed3 d ∧ '\n' ∉ ops.fixed3 d

/-! ## The table and its dump -/

/-- An entry of `diagnostics[]`; `W` is the state of a worker, which the hook reads. -/
structure DiagnosticsEntry (W D : Type*) where
  key : Str
  hook : Option (W → D)
  cumulative : Bool
  integer : Bool

/-- `diagnostics_get_padding`: the column of the values. -/
def diagnosticsGetPadding (table : List (DiagnosticsEntry W D)) : ℕ :=
  table.foldl (fun padding e => if padding < e.key.length then e.key.length else padding) 0 + 8

/-- A write to the buffer: the index, the number of characters and the size allocated. -/
structure BufferWrite where
  start : ℕ
  len : ℕ
  size : ℕ
  deriving DecidableEq, Repr

/-- The buffer that a dump is written to: its size, its contents and the writes made. -/
structure DumpBuffer where
  buflen : ℕ
  text : Str
  writes : List BufferWrite
  deriving DecidableEq, Repr

/-- The buffer as it is allocated. -/
def DumpBuffer.init : DumpBuffer := ⟨TMPBUFLEN, [], []⟩

/-- A line of a dump. -/
def dumpLine (padding : ℕ) (key value : Str) : Str :=
  key ++ List.replicate (padding - key.length) ' ' ++ value

/-- One line is stored: blanks, the key, the value and the line end. -/
def DumpBuffer.line (padding : ℕ) (b : DumpBuffer) (row : Str × Str) : DumpBuffer :=
  let (key, aux) := row
  let auxlen := aux.length
  let usedlen := b.text.length
  -- the buffer grows when there is room left
  let buflen :=
    if usedlen + padding + auxlen + 1 < b.buflen then
      b.buflen + (TMPBUFLEN + padding + auxlen + 1)
    else b.buflen
  { buflen := buflen
    text := b.text ++ (dumpLine padding key aux ++ ['\n'])
    writes := b.writes ++
      [⟨usedlen, padding, buflen⟩, ⟨usedlen, key.length, buflen⟩,
        ⟨usedlen + padding, auxlen, buflen⟩, ⟨usedlen + padding + auxlen, 1, buflen⟩] }

/-- `buffer[usedlen-1] = '\n'; buffer[usedlen] = '\0';` in the arithmetic of `size_t`: the
last line end once more, and the terminator. -/
def DumpBuffer.finish (b : DumpBuffer) : DumpBuffer :=
  let usedlen := b.text.length
  { b with writes := b.writes ++
      [⟨(usedlen + (2 ^ 64 - 1)) % 2 ^ 64, 1, b.buflen⟩, ⟨usedlen, 1, b.buflen⟩] }

/-- A value as `diagnostics_prepare_write` prints it. -/
def DiagnosticsEntry.print (ops : DoubleOps D) (e : DiagnosticsEntry W D) (value : D) : Str :=
  if e.integer then decimal (ops.toLong value) else ops.fixed3 (ops.toFloat value)

/-- The keys and values that a worker prints: the entries with a hook. -/
def printedRows (ops : DoubleOps D) (table : List (DiagnosticsEntry W D)) (w : W) :
    List (Str × Str) :=
  table.filterMap fun e => e.hook.map fun hook => (e.key, e.print ops (hook w))

/-- `diagnostics_prepare_write`. -/
def diagnosticsPrepareWrite (ops : DoubleOps D) (table : List (DiagnosticsEntry W D)) (w : W) :
    DumpBuffer :=
  ((printedRows ops table w).foldl (DumpBuffer.line (diagnosticsGetPadding table)) .init).finish

/-! ## Reading a dump -/

/-- Undefined behaviour in `split_key_value`. -/
inductive SplitFault
  /-- The length of a NULL token is taken: the line has blanks only. -/
  | nullToken
  /-- The key's terminator is stored outside the key buffer. -/
  | keyIndex
  deriving DecidableEq, Repr

/-- `split_key_value`: the last token is the value, what stands in front of it the key. -/
def splitKeyValue (buffer : Str) : Except SplitFault (Str × Str) :=
  let tokens := words ' ' buffer
  match tokens.getLast? with
  | none => .error .nullToken
  | some value =>
      let keylen := (tokens.map fun token => token.length + 1).sum - (value.length + 1)
      -- `keylen - 1` wraps around
      if keylen = 0 then .error .keyIndex
      else .ok (buffer.take (keylen - 1), value)

/-- `parse_diagnostics`: the keys and values of a dump. -/
def parseDiagnostics (buffer : Str) : Except SplitFault (List (Str × Str)) :=
  (words '\n' buffer).mapM splitKeyValue

/-- `FILESIZE`. -/
def FILESIZE : ℕ := 51200

/-- `traverse_diagnostics_pool` for one file: the part of it that fits the buffer is parsed. -/
def traverseDiagnosticsPool (file : Str) : Except SplitFault (List (Str × Str)) :=
  parseDiagnostics (file.take FILESIZE)

/-! ## Adding up -/

/-- `get_value_by_key`. -/
def getValueByKey (list : List (Str × Str)) (key : Str) : Option Str :=
  (list.find? fun pair => pair.1 == key).map Prod.snd

/-- The inner loop of `get_diagnostics_global`. -/
def globalValue (ops : DoubleOps D) (e : DiagnosticsEntry W D) (lists : List (List (Str × Str))) :
    D :=
  lists.foldl (fun global_value list =>
    match getValueByKey list e.key with
    | none => global_value
    | some value =>
        if e.cumulative then ops.add global_value (ops.atof value) else ops.atof value)
    (ops.ofInt 0)

/-- The keys and values that `get_diagnostics_global` prints. -/
def globalRows (ops : DoubleOps D) (table : List (DiagnosticsEntry W D))
    (lists : List (List (Str × Str))) : List (Str × Str) :=
  (table.filter fun e => e.key ≠ "Pid".toList).map fun e =>
    let global_value := globalValue ops e lists
    (e.key, if e.integer then decimal (ops.toLong global_value) else ops.fixed3 global_value)

/-- `get_diagnostics_global`. -/
def getDiagnosticsGlobal (ops : DoubleOps D) (table : List (DiagnosticsEntry W D))
    (lists : List (List (Str × Str))) : DumpBuffer :=
  ((globalRows ops table lists).foldl
    (DumpBuffer.line (diagnosticsGetPadding table)) .init).finish

/-- `diagnostics2_do`: the files of the pool are read one by one, then summed up. -/
def diagnostics2Do (ops : DoubleOps D) (table : List (DiagnosticsEntry W D)) (files : List Str) :
    Except SplitFault DumpBuffer := do
  let lists ← files.mapM traverseDiagnosticsPool
  return getDiagnosticsGlobal ops table lists

/-! ## A dump is read back -/

/-- A key of a diagnostics table: words separated by single spaces. -/
def IsDiagnosticsKey (key : Str) : Prop :=
  ∃ ws, ws ≠ [] ∧ (∀ w ∈ ws, IsWord ' ' w ∧ '\n' ∉ w) ∧ key = [' '].intercalate ws

/-- A value of a dump: one word. -/
def IsDiagnosticsValue (value : Str) : Prop := IsWord ' ' value ∧ '\n' ∉ value

theorem IsDiagnosticsKey.ne_nil {key : Str} (h : IsDiagnosticsKey key) : key ≠ [] := by
  obtain ⟨ws, hne, hws, rfl⟩ := h
  obtain ⟨w, ws, rfl⟩ := List.exists_cons_of_ne_nil hne
  exact spaced_ne_nil (spaced_intercalate ' ' hne) (hws w List.mem_cons_self).1.1

theorem IsDiagnosticsKey.newline_not_mem {key : Str} (h : IsDiagnosticsKey key) :
    '\n' ∉ key := by
  obtain ⟨ws, hne, hws, rfl⟩ := h
  intro hc
  rcases mem_of_mem_spaced (spaced_intercalate ' ' hne) hc with hc | ⟨w, hw, hc⟩
  · exact absurd hc (by decide)
  · exact (hws w hw).2 hc

/-- **A line is read back** as its key and its value. -/
theorem splitKeyValue_dumpLine {padding : ℕ} {key value : Str} (hkey : IsDiagnosticsKey key)
    (hvalue : IsDiagnosticsValue value) (hpadding : key.length < padding) :
    splitKeyValue (dumpLine padding key value) = .ok (key, value) := by
  obtain ⟨ws, hne, hws, rfl⟩ := hkey
  -- the blanks between key and value are at least one
  obtain ⟨gap, hgap⟩ : ∃ gap, padding - ([' '].intercalate ws).length = gap + 1 :=
    ⟨padding - ([' '].intercalate ws).length - 1, by omega⟩
  have hspaced := (spaced_intercalate ' ' hne).append gap (Spaced.single value)
  have hwords : words ' ' (dumpLine padding ([' '].intercalate ws) value) = ws ++ [value] := by
    rw [dumpLine, hgap]
    refine words_of_spaced hspaced fun w hw => ?_
    rcases List.mem_append.mp hw with hw | hw
    · exact (hws w hw).1
    · rw [List.mem_singleton.mp hw]
      exact hvalue.1
  have hlen := length_intercalate_add_one ' ' hne
  have hkeylen : ((ws ++ [value]).map fun token => token.length + 1).sum - (value.length + 1)
      = ([' '].intercalate ws).length + 1 := by
    rw [List.map_append, List.sum_append, ← hlen]
    simp
  unfold splitKeyValue
  simp only [hwords, List.getLast?_concat, hkeylen]
  rw [if_neg (Nat.succ_ne_zero _), Nat.add_sub_cancel, dumpLine, List.append_assoc,
    List.take_left]

/-- Lines that are stored one after the other. -/
theorem foldl_line_text (padding : ℕ) (rows : List (Str × Str)) :
    ∀ b : DumpBuffer, (rows.foldl (DumpBuffer.line padding) b).text
      = b.text ++ rows.flatMap fun row => dumpLine padding row.1 row.2 ++ ['\n'] := by
  induction rows with
  | nil => simp
  | cons row rows ih =>
      intro b
      rw [List.foldl_cons, ih, List.flatMap_cons, ← List.append_assoc]
      rfl

/-- **A dump is read back** as the rows that were printed. -/
theorem parseDiagnostics_dump {padding : ℕ} {rows : List (Str × Str)}
    (hrows : ∀ row ∈ rows, IsDiagnosticsKey row.1 ∧ IsDiagnosticsValue row.2 ∧
      row.1.length < padding) :
    parseDiagnostics (rows.foldl (DumpBuffer.line padding) .init).finish.text = .ok rows := by
  have hlines : words '\n' (rows.flatMap fun row => dumpLine padding row.1 row.2 ++ ['\n'])
      = rows.map fun row => dumpLine padding row.1 row.2 := by
    rw [← List.flatMap_map (f := fun row : Str × Str => dumpLine padding row.1 row.2)
      (g := fun line => line ++ ['\n'])]
    apply words_flatMap_terminated
    intro line hline
    obtain ⟨row, hrow, rfl⟩ := List.mem_map.mp hline
    obtain ⟨hkey, hvalue, -⟩ := hrows row hrow
    refine ⟨?_, ?_⟩
    · simp [dumpLine, hkey.ne_nil]
    · simp [dumpLine, hkey.newline_not_mem, hvalue.2]
  have htext : (rows.foldl (DumpBuffer.line padding) .init).finish.text
      = rows.flatMap fun row => dumpLine padding row.1 row.2 ++ ['\n'] :=
    foldl_line_text padding rows .init
  rw [parseDiagnostics, htext, hlines]
  clear hlines htext
  induction rows with
  | nil => rfl
  | cons row rows ih =>
      obtain ⟨hkey, hvalue, hlt⟩ := hrows row List.mem_cons_self
      have hrest := ih fun r hr => hrows r (List.mem_cons_of_mem row hr)
      rw [List.map_cons, List.mapM_cons, splitKeyValue_dumpLine hkey hvalue hlt, hrest]
      rfl

/-! ## What a worker prints -/

/-- The padding is wider than every key. -/
theorem key_length_lt_padding {table : List (DiagnosticsEntry W D)} {e : DiagnosticsEntry W D}
    (he : e ∈ table) : e.key.length < diagnosticsGetPadding table := by
  have hmax : ∀ (table : List (DiagnosticsEntry W D)) (n : ℕ),
      n ≤ table.foldl (fun m e => if m < e.key.length then e.key.length else m) n ∧
      ∀ e ∈ table,
        e.key.length ≤ table.foldl (fun m e => if m < e.key.length then e.key.length else m) n := by
    intro table
    induction table with
    | nil => simp
    | cons e es ih =>
        intro n
        obtain ⟨hn, hes⟩ := ih (if n < e.key.length then e.key.length else n)
        rw [List.foldl_cons]
        refine ⟨?_, fun e' he' => ?_⟩
        · split_ifs at hn ⊢ <;> omega
        · rcases List.mem_cons.mp he' with rfl | he'
          · split_ifs at hn ⊢ <;> omega
          · exact hes e' he'
  have h := (hmax table 0).2 e he
  unfold diagnosticsGetPadding
  omega

/-- What is printed is one word. -/
theorem isDiagnosticsValue_print {ops : DoubleOps D} (hops : ops.Exact)
    (e : DiagnosticsEntry W D) (value : D) : IsDiagnosticsValue (e.print ops value) := by
  unfold DiagnosticsEntry.print
  split_ifs with hint
  · exact ⟨⟨decimal_ne_nil _, not_mem_decimal (by decide) (by decide)⟩,
      not_mem_decimal (by decide) (by decide)⟩
  · exact ⟨⟨hops.fixed3_ne_nil _, (hops.fixed3_graphic _).1⟩, (hops.fixed3_graphic _).2⟩

theorem mem_printedRows {ops : DoubleOps D} {table : List (DiagnosticsEntry W D)} {w : W}
    {row : Str × Str} : row ∈ printedRows ops table w ↔
      ∃ e ∈ table, ∃ hook, e.hook = some hook ∧ row = (e.key, e.print ops (hook w)) := by
  unfold printedRows
  simp only [List.mem_filterMap, Option.map_eq_some_iff]
  constructor
  · rintro ⟨e, he, hook, hhook, rfl⟩
    exact ⟨e, he, hook, hhook, rfl⟩
  · rintro ⟨e, he, hook, hhook, rfl⟩
    exact ⟨e, he, hook, hhook, rfl⟩

/-- **The dump of a worker is read back.** -/
theorem traverseDiagnosticsPool_dump {ops : DoubleOps D} (hops : ops.Exact)
    {table : List (DiagnosticsEntry W D)} (hkeys : ∀ e ∈ table, IsDiagnosticsKey e.key) {w : W}
    (hsize : (diagnosticsPrepareWrite ops table w).text.length < FILESIZE) :
    traverseDiagnosticsPool (diagnosticsPrepareWrite ops table w).text
      = .ok (printedRows ops table w) := by
  unfold traverseDiagnosticsPool
  rw [List.take_of_length_le (Nat.le_of_lt hsize)]
  apply parseDiagnostics_dump
  intro row hrow
  obtain ⟨e, he, hook, -, rfl⟩ := mem_printedRows.mp hrow
  exact ⟨hkeys e he, isDiagnosticsValue_print hops e _, key_length_lt_padding he⟩

/-- The value a worker has printed for a key, found by it. -/
theorem getValueByKey_printedRows (ops : DoubleOps D) {table : List (DiagnosticsEntry W D)}
    (hnodup : (table.map DiagnosticsEntry.key).Nodup) {e : DiagnosticsEntry W D} (he : e ∈ table)
    (w : W) :
    getValueByKey (printedRows ops table w) e.key
      = e.hook.map fun hook => e.print ops (hook w) := by
  induction table with
  | nil => exact absurd he List.not_mem_nil
  | cons e' es ih =>
      rw [List.map_cons, List.nodup_cons] at hnodup
      have hcons : printedRows ops (e' :: es) w
          = (e'.hook.map fun hook => (e'.key, e'.print ops (hook w))).toList
            ++ printedRows ops es w := by
        unfold printedRows
        rw [List.filterMap_cons]
        cases e'.hook <;> rfl
      rcases List.mem_cons.mp he with rfl | he
      · cases hhook : e.hook with
        | some hook => simp [hcons, hhook, getValueByKey]
        | none =>
            -- no later entry has the key
            rw [hcons, hhook, Option.map_none, Option.map_none, getValueByKey,
              Option.map_eq_none_iff, List.find?_eq_none]
            intro row hrow
            obtain ⟨e', he', hook, -, rfl⟩ := mem_printedRows.mp (by simpa using hrow)
            have hne : e'.key ≠ e.key := fun h => hnodup.1 (h ▸ List.mem_map_of_mem he')
            simpa using hne
      · have hne : e'.key ≠ e.key := fun h => hnodup.1 (h ▸ List.mem_map_of_mem he)
        have hrest := ih hnodup.2 he
        unfold getValueByKey at hrest ⊢
        rw [hcons, List.find?_append, ← hrest]
        cases e'.hook <;> simp [hne]

/-! ## The sum -/

/-- The whole number that a worker prints for an integer key; 0 when it prints none. -/
def DiagnosticsEntry.workerValue (ops : DoubleOps D) (e : DiagnosticsEntry W D) (w : W) : ℤ :=
  match e.hook with
  | none => 0
  | some hook => ops.toLong (hook w)

/-- The values of a key and the sums of the first of them are below 2^53. -/
structure ExactlySummed (ops : DoubleOps D) (e : DiagnosticsEntry W D) (workers : List W) :
    Prop where
  value : ∀ w ∈ workers, |e.workerValue ops w| < 2 ^ 53
  sum : ∀ ws, ws <+: workers → |(ws.map (e.workerValue ops)).sum| < 2 ^ 53

/-- **A cumulative integer key is summed exactly.** -/
theorem globalValue_eq {ops : DoubleOps D} (hops : ops.Exact)
    {table : List (DiagnosticsEntry W D)} (hnodup : (table.map DiagnosticsEntry.key).Nodup)
    {e : DiagnosticsEntry W D} (he : e ∈ table) (hcum : e.cumulative = true)
    (hint : e.integer = true) :
    ∀ {workers : List W}, ExactlySummed ops e workers →
      globalValue ops e (workers.map (printedRows ops table))
        = ops.ofInt (workers.map (e.workerValue ops)).sum := by
  intro workers
  -- on the workers, the last one apart: the value that it has printed is read back as it was
  induction workers using List.reverseRecOn with
  | nil => exact fun _ => rfl
  | append_singleton ws w ih =>
      intro hexact
      have hprefix : ExactlySummed ops e ws :=
        ⟨fun v hv => hexact.value v (by simp [hv]),
          fun vs hvs => hexact.sum vs (hvs.trans (List.prefix_append ws [w]))⟩
      have hws := ih hprefix
      have hsum := hexact.sum (ws ++ [w]) (List.prefix_refl _)
      have hsum_ws := hprefix.sum ws (List.prefix_refl _)
      have hw := hexact.value w (by simp)
      unfold globalValue at hws ⊢
      rw [List.map_append, List.foldl_append, hws, List.map_append, List.sum_append]
      rw [List.map_append, List.sum_append] at hsum
      simp only [List.map_cons, List.map_nil, List.foldl_cons, List.foldl_nil, List.sum_cons,
        List.sum_nil, add_zero, getValueByKey_printedRows ops hnodup he w] at hsum ⊢
      cases hhook : e.hook with
      | none => simp [DiagnosticsEntry.workerValue, hhook]
      | some hook =>
          have hvalue : e.workerValue ops w = ops.toLong (hook w) := by
            simp [DiagnosticsEntry.workerValue, hhook]
          rw [hvalue] at hw hsum ⊢
          simp only [Option.map_some, DiagnosticsEntry.print, hint, hcum, if_true]
          rw [hops.atof hw, hops.add hsum_ws hw hsum]

/-- The row of a cumulative integer key. -/
theorem mem_globalRows {ops : DoubleOps D} (hops : ops.Exact)
    {table : List (DiagnosticsEntry W D)} (hnodup : (table.map DiagnosticsEntry.key).Nodup)
    {e : DiagnosticsEntry W D} (he : e ∈ table) (hpid : e.key ≠ "Pid".toList)
    (hcum : e.cumulative = true) (hint : e.integer = true) {workers : List W}
    (hexact : ExactlySummed ops e workers) :
    (e.key, decimal (workers.map (e.workerValue ops)).sum)
      ∈ globalRows ops table (workers.map (printedRows ops table)) := by
  have hsum := hexact.sum workers (List.prefix_refl _)
  have hvalue := globalValue_eq hops hnodup he hcum hint hexact
  refine List.mem_map.mpr ⟨e, List.mem_filter.mpr ⟨he, by simpa using hpid⟩, ?_⟩
  simp only [hvalue, hint, if_true, hops.toLong hsum]

theorem mapM_eq_ok {α β ε : Type*} {f : α → Except ε β} {g : α → β} {xs : List α}
    (h : ∀ x ∈ xs, f x = .ok (g x)) : xs.mapM f = .ok (xs.map g) := by
  induction xs with
  | nil => rfl
  | cons x xs ih =>
      rw [List.mapM_cons, h x List.mem_cons_self,
        ih fun y hy => h y (List.mem_cons_of_mem x hy)]
      rfl

/-- **Diagnostics survive dump, parse and summation.**  Every dump is read back as the keys
of the table and the values printed for them; the global dump has a line for every key but
`Pid`, and the line of a cumulative integer key has the sum of the workers' values.  That the
dumps are written inside their buffers is left to `dumps_inside_iff`. -/
theorem diagnostics_survive {ops : DoubleOps D} (hops : ops.Exact)
    {table : List (DiagnosticsEntry W D)} (hkeys : ∀ e ∈ table, IsDiagnosticsKey e.key)
    (hnodup : (table.map DiagnosticsEntry.key).Nodup) {workers : List W}
    (hsize : ∀ w ∈ workers, (diagnosticsPrepareWrite ops table w).text.length < FILESIZE)
    (hexact : ∀ e ∈ table, e.key ≠ "Pid".toList → e.cumulative = true → e.integer = true →
      ExactlySummed ops e workers) :
    (∀ w ∈ workers,
      traverseDiagnosticsPool (diagnosticsPrepareWrite ops table w).text
        = .ok (printedRows ops table w)) ∧
    ∃ (buffer : DumpBuffer) (rows : List (Str × Str)),
      diagnostics2Do ops table
          (workers.map fun w => (diagnosticsPrepareWrite ops table w).text) = .ok buffer ∧
      buffer.text = rows.flatMap
        (fun row => dumpLine (diagnosticsGetPadding table) row.1 row.2 ++ ['\n']) ∧
      rows.map Prod.fst = (table.map DiagnosticsEntry.key).filter (· ≠ "Pid".toList) ∧
      ∀ e ∈ table, e.key ≠ "Pid".toList → e.cumulative = true → e.integer = true →
        (e.key, decimal (workers.map (e.workerValue ops)).sum) ∈ rows := by
  -- each text fits in the buffer of the reader, and its rows are read back
  have hread : ∀ w ∈ workers,
      traverseDiagnosticsPool (diagnosticsPrepareWrite ops table w).text
        = .ok (printedRows ops table w) := fun w hw =>
    traverseDiagnosticsPool_dump hops hkeys (hsize w hw)
  have hlists : (workers.map fun w => (diagnosticsPrepareWrite ops table w).text).mapM
      traverseDiagnosticsPool = .ok (workers.map (printedRows ops table)) := by
    rw [List.mapM_map]
    exact mapM_eq_ok hread
  refine ⟨hread, getDiagnosticsGlobal ops table (workers.map (printedRows ops table)),
    globalRows ops table (workers.map (printedRows ops table)), ?_, ?_, ?_, ?_⟩
  · unfold diagnostics2Do
    rw [hlists]
    rfl
  · exact foldl_line_text _ _ .init
  · unfold globalRows
    rw [List.map_map, List.filter_map]
    rfl
  · intro e he hpid hcum hint
    exact mem_globalRows hops hnodup he hpid hcum hint (hexact e he hpid hcum hint)

/-- Whole numbers in the place of `double`. -/
def wholeNumbers : DoubleOps ℤ where
  ofInt := id
  add := (· + ·)
  toLong := id
  toFloat := id
  fixed3 n := decimal n ++ ".000".toList
  atof := strtol

theorem wholeNumbers_exact : wholeNumbers.Exact where
  add := fun _ _ _ => rfl
  toLong := fun _ => rfl
  atof := fun hn => strtol_decimal (hn.trans (by norm_num))
  fixed3_ne_nil := fun _ => List.append_ne_nil_of_left_ne_nil (decimal_ne_nil _) _
  fixed3_graphic := fun d => by
    have hblank : ' ' ∉ decimal d := not_mem_decimal (by decide) (by decide)
    have hline : '\n' ∉ decimal d := not_mem_decimal (by decide) (by decide)
    simp [wholeNumbers, hblank, hline]

/-- Two entries of `diagnostics[]`; the state of a worker is the number of its traps. -/
def parsedTrapsTable : List (DiagnosticsEntry ℤ ℤ) :=
  [⟨"Pid".toList, some fun _ => 1, false, true⟩,
    ⟨"Parsed Traps".toList, some fun parsed => parsed, true, true⟩]

theorem parsedTrapsTable_keys : ∀ e ∈ parsedTrapsTable, IsDiagnosticsKey e.key := by
  intro e he
  simp only [parsedTrapsTable, List.mem_cons, List.not_mem_nil, or_false] at he
  rcases he with rfl | rfl
  · exact ⟨["Pid".toList], by decide, by unfold IsWord; decide, rfl⟩
  · exact ⟨["Parsed".toList, "Traps".toList], by decide, by unfold IsWord; decide, rfl⟩

/-- Two workers with three and four traps. -/
theorem diagnostics_survive_two_workers :
    (∀ w ∈ [3, 4],
      traverseDiagnosticsPool (diagnosticsPrepareWrite wholeNumbers parsedTrapsTable w).text
        = .ok (printedRows wholeNumbers parsedTrapsTable w)) ∧
    ∃ (buffer : DumpBuffer) (rows : List (Str × Str)),
      diagnostics2Do wholeNumbers parsedTrapsTable
          ([3, 4].map fun w => (diagnosticsPrepareWrite wholeNumbers parsedTrapsTable w).text)
        = .ok buffer ∧
      buffer.text = rows.flatMap
        (fun row => dumpLine (diagnosticsGetPadding parsedTrapsTable) row.1 row.2 ++ ['\n']) ∧
      rows.map Prod.fst
        = (parsedTrapsTable.map DiagnosticsEntry.key).filter (· ≠ "Pid".toList) ∧
      ∀ e ∈ parsedTrapsTable, e.key ≠ "Pid".toList → e.cumulative = true → e.integer = true →
        (e.key, decimal ([3, 4].map (e.workerValue wholeNumbers)).sum) ∈ rows :=
  diagnostics_survive wholeNumbers_exact parsedTrapsTable_keys (by decide) (by decide) (by
    intro e he hpid _ _
    simp only [parsedTrapsTable, List.mem_cons, List.not_mem_nil, or_false] at he
    rcases he with rfl | rfl
    · exact absurd rfl hpid
    · refine ⟨by decide, fun ws hws => ?_⟩
      obtain rfl | ⟨us, rfl, hus⟩ := List.prefix_cons_iff.mp hws
      · decide
      · obtain rfl | ⟨vs, rfl, hvs⟩ := List.prefix_cons_iff.mp hus
        · decide
        · obtain rfl := List.prefix_nil.mp hvs
          decide)

end Trapd
