/-
# The body of a query (`query.c`)

`q_body_len` runs one ahead of the text in `q_body`: it counts the terminator, whose cell
becomes the blank in front of the next line.  `Collected` says what the variables of
`query_parse` hold between two lines; each line keeps it, and the end marker stores the query
and starts again, as long as the body is no longer than an `int` can tell.  A longer one ends in
undefined behaviour, in front of `q_body` or in `remove_spaces`.
-/
import NagiosTrapd.Query
import NagiosTrapd.Varbinds

namespace Trapd

open Blocks Words

/-! ## The text in `q_body` -/

/-- What is stored for the lines of a query: the lines joined by blanks, and a terminator. -/
def bodyText (lines : List Str) : Str := if lines = [] then [] else joinSp lines ++ ['\x00']

/-- The terminator stands behind lines. -/
theorem bodyText_of_ne_nil {lines : List Str} (h : lines ≠ []) :
    bodyText lines = joinSp lines ++ ['\x00'] := if_neg h

/-- It is counted. -/
theorem bodyText_length_pos {lines : List Str} (h : lines ≠ []) : 0 < (bodyText lines).length := by
  rw [bodyText_of_ne_nil h, List.length_append]
  exact Nat.succ_pos _

/-- A number that an `int` can hold is not cut. -/
theorem bmod_of_le {n : ℕ} (h : (n : ℤ) ≤ INT_MAX) : (n : ℤ).bmod (2 ^ 32) = n := by
  unfold INT_MAX at h
  rw [Int.bmod_def]
  omega

/-- One that is a little larger becomes negative. -/
theorem bmod_neg {n : ℕ} (h : INT_MAX < n) (hle : (n : ℤ) ≤ INT_MAX + TMPBUFLEN) :
    (n : ℤ).bmod (2 ^ 32) < 0 := by
  unfold INT_MAX TMPBUFLEN at *
  rw [Int.bmod_def]
  omega

/-- **What the variables hold** when `lines` of a query have been read. -/
structure Collected (s : QueryState) (lines : List Str) : Prop where
  found : s.q_found = true ↔ lines ≠ []
  len : s.q_body_len = ((bodyText lines).length : ℤ).bmod (2 ^ 32)
  holds : PointsTo s.q_body (bodyText lines)
  faultless : s.faults = []

/-- Before the first line. -/
theorem collected_init : Collected .init [] := ⟨by decide, rfl, rfl, rfl⟩

/-! ## One line -/

/-- What stands in front of another line. -/
def frontText (lines : List Str) : Str := if lines = [] then [] else joinSp lines ++ [' ']

/-- The blank in front of a line: it takes the place of the terminator. -/
theorem holds_frontText {b : Block Char} {lines : List Str} (h : Holds b (bodyText lines)) :
    Holds (if 0 < (bodyText lines).length then b.put ((bodyText lines).length - 1) ' ' else b)
      (frontText lines) := by
  by_cases hlines : lines = []
  · subst hlines
    exact h
  · have hroom := h.length_le
    rw [if_pos (bodyText_length_pos hlines), frontText, if_neg hlines]
    rw [bodyText_of_ne_nil hlines] at h hroom ⊢
    rw [List.length_append, List.length_singleton] at hroom ⊢
    exact h.left.put hroom ' '

/-- The other line stands behind it. -/
theorem frontText_append (lines : List Str) (line : Str) :
    frontText lines ++ line = joinSp (lines ++ [line]) := by
  unfold frontText
  by_cases hlines : lines = []
  · rw [if_pos hlines, hlines, List.nil_append, List.nil_append, joinSp_singleton]
  · rw [if_neg hlines, joinSp_append_singleton hlines, List.append_assoc]
    rfl

/-- The blank takes as much room as the terminator. -/
theorem length_frontText (lines : List Str) :
    (frontText lines).length = (bodyText lines).length := by
  unfold frontText bodyText
  by_cases hlines : lines = []
  · rw [if_pos hlines, if_pos hlines]
  · rw [if_neg hlines, if_neg hlines, List.length_append, List.length_append]
    rfl

/-- The lines joined, with one line more. -/
theorem length_joinSp_concat (lines : List Str) (line : Str) :
    (joinSp (lines ++ [line])).length = (bodyText lines).length + line.length := by
  rw [← frontText_append, List.length_append, length_frontText]

/-- **A line is put behind the others**, where their length is an index. -/
theorem Collected.append {s : QueryState} {lines : List Str} (h : Collected s lines)
    (hfit : ((bodyText lines).length : ℤ) ≤ INT_MAX) (line : Str) :
    Collected (s.append line) (lines ++ [line]) := by
  have hne : lines ++ [line] ≠ [] := by simp
  have hfront := length_frontText lines
  have hjoin := length_joinSp_concat lines line
  have hlen : s.q_body_len = (bodyText lines).length := h.len.trans (bmod_of_le hfit)
  have hindex : ¬ s.q_body_len < 0 := by omega
  have hpos : s.q_body_len.toNat = (bodyText lines).length := by omega
  have hblank := holds_frontText (h.holds.realloc (n := (bodyText lines).length + line.length + 1)
    (by omega))
  generalize hn : (bodyText lines).length = n at *
  -- the block that the line is stored in
  generalize hb : (if 0 < n then (Block.realloc s.q_body (n + line.length + 1)).put (n - 1) ' '
    else Block.realloc s.q_body (n + line.length + 1)) = b at hblank
  have hsize : b.size = n + line.length + 1 := by
    rw [← hb]
    split_ifs
    · rw [Block.size_put, Block.size_realloc]
    · exact Block.size_realloc _ _
  have hstored := hblank.store line (by rw [hfront, hsize]; omega)
  rw [hfront, frontText_append] at hstored
  have hend := hstored.put (by rw [Block.size_store, hsize, hjoin]; omega) '\x00'
  rw [hjoin, ← bodyText_of_ne_nil hne] at hend
  unfold QueryState.append
  rw [if_neg hindex]
  refine ⟨by simp, ?_, ?_, h.faultless⟩
  · show (s.q_body_len + ((line.length : ℤ) + 1)).bmod (2 ^ 32) = _
    rw [hlen, bodyText_of_ne_nil hne, List.length_append, List.length_singleton, hjoin]
    push_cast
    rw [add_assoc]
  · show Holds _ _
    simp only [hpos, hb]
    exact hend

/-- Where it is none, the line is stored outside. -/
theorem Collected.append_overflow {s : QueryState} {lines : List Str} (h : Collected s lines)
    (hover : INT_MAX < (bodyText lines).length)
    (hle : ((bodyText lines).length : ℤ) ≤ INT_MAX + TMPBUFLEN) (line : Str) :
    (s.append line).faults ≠ [] := by
  have hindex : s.q_body_len < 0 := by
    rw [h.len]
    exact bmod_neg hover hle
  rw [QueryState.append, if_pos hindex]
  simp

/-! ## The end marker -/

/-- What the end marker adds to the table. -/
def storedQuery (name : Str) (lines : List Str) : List Query :=
  if lines = [] then [] else [⟨name, (joinSp lines).map removeSpace⟩]

/-- The lines of a query: with text, and without NUL. -/
def BodyLines (lines : List Str) : Prop := ∀ l ∈ lines, l ≠ [] ∧ '\x00' ∉ l

/-- Their text is not empty. -/
theorem BodyLines.joinSp_ne_nil {lines : List Str} (h : BodyLines lines) (hne : lines ≠ []) :
    joinSp lines ≠ [] := by
  obtain ⟨l, rest, rfl⟩ := List.exists_cons_of_ne_nil hne
  exact joinSp_cons_ne_nil (h l List.mem_cons_self).1 rest

/-- It has no NUL either. -/
theorem BodyLines.nul_not_mem {lines : List Str} (h : BodyLines lines) (hne : lines ≠ []) :
    '\x00' ∉ joinSp lines := by
  intro hmem
  rcases mem_of_mem_spaced (spaced_intercalate ' ' hne) hmem with hblank | ⟨l, hl, hc⟩
  · exact absurd hblank (by decide)
  · exact (h l hl).2 hc

/-- What `remove_spaces` makes of a body. -/
theorem removeSpaces_body {lines : List Str} (hlines : BodyLines lines) (hne : lines ≠ [])
    (hfit : ((joinSp lines).length : ℤ) ≤ INT_MAX) :
    removeSpaces (some (joinSp lines)) = some (some ((joinSp lines).map removeSpace)) := by
  have hmap : ((joinSp lines).map removeSpace).length ≠ 0 := by
    rw [List.length_map, ne_eq, List.length_eq_zero_iff]
    exact hlines.joinSp_ne_nil hne
  simp only [removeSpaces, if_neg (not_lt.mpr hfit), if_neg hmap]

/-- The body is stored, tabs as blanks. -/
theorem queryStore_body {name : Str} {lines : List Str} (hname : name ≠ [])
    (hlines : BodyLines lines) (hne : lines ≠ []) (table : List Query) :
    queryStore table (some name) (some ((joinSp lines).map removeSpace))
      = table ++ storedQuery name lines := by
  have hmap : (joinSp lines).map removeSpace ≠ [] := by
    rw [ne_eq, List.map_eq_nil_iff]
    exact hlines.joinSp_ne_nil hne
  rw [queryStore, if_neg hname, if_neg hmap, storedQuery, if_neg hne]

/-- The body is read back. -/
theorem Collected.bodyString_eq {s : QueryState} {lines : List Str} (h : Collected s lines)
    (hlines : BodyLines lines) (hne : lines ≠ []) :
    bodyString s.q_body = some (some (joinSp lines)) := by
  obtain ⟨b, hb, hholds⟩ := h.holds.exists_block (List.length_pos_iff.mp (bodyText_length_pos hne))
  rw [bodyText_of_ne_nil hne] at hholds
  rw [hb, bodyString, hholds.readTo (hlines.nul_not_mem hne), Option.map_some]

/-- **The end marker** stores what has been collected. -/
theorem Collected.endQuery {s : QueryState} {name : Str} {lines : List Str}
    (h : Collected s lines) (hname : s.q_name = .set name) (hne : name ≠ [])
    (hlines : BodyLines lines) (hfit : ((joinSp lines).length : ℤ) ≤ INT_MAX) :
    Collected s.endQuery [] ∧ s.endQuery.status = .outside
      ∧ s.endQuery.query_table = s.query_table ++ storedQuery name lines := by
  unfold QueryState.endQuery
  by_cases hempty : lines = []
  · subst hempty
    have hfound : s.q_found = false := by
      rw [Bool.eq_false_iff, ne_eq, h.found]
      exact fun hne => hne rfl
    rw [hfound, if_neg (by decide), storedQuery, if_pos rfl, List.append_nil]
    exact ⟨⟨by rw [← h.found, hfound], h.len, h.holds, h.faultless⟩, rfl, rfl⟩
  · obtain ⟨b, hb, hholds⟩ :=
      h.holds.exists_block (List.length_pos_iff.mp (bodyText_length_pos hempty))
    have hnothing : Holds b ([] ++ bodyText lines) := hholds
    have hroom : ([] : Str).length < b.size :=
      Nat.lt_of_lt_of_le (bodyText_length_pos hempty) hholds.length_le
    rw [if_pos (h.found.mpr hempty), hname, h.bodyString_eq hlines hempty]
    simp only [removeSpaces_body hlines hempty hfit]
    refine ⟨⟨by simp, rfl, ?_, h.faultless⟩, trivial, queryStore_body hne hlines hempty _⟩
    rw [hb]
    -- the length may have been cut to a negative number
    split_ifs
    · exact (hnothing.left.put hroom '\x00').left
    · exact hnothing.left

/-- A body that is too long for `remove_spaces`. -/
theorem Collected.endQuery_overflow {s : QueryState} {lines : List Str} (h : Collected s lines)
    (hlines : BodyLines lines) (hover : INT_MAX < (joinSp lines).length) :
    s.endQuery.faults ≠ [] := by
  have hne : lines ≠ [] := by
    rintro rfl
    exact absurd hover (by decide)
  unfold QueryState.endQuery
  rw [if_pos (h.found.mpr hne), h.bodyString_eq hlines hne]
  cases s.q_name with
  | unset => simp
  | set name =>
      have hcount : removeSpaces (some (joinSp lines)) = none := by
        simp only [removeSpaces, if_pos hover]
      simp [hcount]

/-! ## Runs of lines -/

/-- **Between two queries** the status is `outside`, and nothing has been collected. -/
structure BetweenQueries (s : QueryState) (table : List Query) : Prop where
  status : s.status = .outside
  collected : Collected s []
  table_eq : s.query_table = table

/-- Before the first line. -/
theorem betweenQueries_init : BetweenQueries .init [] := ⟨rfl, collected_init, rfl⟩

variable {pcre : Pcre}

/-- Lines without a begin marker change nothing outside a query. -/
theorem foldl_queryLine_outside (hpcre : pcre.Lawful) {s : QueryState} (hs : s.status = .outside)
    {lines : List Str} (hlines : ∀ l ∈ lines, ¬ HasBeginMarker l) :
    lines.foldl (queryLine pcre) s = s := by
  induction lines with
  | nil => rfl
  | cons l lines ih =>
      rw [List.forall_mem_cons] at hlines
      have hexec : regexExecute pcre queryBeginMarker l = none := by
        unfold regexExecute
        rw [hpcre.begin_none hlines.1, ite_self]
      have hline : queryLine pcre s l = s := by
        simp only [queryLine, hs, hexec]
      rw [List.foldl_cons, hline, ih hlines.2]

/-- Outside its three variables a line of a query changes nothing. -/
theorem append_frame (s : QueryState) (line : Str) :
    (s.append line).status = s.status ∧ (s.append line).q_name = s.q_name
      ∧ (s.append line).query_table = s.query_table := by
  unfold QueryState.append
  split_ifs <;> exact ⟨rfl, rfl, rfl⟩

/-- Inside a query a line without an end marker is put behind the others. -/
theorem queryLine_inside (hpcre : pcre.Lawful) {s : QueryState} (hs : s.status = .inside)
    {line : Str} (hline : ¬ queryEndMarker <:+: line) : queryLine pcre s line = s.append line := by
  have hexec : regexExecute pcre queryEndMarker line = none := by
    unfold regexExecute
    rw [hpcre.end_none hline, ite_self]
  simp only [queryLine, hs, hexec]

/-- **Inside a query** the lines without an end marker are collected, as long as their length
is one of an `int`. -/
theorem foldl_queryLine_inside (hpcre : pcre.Lawful) {lines : List Str}
    (hlines : ∀ l ∈ lines, ¬ queryEndMarker <:+: l) :
    ∀ {s : QueryState} {before : List Str}, s.status = .inside → Collected s before →
      ((joinSp (before ++ lines)).length : ℤ) ≤ INT_MAX →
      let s' := lines.foldl (queryLine pcre) s
      s'.status = .inside ∧ Collected s' (before ++ lines) ∧ s'.q_name = s.q_name
        ∧ s'.query_table = s.query_table := by
  induction lines with
  | nil =>
      intro s before hs h _
      rw [List.append_nil]
      exact ⟨hs, h, rfl, rfl⟩
  | cons l lines ih =>
      intro s before hs h hfit
      rw [List.forall_mem_cons] at hlines
      have hassoc : before ++ l :: lines = before ++ [l] ++ lines := by simp
      have hne : before ++ [l] ≠ [] := by simp
      have hle := length_joinSp_le_append hne lines
      rw [length_joinSp_concat, ← hassoc] at hle
      obtain ⟨hstatus, hname, htable⟩ := append_frame s l
      obtain ⟨hstatus', hcollected, hname', htable'⟩ := ih hlines.2 (hstatus.trans hs)
        (h.append (by omega) l) (by rwa [← hassoc])
      rw [List.foldl_cons, queryLine_inside hpcre hs hlines.1, hassoc]
      exact ⟨hstatus', hcollected, hname'.trans hname, htable'.trans htable⟩

/-- The begin marker sets the name. -/
theorem queryLine_begin (hpcre : pcre.Lawful) {s : QueryState} (hs : s.status = .outside)
    {name : Str} (hname : IsQueryName name) :
    queryLine pcre s (beginMarker name)
      = { s with status := .inside, q_name := .set name } := by
  have hexec : regexExecute pcre queryBeginMarker (beginMarker name)
      = some [(0, (beginMarker name).length),
          (beginFront.length, beginFront.length + name.length)] := by
    have hne : isEmpty (some (beginMarker name)) ≠ true := by
      rw [isEmpty_some, ne_eq, List.isEmpty_iff]
      exact List.append_ne_nil_of_left_ne_nil (by decide) _
    rw [regexExecute, if_neg hne, hpcre.begin_match hname]
  have hcopy : pcre.pcre_copy_substring (beginMarker name)
      [(0, (beginMarker name).length), (beginFront.length, beginFront.length + name.length)] 1
      Q_NAME_SIZE = some name := by
    rw [hpcre.copy rfl (by rw [Nat.add_sub_cancel_left]; exact hname.fits),
      Nat.add_sub_cancel_left, beginMarker, List.drop_left, List.take_left]
  simp only [queryLine, hs, hexec, hcopy]

/-- The end marker ends the query. -/
theorem queryLine_end (hpcre : pcre.Lawful) {s : QueryState} (hs : s.status = .inside) :
    queryLine pcre s queryEndMarker = s.endQuery := by
  obtain ⟨ovector, hexec⟩ := Option.isSome_iff_exists.mp hpcre.end_match
  have hmatch : regexExecute pcre queryEndMarker queryEndMarker = some ovector := by
    rw [regexExecute, hexec]
    exact if_neg (by decide)
  simp only [queryLine, hs, hmatch]

/-- No undefined behaviour is taken back. -/
theorem faults_queryLine (s : QueryState) (line : Str) :
    s.faults <+: (queryLine pcre s line).faults := by
  have hend : s.faults <+: s.endQuery.faults := by
    unfold QueryState.endQuery
    split
    · split
      · split
        · exact List.prefix_append _ _
        · exact List.prefix_rfl
      · exact List.prefix_append _ _
      · exact List.prefix_append _ _
    · exact List.prefix_rfl
  have happend : s.faults <+: (s.append line).faults := by
    unfold QueryState.append
    split_ifs
    · exact List.prefix_append _ _
    · exact List.prefix_rfl
  unfold queryLine
  split
  · split
    · exact List.prefix_rfl
    · split <;> exact List.prefix_rfl
  · split
    · exact hend
    · exact happend
  · exact List.prefix_rfl

/-- Nor is it by more lines. -/
theorem faults_foldl_queryLine {s : QueryState} (h : s.faults ≠ []) (lines : List Str) :
    (lines.foldl (queryLine pcre) s).faults ≠ [] := by
  induction lines generalizing s with
  | nil => exact h
  | cons l lines ih =>
      refine ih fun hnil => h ?_
      exact List.prefix_nil.mp (hnil ▸ faults_queryLine s l)

/-- **A body that is longer than an `int` can tell** ends in undefined behaviour, at the latest
at the end marker. -/
theorem foldl_queryLine_overflow (hpcre : pcre.Lawful) {lines : List Str}
    (hlines : ∀ l ∈ lines, ¬ queryEndMarker <:+: l ∧ l.length < TMPBUFLEN) :
    ∀ {s : QueryState} {before : List Str}, s.status = .inside → Collected s before →
      BodyLines (before ++ lines) →
      ((bodyText before).length : ℤ) ≤ INT_MAX + TMPBUFLEN →
      INT_MAX < (joinSp (before ++ lines)).length →
      ((lines ++ [queryEndMarker]).foldl (queryLine pcre) s).faults ≠ [] := by
  induction lines with
  | nil =>
      intro s before hs h hbody _ hover
      rw [List.append_nil] at hbody hover
      rw [List.nil_append, List.foldl_cons, List.foldl_nil, queryLine_end hpcre hs]
      exact h.endQuery_overflow hbody hover
  | cons l lines ih =>
      intro s before hs h hbody hle hover
      rw [List.forall_mem_cons] at hlines
      have hassoc : before ++ l :: lines = before ++ [l] ++ lines := by simp
      rw [List.cons_append, List.foldl_cons, queryLine_inside hpcre hs hlines.1.1]
      rw [hassoc] at hbody hover
      by_cases hfit : ((bodyText before).length : ℤ) ≤ INT_MAX
      · refine ih hlines.2 ((append_frame s l).1.trans hs) (h.append hfit l) hbody ?_ hover
        have hshort := hlines.1.2
        rw [bodyText_of_ne_nil (by simp), List.length_append, length_joinSp_concat,
          List.length_singleton]
        omega
      · exact faults_foldl_queryLine (h.append_overflow (not_le.mp hfit) hle l) _

/-- **A query** is stored under its name, its lines joined. -/
theorem BetweenQueries.query (hpcre : pcre.Lawful) {s : QueryState} {table : List Query}
    (h : BetweenQueries s table) {name : Str} (hname : IsQueryName name) {lines : List Str}
    (hlines : BodyLines lines) (hend : ∀ l ∈ lines, ¬ queryEndMarker <:+: l)
    (hfit : ((joinSp lines).length : ℤ) ≤ INT_MAX) :
    BetweenQueries ((beginMarker name :: (lines ++ [queryEndMarker])).foldl (queryLine pcre) s)
      (table ++ storedQuery name lines) := by
  rw [List.foldl_cons, queryLine_begin hpcre h.status hname, List.foldl_append]
  have hstart : Collected { s with status := .inside, q_name := .set name } [] :=
    ⟨h.collected.found, h.collected.len, h.collected.holds, h.collected.faultless⟩
  obtain ⟨hstatus, hcollected, hname', htable⟩ :=
    foldl_queryLine_inside hpcre hend rfl hstart (by rwa [List.nil_append])
  rw [List.nil_append] at hcollected
  rw [List.foldl_cons, List.foldl_nil, queryLine_end hpcre hstatus]
  obtain ⟨hnext, houtside, hstored⟩ := hcollected.endQuery hname' hname.ne_nil hlines hfit
  refine ⟨houtside, hnext, ?_⟩
  rw [hstored, htable]
  exact congrArg (· ++ storedQuery name lines) h.table_eq

/-- A query with too long a body is not stored. -/
theorem BetweenQueries.query_overflow (hpcre : pcre.Lawful) {s : QueryState} {table : List Query}
    (h : BetweenQueries s table) {name : Str} (hname : IsQueryName name) {lines : List Str}
    (hlines : BodyLines lines)
    (hend : ∀ l ∈ lines, ¬ queryEndMarker <:+: l ∧ l.length < TMPBUFLEN)
    (hover : INT_MAX < (joinSp lines).length) :
    ((beginMarker name :: (lines ++ [queryEndMarker])).foldl (queryLine pcre) s).faults ≠ [] := by
  rw [List.foldl_cons, queryLine_begin hpcre h.status hname]
  have hstart : Collected { s with status := .inside, q_name := .set name } [] :=
    ⟨h.collected.found, h.collected.len, h.collected.holds, h.collected.faultless⟩
  exact foldl_queryLine_overflow hpcre hend rfl hstart (by rwa [List.nil_append]) (by decide)
    (by rwa [List.nil_append])

end Trapd
