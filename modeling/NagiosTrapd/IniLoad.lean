/-
# Loading an ini file (`iniparser.c`)

`iniparser_load` reads a file line by line into a buffer; a line that ends in a backslash is
continued by the next one.  Each line that sets something goes into a dictionary, a value under
the name of its section, a colon and its key.

**Main results:** `iniparser_load_iff` says of every file whether it is loaded: its lines fit the
buffers, and no syntax error stands behind the last line that sets something.
`iniparser_getstring_load`: a key then has the last value that the file assigns to it.
-/
import NagiosTrapd.Dictionary
import NagiosTrapd.IniLine
import NagiosTrapd.LineBuffer

namespace Trapd

open LineBuffer

/-! ## The code -/

/-- The variables of `iniparser_load`, its buffers apart. -/
structure IniState where
  current : Str
  dict : Dictionary
  errs : ℕ

/-- The variables in front of the first line. -/
def IniState.start : IniState := ⟨[], dictionaryNew 0, 0⟩

/-- What `iniparser_load` comes to: a dictionary, `NULL`, or a write behind or in front of a
buffer. -/
inductive IniResult where
  | dict (d : Dictionary)
  | null
  | fault

/-- What is returned at the end of the file. -/
def IniState.result (st : IniState) : IniResult :=
  if st.errs ≠ 0 then .null else .dict st.dict

/-- The `switch` over the line; `none` writes behind `tmp`. -/
def iniparserSwitch (st : IniState) (line : Str) : Option IniState :=
  match iniparserLine line st.current with
  | .lineEmpty => some st
  | .lineComment => some st
  | .lineSection name => (dictionarySet st.dict name none).map fun dict => ⟨name, dict, 0⟩
  | .lineValue key val =>
      let tmp := st.current ++ ':' :: key
      if ASCIILINESZ < tmp.length then none
      else (dictionarySet st.dict tmp (some val)).map fun dict => ⟨st.current, dict, 0⟩
  | .lineError => some { st with errs := st.errs + 1 }

/-- The loop of `iniparser_load`, with what a continued line has left in the buffer and with the
file that is left.  The byte in front of the buffer is `before`. -/
def iniparserLoop (before : Char) : ℕ → IniState → Str → Str → IniResult
  | 0, _, _, _ => .fault
  | bound + 1, st, last, file =>
      if file = [] then st.result
      else
        let read := fgets '\n' (ASCIILINESZ - last.length - 1) file
        let line := last ++ read.1
        if line.length = 1 then iniparserLoop before bound st last read.2
        else if line.getLast? ≠ some '\n' then .null
        else
          let line := line.rdropWhile isspace
          -- a line of blanks alone leaves `len` at -1, and the byte in front of it is looked at
          if line.getLast?.getD before = '\\' then
            if line = [] then .fault else iniparserLoop before bound st line.dropLast read.2
          else
            match iniparserSwitch st line with
            | none => .fault
            | some st => iniparserLoop before bound st [] read.2

/-- `iniparser_load`, of a file that cannot be opened or has these contents. -/
def iniparserLoad (before : Char) (file : Option Str) : IniResult :=
  match file with
  | none => .null
  | some file => iniparserLoop before (file.length + 1) .start [] file

/-- `iniparser_getstring`. -/
def iniparserGetstring (d : Dictionary) (key : Str) (default : Option Str) : Option Str :=
  dictionaryGet d (strlwc key) default

/-! ## The lines of a file -/

/-- The lines as they are parsed, of the pieces between newlines, when `last` has been continued:
those that end in a backslash are joined, and what is left behind the last newline is nothing, or
a single symbol which is overlooked.  `none` if a line does not fit the buffer. -/
def joinLines (before : Char) : Str → List Str → Option (List Str)
  | _, [] => some []
  | last, [piece] => if piece = [] ∨ (last ++ piece).length = 1 then some [] else none
  | last, piece :: pieces =>
      let line := last ++ piece
      if ASCIILINESZ ≤ line.length + 1 then none
      else if line = [] then joinLines before last pieces
      else
        let line := line.rdropWhile isspace
        if line.getLast?.getD before = '\\' then
          if line = [] then none else joinLines before line.dropLast pieces
        else (joinLines before [] pieces).map (line :: ·)

/-- The lines of a file. -/
def logicalLines (before : Char) (file : Str) : Option (List Str) :=
  joinLines before [] (Words.pieces '\n' file)

theorem joinLines_cons (before : Char) (last piece : Str) {pieces : List Str}
    (hne : pieces ≠ []) :
    joinLines before last (piece :: pieces)
      = if ASCIILINESZ ≤ (last ++ piece).length + 1 then none
        else if last ++ piece = [] then joinLines before last pieces
        else if ((last ++ piece).rdropWhile isspace).getLast?.getD before = '\\' then
          if (last ++ piece).rdropWhile isspace = [] then none
          else joinLines before ((last ++ piece).rdropWhile isspace).dropLast pieces
        else (joinLines before [] pieces).map ((last ++ piece).rdropWhile isspace :: ·) := by
  cases pieces with
  | nil => exact absurd rfl hne
  | cons piece' pieces => rfl

variable {before : Char} {bound : ℕ} {st : IniState} {last file : Str} {d : Dictionary}

/-- A piece that fills the buffer, or stands at the end of the file, has no newline. -/
theorem iniparserLoop_null {piece rest : Str} (hfile : file ≠ [])
    (hread : fgets '\n' (ASCIILINESZ - last.length - 1) file = (piece, rest))
    (hne : piece ≠ []) (hnewline : '\n' ∉ piece) (hlen : (last ++ piece).length ≠ 1) :
    iniparserLoop before (bound + 1) st last file = .null := by
  have hend : (last ++ piece).getLast? ≠ some '\n' := by
    rw [List.getLast?_append_of_ne_nil _ hne]
    intro hend
    exact hnewline (List.mem_of_getLast? hend)
  rw [iniparserLoop, if_neg hfile]
  simp only [hread, if_neg hlen, if_pos hend]

/-- A line with its newline is read at once when it fits the buffer. -/
theorem iniparserLoop_line {piece rest : Str} (hnewline : '\n' ∉ piece)
    (hfits : (last ++ piece).length + 1 < ASCIILINESZ) :
    iniparserLoop before (bound + 1) st last (piece ++ '\n' :: rest)
      = if last ++ piece = [] then iniparserLoop before bound st last rest
        else if ((last ++ piece).rdropWhile isspace).getLast?.getD before = '\\' then
          if (last ++ piece).rdropWhile isspace = [] then .fault
          else iniparserLoop before bound st ((last ++ piece).rdropWhile isspace).dropLast rest
        else
          match iniparserSwitch st ((last ++ piece).rdropWhile isspace) with
          | none => .fault
          | some st => iniparserLoop before bound st [] rest := by
  rw [List.length_append] at hfits
  have hread := fgets_line hnewline
    (show piece.length < ASCIILINESZ - last.length - 1 by omega) rest
  have hone : (last ++ (piece ++ ['\n'])).length = 1 ↔ last ++ piece = [] := by
    rw [List.length_append, List.length_append, List.length_singleton, List.append_eq_nil_iff,
      ← List.length_eq_zero_iff, ← List.length_eq_zero_iff]
    omega
  have hend : (last ++ (piece ++ ['\n'])).getLast? = some '\n' := by
    rw [← List.append_assoc, List.getLast?_concat]
  have hstrip : (last ++ (piece ++ ['\n'])).rdropWhile isspace
      = (last ++ piece).rdropWhile isspace := by
    rw [← List.append_assoc]
    exact List.rdropWhile_concat_pos _ _ _ (by decide)
  rw [iniparserLoop, if_neg (by simp)]
  simp only [hread, hone, hend, hstrip, ne_eq, not_true_eq_false, if_false]

/-- **The loop**: the lines are joined, and then parsed one after the other. -/
theorem iniparserLoop_eq_dict (hbound : file.length < bound)
    (hlast : last.length + 2 < ASCIILINESZ) :
    iniparserLoop before bound st last file = .dict d ↔
      ∃ ls st', joinLines before last (Words.pieces '\n' file) = some ls ∧
        ls.foldlM iniparserSwitch st = some st' ∧ st'.result = .dict d := by
  -- on the pieces between newlines; `last` is what a line that goes on has left in the buffer
  induction file using Words.pieces_induction '\n' generalizing bound st last with
  | last g hg =>
      obtain ⟨bound, rfl⟩ : ∃ b, bound = b + 1 := ⟨bound - 1, by omega⟩
      rw [Words.pieces_last hg]
      have hdone : ∀ st : IniState, st.result = .dict d ↔
          ∃ ls st', (some [] : Option (List Str)) = some ls ∧
            ls.foldlM iniparserSwitch st = some st' ∧ st'.result = .dict d := fun st => by
        constructor
        · intro h
          exact ⟨[], st, rfl, rfl, h⟩
        · rintro ⟨ls, st', hls, hrun, h⟩
          cases hls
          cases hrun
          exact h
      -- the last piece has no newline: nothing, a single symbol, or a line that is refused
      by_cases hnil : g = []
      · rw [joinLines, if_pos (Or.inl hnil), iniparserLoop, if_pos hnil]
        exact hdone st
      by_cases hone : (last ++ g).length = 1
      · have hshort : g.length < ASCIILINESZ - last.length - 1 := by
          rw [List.length_append] at hone
          have hsize : ASCIILINESZ = 1024 := rfl
          omega
        obtain ⟨bound, rfl⟩ : ∃ b, bound = b + 1 := by
          have hpos := List.length_pos_iff.mpr hnil
          exact ⟨bound - 1, by omega⟩
        rw [joinLines, if_pos (Or.inr hone), iniparserLoop, if_neg hnil]
        simp only [fgets_last hg hshort, if_pos hone]
        rw [iniparserLoop, if_pos rfl]
        exact hdone st
      · rw [joinLines, if_neg (not_or.mpr ⟨hnil, hone⟩)]
        have hnull : iniparserLoop before (bound + 1) st last g = .null := by
          by_cases hshort : g.length < ASCIILINESZ - last.length - 1
          · exact iniparserLoop_null hnil (fgets_last hg hshort) hnil hg hone
          · have hread := fgets_full hg (Nat.le_of_not_lt hshort) []
            rw [List.append_nil] at hread
            apply iniparserLoop_null hnil hread
            · rw [ne_eq, List.take_eq_nil_iff, not_or]
              exact ⟨by omega, hnil⟩
            · exact fun hmem => hg (List.mem_of_mem_take hmem)
            · rw [List.length_append, List.length_take]
              omega
        rw [hnull]
        constructor
        · intro h
          cases h
        · rintro ⟨ls, st', hls, -⟩
          cases hls
  | piece g s hg ih =>
      obtain ⟨bound, rfl⟩ : ∃ b, bound = b + 1 := ⟨bound - 1, by omega⟩
      have hrest : s.length < bound := by
        rw [List.length_append, List.length_cons] at hbound
        omega
      rw [Words.pieces_append_cons hg, joinLines_cons before last g (Words.pieces_ne_nil _ _)]
      -- a line with its newline is too long, empty, goes on, or is complete
      by_cases hlong : ASCIILINESZ ≤ (last ++ g).length + 1
      · rw [if_pos hlong]
        rw [List.length_append] at hlong
        have hnull : iniparserLoop before (bound + 1) st last (g ++ '\n' :: s) = .null := by
          apply iniparserLoop_null (by simp) (fgets_full hg (by omega) ('\n' :: s))
          · rw [ne_eq, List.take_eq_nil_iff, not_or]
            refine ⟨by omega, ?_⟩
            rintro rfl
            rw [List.length_nil] at hlong
            omega
          · exact fun hmem => hg (List.mem_of_mem_take hmem)
          · rw [List.length_append, List.length_take]
            omega
        rw [hnull]
        constructor
        · intro h
          cases h
        · rintro ⟨ls, st', hls, -⟩
          cases hls
      rw [if_neg hlong, iniparserLoop_line hg (Nat.lt_of_not_le hlong)]
      by_cases hempty : last ++ g = []
      · rw [if_pos hempty, if_pos hempty]
        exact ih hrest hlast
      rw [if_neg hempty, if_neg hempty]
      by_cases hmore : ((last ++ g).rdropWhile isspace).getLast?.getD before = '\\'
      · rw [if_pos hmore, if_pos hmore]
        -- the backslash of a line of blanks is the byte in front of the buffer
        by_cases hblank : (last ++ g).rdropWhile isspace = []
        · rw [if_pos hblank, if_pos hblank]
          constructor
          · intro h
            cases h
          · rintro ⟨ls, st', hls, -⟩
            cases hls
        · rw [if_neg hblank, if_neg hblank]
          apply ih hrest
          have hle := (List.rdropWhile_prefix isspace (last ++ g)).length_le
          rw [List.length_dropLast]
          omega
      · rw [if_neg hmore, if_neg hmore]
        cases hswitch : iniparserSwitch st ((last ++ g).rdropWhile isspace) with
        | none =>
            constructor
            · intro h
              cases h
            · rintro ⟨ls, st', hls, hrun, -⟩
              obtain ⟨ls', -, rfl⟩ := Option.map_eq_some_iff.mp hls
              rw [List.foldlM_cons, hswitch] at hrun
              cases hrun
        | some st₁ =>
            show iniparserLoop before bound st₁ [] s = .dict d ↔ _
            rw [ih hrest (by decide)]
            constructor
            · rintro ⟨ls, st', hls, hrun, hresult⟩
              refine ⟨_, st', Option.map_eq_some_iff.mpr ⟨ls, hls, rfl⟩, ?_, hresult⟩
              rw [List.foldlM_cons, hswitch]
              exact hrun
            · rintro ⟨ls, st', hls, hrun, hresult⟩
              obtain ⟨ls', hls', rfl⟩ := Option.map_eq_some_iff.mp hls
              rw [List.foldlM_cons, hswitch] at hrun
              exact ⟨ls', st', hls', hrun, hresult⟩

/-! ## What the lines set -/

/-- The names that lines set in a dictionary with their values, inside a section. -/
def assignments (current : Str) : List Str → List (Str × Option Str)
  | [] => []
  | line :: lines =>
      match iniparserLine line current with
      | .lineSection [] => assignments [] lines
      | .lineSection name => (name, none) :: assignments name lines
      | .lineValue key val => (current ++ ':' :: key, some val) :: assignments current lines
      | _ => assignments current lines

/-- The last value that is set for a name. -/
def lastValue (name : Str) : List (Str × Option Str) → Option (Option Str)
  | [] => none
  | a :: as => (lastValue name as).or (if a.1 = name then some a.2 else none)

/-- A line that sets something. -/
def IniLine.sets : IniLine → Bool
  | .lineSection _ => true
  | .lineValue _ _ => true
  | _ => false

/-- Behind every syntax error stands a line that sets something. -/
def ErrorsForgotten (lines : List Str) : Prop :=
  ∀ front line behind, lines = front ++ line :: behind → iniparserLine line [] = .lineError →
    ∃ line' ∈ behind, (iniparserLine line' []).sets = true

theorem errorsForgotten_nil : ErrorsForgotten [] := fun front line behind h => by
  simp at h

theorem errorsForgotten_cons (line : Str) (lines : List Str) :
    ErrorsForgotten (line :: lines) ↔
      (iniparserLine line [] = .lineError →
        ∃ line' ∈ lines, (iniparserLine line' []).sets = true) ∧ ErrorsForgotten lines := by
  constructor
  · intro h
    refine ⟨h [] line lines rfl, fun front line' behind heq => ?_⟩
    exact h (line :: front) line' behind (by rw [heq, List.cons_append])
  · rintro ⟨hhead, htail⟩ front line' behind heq
    cases front with
    | nil =>
        obtain ⟨rfl, rfl⟩ := List.cons.inj heq
        exact hhead
    | cons line'' front =>
        obtain ⟨-, heq⟩ := List.cons.inj heq
        exact htail front line' behind heq

/-- Whether a line sets something does not depend on the section it stands in. -/
theorem sets_iniparserLine (line current : Str) :
    (iniparserLine line current).sets = (iniparserLine line []).sets := by
  unfold iniparserLine
  dsimp only
  split_ifs
  · rfl
  · rfl
  · rfl
  · rfl

theorem lastValue_append (name : Str) (as bs : List (Str × Option Str)) :
    lastValue name (as ++ bs) = (lastValue name bs).or (lastValue name as) := by
  induction as with
  | nil => rw [List.nil_append, lastValue, Option.or_none]
  | cons a as ih => rw [List.cons_append, lastValue, ih, lastValue, Option.or_assoc]

/-- The map of the last values that are set, on top of another map. -/
def withAssignments (m : Str → Option (Option Str)) (as : List (Str × Option Str)) :
    Str → Option (Option Str) :=
  fun name => ((lastValue name as).map xstrdup).or (m name)

theorem withAssignments_append (m : Str → Option (Option Str)) (as bs : List (Str × Option Str)) :
    withAssignments (withAssignments m as) bs = withAssignments m (as ++ bs) := by
  funext name
  simp only [withAssignments, lastValue_append, Option.map_or, Option.or_assoc]

theorem withAssignments_singleton (m : Str → Option (Option Str)) (name : Str)
    (val : Option Str) :
    withAssignments m [(name, val)] = Function.update m name (some (xstrdup val)) := by
  funext k
  rw [withAssignments, lastValue, lastValue, Option.none_or, Function.update_apply]
  by_cases hk : k = name
  · rw [if_pos hk.symm, if_pos hk]
    rfl
  · rw [if_neg (Ne.symm hk), if_neg hk]
    rfl

/-! ## One line, and all of them -/

variable {st' : IniState} {m : Str → Option (Option Str)} {line : Str}

/-- What a line has done to the state: what it sets is in the dictionary, and the errors before
it are forgotten if it sets something. -/
structure Switched (m : Str → Option (Option Str)) (st st' : IniState) (line : Str)
    (new : List (Str × Option Str)) : Prop where
  assignments : ∀ lines,
    assignments st.current (line :: lines) = new ++ assignments st'.current lines
  dict : st'.dict.Represents (withAssignments m new)
  errs : st'.errs = 0 ↔ (iniparserLine line []).sets = true ∨
    (st.errs = 0 ∧ iniparserLine line [] ≠ .lineError)

/-- **Step lemma**: a line that is not too long for `tmp`. -/
theorem iniparserSwitch_spec (hm : st.dict.Represents m) (line : Str) :
    (∃ st' new, iniparserSwitch st line = some st' ∧ Switched m st st' line new ∧
      ∀ a ∈ new, a.1.length ≤ ASCIILINESZ) ∨
    (iniparserSwitch st line = none ∧ ∃ a, ASCIILINESZ < a.1.length ∧
      ∀ lines, a ∈ assignments st.current (line :: lines)) := by
  have hsets := sets_iniparserLine line st.current
  have herror : iniparserLine line [] = .lineError ↔
      iniparserLine line st.current = .lineError :=
    ⟨iniparserLine_eq_lineError _ _ _, iniparserLine_eq_lineError _ _ _⟩
  cases hline : iniparserLine line st.current with
  | lineEmpty =>
      left
      rw [hline] at herror
      have hnot : (iniparserLine line []).sets = false := by rw [← hsets, hline]; rfl
      refine ⟨st, [], by rw [iniparserSwitch, hline], ⟨fun lines => ?_, hm, ?_⟩, by simp⟩
      · rw [assignments, hline, List.nil_append]
      · simp [hnot, herror]
  | lineComment =>
      left
      rw [hline] at herror
      have hnot : (iniparserLine line []).sets = false := by rw [← hsets, hline]; rfl
      refine ⟨st, [], by rw [iniparserSwitch, hline], ⟨fun lines => ?_, hm, ?_⟩, by simp⟩
      · rw [assignments, hline, List.nil_append]
      · simp [hnot, herror]
  | lineError =>
      left
      rw [hline] at herror
      have hnot : (iniparserLine line []).sets = false := by rw [← hsets, hline]; rfl
      refine ⟨{ st with errs := st.errs + 1 }, [], by rw [iniparserSwitch, hline],
        ⟨fun lines => ?_, hm, ?_⟩, by simp⟩
      · rw [assignments, hline, List.nil_append]
      · simp [hnot, herror]
  | lineSection name =>
      left
      rw [hline] at hsets
      obtain ⟨d', hset, hd'⟩ := hm.set name none
      have hswitch : iniparserSwitch st line = some ⟨name, d', 0⟩ := by
        rw [iniparserSwitch, hline]
        simp only [hset, Option.map_some]
      have herrs : (0 : ℕ) = 0 ↔ (iniparserLine line []).sets = true ∨
          (st.errs = 0 ∧ iniparserLine line [] ≠ .lineError) :=
        ⟨fun _ => Or.inl hsets.symm, fun _ => rfl⟩
      cases name with
      | nil =>
          refine ⟨_, [], hswitch, ⟨fun lines => ?_, ?_, herrs⟩, by simp⟩
          · rw [assignments, hline, List.nil_append]
          · rw [if_pos rfl] at hd'
            exact hd'
      | cons c cs =>
          refine ⟨_, [(c :: cs, none)], hswitch, ⟨fun lines => ?_, ?_, herrs⟩, ?_⟩
          · rw [assignments, hline, List.singleton_append]
          · rw [if_neg (List.cons_ne_nil c cs)] at hd'
            rw [withAssignments_singleton]
            exact hd'
          · intro a ha
            rw [List.mem_singleton.mp ha]
            exact length_lineSection_le_size hline
  | lineValue key val =>
      rw [hline] at hsets
      have hmem : ∀ lines, (st.current ++ ':' :: key, some val)
          ∈ assignments st.current (line :: lines) := fun lines => by
        rw [assignments, hline]
        exact List.mem_cons_self
      -- the name is put together in `tmp`, which has room for `ASCIILINESZ` symbols
      by_cases hlong : ASCIILINESZ < (st.current ++ ':' :: key).length
      · right
        refine ⟨?_, _, hlong, hmem⟩
        rw [iniparserSwitch, hline]
        simp only [if_pos hlong]
      · left
        obtain ⟨d', hset, hd'⟩ := hm.set (st.current ++ ':' :: key) (some val)
        rw [if_neg (by simp)] at hd'
        refine ⟨⟨st.current, d', 0⟩, [(st.current ++ ':' :: key, some val)], ?_,
          ⟨fun lines => ?_, ?_, ?_⟩, ?_⟩
        · rw [iniparserSwitch, hline]
          simp only [if_neg hlong, hset, Option.map_some]
        · rw [assignments, hline, List.singleton_append]
        · rw [withAssignments_singleton]
          exact hd'
        · exact ⟨fun _ => Or.inl hsets.symm, fun _ => rfl⟩
        · intro a ha
          rw [List.mem_singleton.mp ha]
          exact Nat.le_of_not_lt hlong

/-- What the lines have done to the state. -/
structure Parsed (m : Str → Option (Option Str)) (st st' : IniState) (lines : List Str) :
    Prop where
  dict : st'.dict.Represents (withAssignments m (assignments st.current lines))
  errs : st'.errs = 0 ↔ (st.errs = 0 ∨ ∃ line ∈ lines, (iniparserLine line []).sets = true) ∧
    ErrorsForgotten lines

/-- A line in front of others. -/
theorem Switched.parsed {st₁ : IniState} {lines : List Str} {new : List (Str × Option Str)}
    (hline : Switched m st st₁ line new)
    (hlines : Parsed (withAssignments m new) st₁ st' lines) : Parsed m st st' (line :: lines) where
  dict := by
    rw [hline.assignments, ← withAssignments_append]
    exact hlines.dict
  errs := by
    rw [hlines.errs, hline.errs, errorsForgotten_cons, List.exists_mem_cons_iff]
    have hexcl : (iniparserLine line []).sets = true → iniparserLine line [] ≠ .lineError := by
      intro hsets herror
      rw [herror] at hsets
      cases hsets
    tauto

/-- **Run lemma**: the lines are parsed if what they set is not too long for `tmp`. -/
theorem foldlM_iniparserSwitch (hm : st.dict.Represents m) (lines : List Str) :
    (∃ st', lines.foldlM iniparserSwitch st = some st' ∧ Parsed m st st' lines ∧
      ∀ a ∈ assignments st.current lines, a.1.length ≤ ASCIILINESZ) ∨
    (lines.foldlM iniparserSwitch st = none ∧
      ∃ a ∈ assignments st.current lines, ASCIILINESZ < a.1.length) := by
  induction lines generalizing st m with
  | nil =>
      left
      refine ⟨st, rfl, ⟨hm, ?_⟩, fun a ha => absurd ha List.not_mem_nil⟩
      simp [errorsForgotten_nil]
  | cons line lines ih =>
      rcases iniparserSwitch_spec hm line with ⟨st₁, new, hswitch, hline, hfits⟩ | ⟨hswitch, a, ha⟩
      · rw [List.foldlM_cons, hswitch]
        show (∃ st', lines.foldlM iniparserSwitch st₁ = some st' ∧ _) ∨
          (lines.foldlM iniparserSwitch st₁ = none ∧ _)
        rcases ih hline.dict with ⟨st', hrun, hlines, hfits'⟩ | ⟨hrun, a, ha, hlong⟩
        · left
          refine ⟨st', hrun, hline.parsed hlines, fun a ha => ?_⟩
          rw [hline.assignments] at ha
          rcases List.mem_append.mp ha with ha | ha
          · exact hfits a ha
          · exact hfits' a ha
        · right
          refine ⟨hrun, a, ?_, hlong⟩
          rw [hline.assignments]
          exact List.mem_append_right _ ha
      · right
        rw [List.foldlM_cons, hswitch]
        exact ⟨rfl, a, ha.2 lines, ha.1⟩

/-! ## Whether a file is loaded, and what its keys have then -/

theorem represents_start : IniState.start.dict.Represents fun _ => none :=
  represents_dictionaryNew 0

/-- A file that is loaded, line by line. -/
theorem iniparserLoad_eq_dict (before : Char) (file : Str) (d : Dictionary) :
    iniparserLoad before (some file) = .dict d ↔
      ∃ lines st', logicalLines before file = some lines ∧
        lines.foldlM iniparserSwitch .start = some st' ∧
        st'.errs = 0 ∧ st'.dict = d := by
  have hresult : ∀ st : IniState, st.result = .dict d ↔ st.errs = 0 ∧ st.dict = d := fun st => by
    rw [IniState.result]
    split_ifs with herrs
    · simp [herrs]
    · rw [ne_eq, not_not] at herrs
      simp [herrs]
  simp only [← hresult]
  exact iniparserLoop_eq_dict (Nat.lt_succ_self _) (by decide)

/-- A file whose lines fit, with the names they set, is loaded if no error is left at its end. -/
theorem exists_iniparserLoad {lines : List Str} (hlines : logicalLines before file = some lines)
    (hfits : ∀ a ∈ assignments [] lines, a.1.length ≤ ASCIILINESZ)
    (hforgotten : ErrorsForgotten lines) : ∃ d, iniparserLoad before (some file) = .dict d := by
  rcases foldlM_iniparserSwitch represents_start lines with
    ⟨st', hrun, hparsed, -⟩ | ⟨-, a, ha, hlong⟩
  · refine ⟨st'.dict, (iniparserLoad_eq_dict before file _).mpr ?_⟩
    exact ⟨lines, st', hlines, hrun, hparsed.errs.mpr ⟨Or.inl rfl, hforgotten⟩, rfl⟩
  · exact absurd (hfits a ha) (Nat.not_le_of_lt hlong)

/-- What a file that is loaded has set. -/
theorem exists_lines_of_load (h : iniparserLoad before (some file) = .dict d) :
    ∃ lines, logicalLines before file = some lines ∧
      (∀ a ∈ assignments [] lines, a.1.length ≤ ASCIILINESZ) ∧ ErrorsForgotten lines ∧
      ∀ key default, iniparserGetstring d key default
        = ((lastValue (strlwc key) (assignments [] lines)).map xstrdup).getD default := by
  obtain ⟨lines, st', hlines, hrun, herrs, rfl⟩ := (iniparserLoad_eq_dict before file d).mp h
  rcases foldlM_iniparserSwitch represents_start lines with
    ⟨st₁, hrun', hparsed, hfits⟩ | ⟨hrun', -⟩
  · obtain rfl : st₁ = st' := Option.some.inj (hrun'.symm.trans hrun)
    refine ⟨lines, hlines, hfits, (hparsed.errs.mp herrs).2, fun key default => ?_⟩
    rw [iniparserGetstring, hparsed.dict.get, withAssignments, Option.or_none]
    rfl
  · exact absurd (hrun'.symm.trans hrun) (by simp)

/-- **The last value that a file assigns to a key is the one it has**, `NULL` if it is empty; a
key to which nothing is assigned has the default. -/
theorem iniparser_getstring_load {before : Char} {file : Str} {d : Dictionary}
    (h : iniparserLoad before (some file) = .dict d) (key : Str) (default : Option Str) :
    ∃ lines, logicalLines before file = some lines ∧
      iniparserGetstring d key default
        = ((lastValue (strlwc key) (assignments [] lines)).map xstrdup).getD default := by
  obtain ⟨lines, hlines, -, -, hget⟩ := exists_lines_of_load h
  exact ⟨lines, hlines, hget key default⟩

/-- A key that is assigned twice, and an error that is forgotten. -/
def twiceAssigned : Str := "a=1\n# one\n=\nA = \"2\"\n".toList

theorem iniparser_getstring_load_twice : ∃ d, iniparserLoad ' ' (some twiceAssigned) = .dict d ∧
    iniparserGetstring d ":a".toList none = some "2".toList := by
  have hlines : logicalLines ' ' twiceAssigned
      = some ["a=1".toList, "# one".toList, "=".toList, "A = \"2\"".toList] := by decide +kernel
  have hload : (match iniparserLoad ' ' (some twiceAssigned) with
      | .dict _ => true
      | _ => false) = true := by decide +kernel
  cases h : iniparserLoad ' ' (some twiceAssigned) with
  | null => rw [h] at hload; cases hload
  | fault => rw [h] at hload; cases hload
  | dict d =>
      obtain ⟨lines, hlines', hget⟩ := iniparser_getstring_load h ":a".toList none
      obtain rfl := Option.some.inj (hlines.symm.trans hlines')
      exact ⟨d, rfl, hget.trans (by decide +kernel)⟩

end Trapd
