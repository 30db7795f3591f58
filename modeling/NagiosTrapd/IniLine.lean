/-
# A line of an ini file (`iniparser.c`)

`iniparser_line` tells what a line is: empty, a comment, the name of a section, a key with its
value, or an error.  Keys and names of sections are stripped of blanks and put in lower case; a
value loses its quotes, or what stands behind a `;` or a `#`, and the blanks around it.

**Main results:** `iniparserLine_assign`: the line that assigns a text in double quotes to a key.
`length_iniparserLine_le`: what a line gives is not longer than it is, so that it fits where
`iniparser_load` keeps it.
-/
import Mathlib.Data.List.DropRight
import NagiosTrapd.Scanf
import NagiosTrapd.Util

namespace Trapd

open Scanf

/-- `ASCIILINESZ`. -/
def ASCIILINESZ : ℕ := 1024

/-! ## Blanks and case -/

/-- `isspace`. -/
def isspace (c : Char) : Bool := c = ' ' ∨ ('\t' ≤ c ∧ c ≤ '\r')

/-- `strlwc`. -/
def strlwc (s : Str) : Str := (s.take ASCIILINESZ).map Char.toLower

/-- `strstrip`. -/
def strstrip (s : Str) : Str := (s.dropWhile isspace).rdropWhile isspace

/-! ## The formats of `sscanf` -/

/-- `[%[^]]`. -/
def sectionFormat : List (Directive Char) := [.exactly '[', .field (· ≠ ']')]

/-- `%[^=] = ` and what follows. -/
def keyFormat (value : List (Directive Char)) : List (Directive Char) :=
  [.field (· ≠ '='), .blanks, .exactly '=', .blanks] ++ value

/-- The formats of a key with its value, in the order in which they are tried. -/
def valueFormats : List (List (Directive Char)) :=
  [keyFormat [.exactly '"', .field (· ≠ '"'), .exactly '"'],
    keyFormat [.exactly '\'', .field (· ≠ '\''), .exactly '\''],
    keyFormat [.field fun c => c ≠ ';' ∧ c ≠ '#']]

/-- The formats of a key without a value: nothing but a comment, or nothing at all, follows. -/
def noValueFormats : List (List (Directive Char)) :=
  [keyFormat [.field fun c => c = ';' ∨ c = '#'],
    [.field (· ≠ '='), .blanks, .field (· = '=')]]

/-- What the first of the formats gives for which `sscanf` returns 2. -/
def scanFormats (formats : List (List (Directive Char))) (line : Str) : Option (Str × Str) :=
  formats.findSome? fun format =>
    match scan isspace format line with
    | [key, value] => some (key, value)
    | _ => none

/-! ## A line -/

/-- A `line_status`, with what the line sets. -/
inductive IniLine where
  | lineEmpty
  | lineComment
  | lineSection (name : Str)
  | lineValue (key val : Str)
  | lineError
  deriving DecidableEq, Repr

/-- `iniparser_line`, inside a section. -/
def iniparserLine (input_line current : Str) : IniLine :=
  let line := strstrip input_line
  if line.length < 1 then .lineEmpty
  else if line.head? = some '#' ∨ line.head? = some ';' then .lineComment
  else if line.head? = some '[' ∧ line.getLast? = some ']' then
    -- without a name, `sscanf` leaves the name of the section as it was
    .lineSection (strlwc (strstrip ((scan isspace sectionFormat line).headD current)))
  else
    match scanFormats valueFormats line with
    | some (key, value) =>
        let value := strstrip value
        let value := if value = ['"', '"'] ∨ value = ['\'', '\''] then [] else value
        .lineValue (strlwc (strstrip key)) value
    | none =>
        match scanFormats noValueFormats line with
        | some (key, _) => .lineValue (strlwc (strstrip key)) []
        | none => .lineError

/-! ## Stripping and lower case -/

/-- No blanks at either end. -/
def Stripped (s : Str) : Prop :=
  (∀ c ∈ s.head?, isspace c = false) ∧ ∀ c ∈ s.getLast?, isspace c = false

instance (s : Str) : Decidable (Stripped s) :=
  decidable_of_iff ((s.head?.all fun c => !isspace c) = true ∧
      (s.getLast?.all fun c => !isspace c) = true)
    (by cases hhead : s.head? <;> cases hlast : s.getLast? <;> simp [Stripped, hhead, hlast])

theorem strstrip_isInfix (s : Str) : strstrip s <:+: s :=
  (List.rdropWhile_prefix _ _).isInfix.trans (List.dropWhile_suffix _).isInfix

theorem strstrip_of_stripped {s : Str} (h : Stripped s) : strstrip s = s := by
  rw [strstrip, dropWhile_of_head h.1, List.rdropWhile_eq_self_iff]
  intro hne hlast
  rw [h.2 _ (List.getLast_mem_getLast? hne)] at hlast
  exact Bool.noConfusion hlast

theorem length_strlwc_le (s : Str) : (strlwc s).length ≤ s.length := by
  rw [strlwc, List.length_map]
  exact List.length_take_le' _ _

/-- A text in lower case that `strlwc` has room for. -/
theorem strlwc_of_lower {s : Str} (hlower : s.map Char.toLower = s)
    (hlen : s.length ≤ ASCIILINESZ) : strlwc s = s := by
  rw [strlwc, List.take_of_length_le hlen, hlower]

/-! ## What a line gives fits -/

variable {line current : Str}

theorem scanFormats_isInfix {formats : List (List (Directive Char))} {key value : Str}
    (h : scanFormats formats line = some (key, value)) : key <:+: line ∧ value <:+: line := by
  obtain ⟨format, -, hscan⟩ := List.exists_of_findSome?_eq_some h
  split at hscan
  · rename_i key' value' heq
    cases hscan
    have hmem : ∀ f ∈ [key, value], f <:+: line := fun f hf => by
      rw [← heq] at hf
      exact isInfix_of_mem_scan hf
    exact ⟨hmem key (by simp), hmem value (by simp)⟩
  · cases hscan

/-- The name of a section is not longer than the line, or than the name before it. -/
theorem length_lineSection_le {name : Str}
    (h : iniparserLine line current = .lineSection name) :
    name.length ≤ max line.length current.length := by
  have hfield : ((scan isspace sectionFormat (strstrip line)).headD current).length
      ≤ max line.length current.length := by
    cases hscan : scan isspace sectionFormat (strstrip line) with
    | nil => exact le_max_right _ _
    | cons f fs =>
        have hf : f ∈ scan isspace sectionFormat (strstrip line) := by
          rw [hscan]
          exact List.mem_cons_self
        have hle := ((isInfix_of_mem_scan hf).trans (strstrip_isInfix line)).length_le
        exact hle.trans (le_max_left _ _)
  unfold iniparserLine at h
  dsimp only at h
  split_ifs at h
  · cases h
    exact (length_strlwc_le _).trans ((strstrip_isInfix _).length_le.trans hfield)
  · repeat' split at h
    all_goals cases h

/-- The name of a section fits the buffer that `strlwc` has. -/
theorem length_lineSection_le_size {name : Str}
    (h : iniparserLine line current = .lineSection name) : name.length ≤ ASCIILINESZ := by
  unfold iniparserLine at h
  dsimp only at h
  split_ifs at h
  · cases h
    rw [strlwc, List.length_map]
    exact List.length_take_le _ _
  · repeat' split at h
    all_goals cases h

/-- A key and its value are not longer than the line. -/
theorem length_lineValue_le {key val : Str}
    (h : iniparserLine line current = .lineValue key val) :
    key.length ≤ line.length ∧ val.length ≤ line.length := by
  have hline := (strstrip_isInfix line).length_le
  have hkey : ∀ key' : Str, key' <:+: strstrip line →
      (strlwc (strstrip key')).length ≤ line.length := fun key' hpart =>
    (length_strlwc_le _).trans
      ((strstrip_isInfix _).length_le.trans (hpart.length_le.trans hline))
  unfold iniparserLine at h
  dsimp only at h
  split_ifs at h
  split at h
  · rename_i key' value' heq
    obtain ⟨hpart, hpart'⟩ := scanFormats_isInfix heq
    have hvalue := (strstrip_isInfix value').length_le.trans (hpart'.length_le.trans hline)
    obtain ⟨rfl, rfl⟩ := IniLine.lineValue.inj h
    refine ⟨hkey key' hpart, ?_⟩
    split_ifs
    · exact Nat.zero_le _
    · exact hvalue
  · split at h
    · rename_i key' value' heq
      obtain ⟨rfl, rfl⟩ := IniLine.lineValue.inj h
      exact ⟨hkey key' (scanFormats_isInfix heq).1, Nat.zero_le _⟩
    · cases h

/-! ## A line that assigns a value in double quotes -/

/-- A key that is read back as it is written. -/
structure IsIniKey (key : Str) : Prop where
  ne_nil : key ≠ []
  stripped : Stripped key
  lower : key.map Char.toLower = key
  plain : ∀ c ∈ key, c ≠ '=' ∧ c ≠ '\n'
  head : key.head? ≠ some '#' ∧ key.head? ≠ some ';'
  length_le : key.length ≤ ASCIILINESZ

/-- A value that is read back as it is written between double quotes. -/
structure IsIniValue (val : Str) : Prop where
  stripped : Stripped val
  plain : ∀ c ∈ val, c ≠ '"' ∧ c ≠ '\n'
  not_quotes : val ≠ ['\'', '\'']

instance (key : Str) : Decidable (IsIniKey key) :=
  decidable_of_iff (key ≠ [] ∧ Stripped key ∧ key.map Char.toLower = key ∧
      (key.all fun c => c ≠ '=' ∧ c ≠ '\n') = true ∧
      (key.head? ≠ some '#' ∧ key.head? ≠ some ';') ∧ key.length ≤ ASCIILINESZ)
    ⟨fun ⟨hne, hstripped, hlower, hplain, hhead, hlen⟩ =>
        ⟨hne, hstripped, hlower, by simpa using hplain, hhead, hlen⟩,
      fun h => ⟨h.ne_nil, h.stripped, h.lower, by simpa using h.plain, h.head, h.length_le⟩⟩

instance (val : Str) : Decidable (IsIniValue val) :=
  decidable_of_iff (Stripped val ∧ (val.all fun c => c ≠ '"' ∧ c ≠ '\n') = true ∧
      val ≠ ['\'', '\''])
    ⟨fun ⟨hstripped, hplain, hquotes⟩ => ⟨hstripped, by simpa using hplain, hquotes⟩,
      fun h => ⟨h.stripped, by simpa using h.plain, h.not_quotes⟩⟩

/-- `key="value"`. -/
def assignLine (key val : Str) : Str := key ++ '=' :: '"' :: val ++ ['"']

/-- `%[^=] = ` reads a key and the equals sign behind it. -/
theorem scan_keyFormat {key : Str} (h : IsIniKey key) {ds : List (Directive Char)} {r : Str}
    (hr : ∀ c ∈ r.head?, isspace c = false) :
    scan isspace (keyFormat ds) (key ++ '=' :: r) = key :: scan isspace ds r := by
  have hfield : ∀ c ∈ key, decide (c ≠ '=') = true := fun c hc => by
    simpa using (h.plain c hc).1
  have heq : ∀ c ∈ ('=' :: r).head?, isspace c = false := fun c hc => by
    cases hc
    decide
  rw [keyFormat, List.cons_append, scan_field h.ne_nil hfield (by simp)]
  show key :: scan isspace (.blanks :: .exactly '=' :: .blanks :: ds) _ = _
  rw [scan_blanks heq, scan_exactly, scan_blanks hr]

/-- The formats of `sscanf` on the line, as long as the value is not empty: the first one. -/
theorem scanFormats_assign {key val : Str} (hkey : IsIniKey key) (hval : IsIniValue val)
    (hne : val ≠ []) :
    scanFormats valueFormats (assignLine key val) = some (key, val) := by
  have hline : assignLine key val = key ++ '=' :: ('"' :: (val ++ ['"'])) := by
    rw [assignLine, List.append_assoc]
    rfl
  have hquote : ∀ c ∈ ('"' :: (val ++ ['"'])).head?, isspace c = false := fun c hc => by
    cases hc
    decide
  have hfield : ∀ c ∈ val, decide (c ≠ '"') = true := fun c hc => by
    simpa using (hval.plain c hc).1
  have hscan : scan isspace (keyFormat [.exactly '"', .field (· ≠ '"'), .exactly '"'])
      (assignLine key val) = [key, val] := by
    rw [hline, scan_keyFormat hkey hquote, scan_exactly, scan_field hne hfield (by simp),
      scan_exactly]
    rfl
  rw [scanFormats, valueFormats, List.findSome?_cons, hscan]

/-- The value that is empty is read with its quotes, by the third format. -/
theorem scanFormats_assign_nil {key : Str} (hkey : IsIniKey key) :
    scanFormats valueFormats (assignLine key []) = some (key, ['"', '"']) := by
  have hline : assignLine key [] = key ++ '=' :: ['"', '"'] := by
    rw [assignLine, List.append_assoc]
    rfl
  have hquote : ∀ c ∈ (['"', '"'] : Str).head?, isspace c = false := fun c hc => by
    cases hc
    decide
  have hscan : ∀ ds, scan isspace (keyFormat ds) (assignLine key [])
      = key :: scan isspace ds ['"', '"'] := fun ds => by
    rw [hline, scan_keyFormat hkey hquote]
  rw [scanFormats, valueFormats]
  simp only [List.findSome?_cons, hscan]
  rfl

/-- **The line is read as it was written**, in whatever section it stands. -/
theorem iniparserLine_assign {key val : Str} (hkey : IsIniKey key) (hval : IsIniValue val)
    (current : Str) : iniparserLine (assignLine key val) current = .lineValue key val := by
  obtain ⟨c, cs, hcons⟩ := List.exists_cons_of_ne_nil hkey.ne_nil
  have hhead : (assignLine key val).head? = key.head? := by
    rw [assignLine, hcons]
    rfl
  have hlast : (assignLine key val).getLast? = some '"' := by
    rw [assignLine, List.getLast?_append]
    rfl
  have hstrip : strstrip (assignLine key val) = assignLine key val := by
    apply strstrip_of_stripped
    refine ⟨?_, ?_⟩
    · rw [hhead]
      exact hkey.stripped.1
    · rw [hlast]
      intro c hc
      cases hc
      decide
  have hlen : ¬(assignLine key val).length < 1 := by
    rw [assignLine, List.length_append, List.length_singleton]
    omega
  have hkey' : strlwc (strstrip key) = key := by
    rw [strstrip_of_stripped hkey.stripped, strlwc_of_lower hkey.lower hkey.length_le]
  have hcomment : ¬(key.head? = some '#' ∨ key.head? = some ';') := not_or.mpr hkey.head
  rw [iniparserLine]
  simp only [hstrip, hhead, hlast, if_neg hlen, if_neg hcomment]
  rw [if_neg (by simp)]
  -- the empty value is read by another format than the others
  by_cases hne : val = []
  · rw [hne, scanFormats_assign_nil hkey]
    simp only [hkey']
    rfl
  · have hquotes : val ≠ ['"', '"'] := by
      rintro rfl
      exact (hval.plain '"' (by simp)).1 rfl
    rw [scanFormats_assign hkey hval hne]
    simp only [hkey', strstrip_of_stripped hval.stripped]
    rw [if_neg (by simp [hquotes, hval.not_quotes])]

/-- What a line is does not depend on the section that it stands in, up to the name of a new
one. -/
theorem iniparserLine_eq_lineError (line current current' : Str)
    (h : iniparserLine line current = .lineError) : iniparserLine line current' = .lineError := by
  unfold iniparserLine at h ⊢
  dsimp only at h ⊢
  split_ifs at h ⊢
  exact h

end Trapd
