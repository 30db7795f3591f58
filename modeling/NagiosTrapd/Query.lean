/-
# The file of queries (`query.c`)

`query_parse` reads the file through a buffer of `TMPBUFLEN` bytes, drops line ends and what
is then empty, and collects the lines between a begin and an end marker in one buffer that
grows with each line; its length is an `int`.  `query_fetch` looks a query up by its name.

The markers are searched with PCRE, which is a parameter, `Pcre`; what it does on them is the
hypothesis `Pcre.Lawful`.
-/
import NagiosTrapd.Blocks
import NagiosTrapd.LineBuffer
import NagiosTrapd.Trap

namespace Trapd

open Blocks

/-! ## PCRE -/

/-- The offsets of a match and of its parenthesized groups. -/
abbrev Ovector := List (ℕ × ℕ)

/-- What the code uses of PCRE. -/
structure Pcre where
  /-- The first match of a pattern in a subject. -/
  pcre_exec : Str → Str → Option Ovector
  /-- The text of a group, where it fits in a buffer of the size given last. -/
  pcre_copy_substring : Str → Ovector → ℕ → ℕ → Option Str

/-- `regex_execute`, for a pattern that compiles; `none` is a negative return code. -/
def regexExecute (pcre : Pcre) (pattern input : Str) : Option Ovector :=
  if isEmpty (some input) then none else pcre.pcre_exec pattern input

/-- `query_begin_marker`. -/
def queryBeginMarker : Str := "-- BEGIN QUERY ([a-zA-Z0-9_]+) --".toList

/-- `query_end_marker`. -/
def queryEndMarker : Str := "-- END QUERY --".toList

/-- `Q_NAME_SIZE`. -/
def Q_NAME_SIZE : ℕ := 256

/-! ## The table -/

/-- `struct query_t`. -/
structure Query where
  q_name : Str
  q_body : Str
  deriving DecidableEq, Repr

/-- `query_store`. -/
def queryStore (query_table : List Query) (name body : Option Str) : List Query :=
  match name, body with
  | some name, some body =>
      if name = [] then query_table
      else if body = [] then query_table
      else query_table ++ [⟨name, body⟩]
  | _, _ => query_table

/-- `query_fetch`. -/
def queryFetch (query_table : List Query) (name : Str) : Option Str :=
  (query_table.find? fun q_item => q_item.q_name = name).map Query.q_body

/-- One character of `remove_spaces`: a tab becomes a blank. -/
def removeSpace (c : Char) : Char := if c = ' ' ∨ c = '\t' then ' ' else c

/-- `remove_spaces`: NULL for the empty string; `none` is undefined behaviour, a counter that
leaves the `int`s. -/
def removeSpaces (str : Option Str) : Option (Option Str) :=
  match str with
  | none => some none
  | some s =>
      if INT_MAX < s.length then none
      else
        let buffer := s.map removeSpace
        some (if buffer.length = 0 then none else some buffer)

/-! ## The loop over the buffers -/

/-- `q_parse_status_t`. -/
inductive QParseStatus
  | outside | inside | invalid
  deriving DecidableEq, Repr

/-- Undefined behaviour of `query_parse`. -/
inductive QueryFault
  /-- A line is stored in front of `q_body`. -/
  | store
  /-- `q_name` has not been set. -/
  | name
  /-- There is no terminator in `q_body`. -/
  | body
  /-- The counter of `remove_spaces`. -/
  | count
  deriving DecidableEq, Repr

/-- The local variables of `query_parse`, and the table. -/
structure QueryState where
  status : QParseStatus
  q_found : Bool
  q_name : Slot Str
  q_body : Option (Block Char)
  q_body_len : ℤ
  query_table : List Query
  faults : List QueryFault
  deriving DecidableEq, Repr

/-- The variables before the first line. -/
def QueryState.init : QueryState := ⟨.outside, false, .unset, none, 0, [], []⟩

/-- The string in `q_body`; `none` is undefined behaviour, `some none` NULL. -/
def bodyString : Option (Block Char) → Option (Option Str)
  | none => some none
  | some q_body => (readTo '\x00' q_body.cells).map some

/-- A line of a query is put behind what is there.  `q_body_len` is an `int`: the sum is cut to
it, and is no index when it is negative. -/
def QueryState.append (s : QueryState) (line : Str) : QueryState :=
  if s.q_body_len < 0 then { s with faults := s.faults ++ [.store] }
  else
    let pos := s.q_body_len.toNat
    let len := line.length
    let q_body := Block.realloc s.q_body (pos + len + 1)
    -- the terminator of the line before becomes a blank
    let q_body := if 0 < pos then q_body.put (pos - 1) ' ' else q_body
    let q_body := q_body.store pos line
    let q_body := q_body.put (pos + len) '\x00'
    { s with
      q_body := some q_body
      q_body_len := (s.q_body_len + (len + 1)).bmod (2 ^ 32)
      q_found := true }

/-- The end marker. -/
def QueryState.endQuery (s : QueryState) : QueryState :=
  if s.q_found then
    match s.q_name, bodyString s.q_body with
    | .set q_name, some body =>
        match removeSpaces body with
        | none => { s with faults := s.faults ++ [.count] }
        | some body =>
            { s with
              status := .outside
              q_found := false
              q_body :=
                if 0 < s.q_body_len then s.q_body.map fun q_body => q_body.put 0 '\x00'
                else s.q_body
              q_body_len := 0
              query_table := queryStore s.query_table (some q_name) body }
    | .unset, _ => { s with faults := s.faults ++ [.name] }
    | _, none => { s with faults := s.faults ++ [.body] }
  else { s with status := .outside }

/-- The `switch` on a line that is not empty. -/
def queryLine (pcre : Pcre) (s : QueryState) (line : Str) : QueryState :=
  match s.status with
  | .outside =>
      match regexExecute pcre queryBeginMarker line with
      | none => s
      | some ovector =>
          -- a name that does not fit is not stored
          match pcre.pcre_copy_substring line ovector 1 Q_NAME_SIZE with
          | none => { s with status := .inside }
          | some name => { s with status := .inside, q_name := .set name }
  | .inside =>
      match regexExecute pcre queryEndMarker line with
      | some _ => s.endQuery
      | none => s.append line
  | .invalid => s

/-- The line in a buffer: what stands in front of a NUL, without line ends. -/
def bufferLine (buffer : Str) : Option Str :=
  removeChars (some (buffer.takeWhile (· ≠ '\x00'))) ['\n', '\r']

/-- One turn of the `while` loop. -/
def queryTurn (pcre : Pcre) (s : QueryState) (buffer : Str) : QueryState :=
  match bufferLine buffer with
  | none => s
  | some line => queryLine pcre s line

/-- The buffers that `fgets` fills. -/
def queryBuffers (contents : Str) : List Str :=
  LineBuffer.buffers '\n' (TMPBUFLEN - 1) contents.length contents

/-- `query_parse` on the contents of the file. -/
def queryParse (pcre : Pcre) (contents : Str) : QueryState :=
  (queryBuffers contents).foldl (queryTurn pcre) .init

/-- The lines are handled one by one. -/
theorem queryParse_eq (pcre : Pcre) (contents : Str) :
    queryParse pcre contents
      = ((queryBuffers contents).filterMap bufferLine).foldl (queryLine pcre) .init := by
  unfold queryParse
  generalize QueryState.init = s
  induction queryBuffers contents generalizing s with
  | nil => rfl
  | cons buffer rest ih =>
      rw [List.foldl_cons, ih, queryTurn]
      cases hline : bufferLine buffer with
      | none => rw [List.filterMap_cons_none hline]
      | some line => rw [List.filterMap_cons_some hline, List.foldl_cons]

/-! ## Markers -/

/-- The characters of a query name. -/
def isNameChar (c : Char) : Bool := c.isAlphanum || c == '_'

/-- A name that a begin marker can have. -/
structure IsQueryName (name : Str) : Prop where
  ne_nil : name ≠ []
  chars : ∀ c ∈ name, isNameChar c = true
  fits : name.length < Q_NAME_SIZE

/-- What stands in front of the name in a begin marker. -/
def beginFront : Str := "-- BEGIN QUERY ".toList

/-- The begin marker of a query. -/
def beginMarker (name : Str) : Str := beginFront ++ (name ++ " --".toList)

/-- A line has a begin marker in it. -/
def HasBeginMarker (line : Str) : Prop :=
  ∃ name, name ≠ [] ∧ (∀ c ∈ name, isNameChar c = true) ∧ beginMarker name <:+: line

/-- **The markers are found where they occur**: a line that is a marker matches, with the
name as its first group, a line without marker does not, and a group is copied where there
is room for it. -/
structure Pcre.Lawful (pcre : Pcre) : Prop where
  begin_match {name : Str} : IsQueryName name →
    pcre.pcre_exec queryBeginMarker (beginMarker name)
      = some [(0, (beginMarker name).length),
          (beginFront.length, beginFront.length + name.length)]
  begin_none {line : Str} : ¬ HasBeginMarker line → pcre.pcre_exec queryBeginMarker line = none
  end_match : (pcre.pcre_exec queryEndMarker queryEndMarker).isSome = true
  end_none {line : Str} : ¬ queryEndMarker <:+: line → pcre.pcre_exec queryEndMarker line = none
  copy {subject : Str} {ovector : Ovector} {k start stop size : ℕ} :
    ovector[k]? = some (start, stop) → stop - start < size →
    pcre.pcre_copy_substring subject ovector k size
      = some ((subject.drop start).take (stop - start))

end Trapd
