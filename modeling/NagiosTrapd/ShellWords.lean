/-
# Words, quotes and active characters of a shell command text

A small library: how a POSIX shell cuts a command text into words.  `Scan` is
the scanner's state and `step` reads one character; words are kept as they are
written, quotes and backslashes included.  `active` collects every unquoted
operator, expansion or pattern character and, inside double quotes, every
unescaped `$` and backquote.  A backslash always takes the next character along;
a line continuation is kept in the word like any other escaped character.

`DoubleQuoted q` is the shape a text must have to be exactly one double-quoted
string.  The two lemmas a caller needs are `scan_bare` (ordinary characters
extend the current word) and `scan_doubleQuoted` (so does a double-quoted
string); neither adds an active character.
-/
import Mathlib.Data.List.Basic

namespace ShellWords

/-- Where the scanner stands: between words, in a word outside quotes, after a
backslash there, inside double quotes, after a backslash there, inside single
quotes, or in a comment. -/
inductive Mode
  | blank | bare | bareEscape | double | doubleEscape | single | comment
  deriving DecidableEq, Repr

/-- The scanner's state. -/
structure Scan where
  mode : Mode
  /-- The word being read, as written. -/
  word : List Char
  /-- The finished words, in order. -/
  words : List (List Char)
  /-- The active characters met so far, in order. -/
  active : List Char
  deriving DecidableEq, Repr

/-- The scanner before the first character. -/
def Scan.start : Scan := ⟨.blank, [], [], []⟩

/-- A blank that ends a word. -/
def isBlank (c : Char) : Bool := c == ' ' || c == '\t'

/-- A control operator, a redirection operator or the end of a command. -/
def isOperator (c : Char) : Bool := c ∈ ['|', '&', ';', '<', '>', '(', ')', '\n']

/-- A character that starts an expansion or a pattern where it is not quoted. -/
def isExpansion (c : Char) : Bool := c ∈ ['$', '`', '*', '?', '[']

/-- A character that stands for itself anywhere in an unquoted word. -/
def isOrdinary (c : Char) : Bool :=
  !(isBlank c || isOperator c || isExpansion c || c ∈ ['"', '\'', '\\', '#', '~'])

/-- Add a character to the current word. -/
def Scan.put (s : Scan) (m : Mode) (c : Char) : Scan := { s with mode := m, word := s.word ++ [c] }

/-- Record an active character. -/
def Scan.activate (s : Scan) (c : Char) : Scan := { s with active := s.active ++ [c] }

/-- Finish the current word. -/
def Scan.finish (s : Scan) : Scan :=
  { s with mode := .blank, word := [], words := s.words ++ [s.word] }

/-- Read an unquoted character that neither is a blank nor depends on whether it
starts the word. -/
def Scan.unquoted (s : Scan) (c : Char) : Scan :=
  if c = '"' then s.put .double c
  else if c = '\'' then s.put .single c
  else if c = '\\' then s.put .bareEscape c
  else if isExpansion c then (s.put .bare c).activate c
  else s.put .bare c

/-- Read one character. -/
def step (s : Scan) (c : Char) : Scan :=
  match s.mode with
  | .blank =>
      if isBlank c then s
      else if isOperator c then s.activate c
      else if c = '#' then { s with mode := .comment }
      else if c = '~' then (s.put .bare c).activate c
      else s.unquoted c
  | .bare =>
      if isBlank c then s.finish
      else if isOperator c then s.finish.activate c
      else s.unquoted c
  | .bareEscape => s.put .bare c
  | .double =>
      if c = '"' then s.put .bare c
      else if c = '\\' then s.put .doubleEscape c
      else if c = '$' ∨ c = '`' then (s.put .double c).activate c
      else s.put .double c
  | .doubleEscape => s.put .double c
  | .single => if c = '\'' then s.put .bare c else s.put .single c
  | .comment => if c = '\n' then { s with mode := .blank }.activate c else s

/-- Read a text. -/
def scan (s : Scan) (text : List Char) : Scan := text.foldl step s

/-- Two texts are scanned one after the other. -/
theorem scan_append (s : Scan) (t u : List Char) : scan s (t ++ u) = scan (scan s t) u :=
  List.foldl_append

/-- A text is scanned from its first character on. -/
theorem scan_cons (s : Scan) (c : Char) (t : List Char) : scan s (c :: t) = scan (step s c) t :=
  rfl

/-- The empty text changes nothing. -/
@[simp] theorem scan_nil (s : Scan) : scan s [] = s := rfl

/-- The words of a text that ends outside quotes, `none` if a quote or a
backslash is left open. -/
def Scan.allWords (s : Scan) : Option (List (List Char)) :=
  match s.mode with
  | .blank | .comment => some s.words
  | .bare => some (s.words ++ [s.word])
  | _ => none

/-! ## Ordinary characters -/

/-- An ordinary character extends the current word, or starts one. -/
theorem step_ordinary {s : Scan} (hs : s.mode = .bare ∨ s.mode = .blank) {c : Char}
    (hc : isOrdinary c) : step s c = s.put .bare c := by
  simp only [isOrdinary, Bool.not_eq_true', Bool.or_eq_false_iff, decide_eq_false_iff_not,
    List.mem_cons, List.not_mem_nil, or_false, not_or] at hc
  obtain ⟨⟨⟨hblank, hop⟩, hexp⟩, hq, hsq, hbs, hhash, htilde⟩ := hc
  have hunq : s.unquoted c = s.put .bare c := by
    simp [Scan.unquoted, hq, hsq, hbs, hexp]
  rcases hs with h | h <;> simp [step, h, hblank, hop, hhash, htilde, hunq]

/-- Ordinary characters extend the current word. -/
theorem scan_bare {s : Scan} (hs : s.mode = .bare) {t : List Char}
    (ht : ∀ c ∈ t, isOrdinary c) : scan s t = { s with word := s.word ++ t } := by
  induction t generalizing s with
  | nil => simp
  | cons c t ih =>
      rw [scan_cons, step_ordinary (Or.inl hs) (ht c List.mem_cons_self),
        ih rfl fun d hd => ht d (List.mem_cons_of_mem _ hd)]
      simp [Scan.put, hs]

/-- Ordinary characters between words start a new one. -/
theorem scan_blank {s : Scan} (hs : s.mode = .blank) {c : Char} {t : List Char}
    (ht : ∀ d ∈ c :: t, isOrdinary d) :
    scan s (c :: t) = { s with mode := .bare, word := s.word ++ c :: t } := by
  rw [scan_cons, step_ordinary (Or.inr hs) (ht c List.mem_cons_self),
    scan_bare rfl fun d hd => ht d (List.mem_cons_of_mem _ hd)]
  simp [Scan.put]

/-! ## Double-quoted strings -/

/-- A text that may stand between double quotes and stays there: the backslash
takes the next character along, and no unescaped double quote, dollar sign or
backquote occurs. -/
def isQuotedBody : List Char → Bool
  | [] => true
  | ['\\'] => false
  | '\\' :: _ :: t => isQuotedBody t
  | c :: t => c ≠ '"' && c ≠ '$' && c ≠ '`' && isQuotedBody t

/-- A text that is exactly one double-quoted string: its first character opens
the quote, the first unescaped double quote after it is its last character, and
no unescaped dollar sign or backquote lies in between. -/
def DoubleQuoted (q : List Char) : Prop :=
  ∃ body, q = '"' :: (body ++ ['"']) ∧ isQuotedBody body

/-- A character that is no backslash stands for itself. -/
theorem isQuotedBody_cons {c : Char} (hc : c ≠ '\\') (t : List Char) :
    isQuotedBody (c :: t) = (c ≠ '"' && c ≠ '$' && c ≠ '`' && isQuotedBody t) := by
  rw [isQuotedBody]
  · intro h; simp_all
  · intro d u h; simp_all

/-- Behind a backslash any character may stand. -/
theorem isQuotedBody_escape (c : Char) (t : List Char) :
    isQuotedBody ('\\' :: c :: t) = isQuotedBody t := by
  rw [isQuotedBody]

/-- Inside double quotes a quoted body only extends the word. -/
theorem scan_quotedBody {body : List Char} (hb : isQuotedBody body) :
    ∀ {s : Scan}, s.mode = .double → scan s body = { s with word := s.word ++ body } := by
  induction body using isQuotedBody.induct with
  | case1 => intro s _; simp
  | case2 => simp [isQuotedBody] at hb
  | case3 c t ih =>
      intro s hs
      rw [isQuotedBody_escape] at hb
      have h1 : step s '\\' = s.put .doubleEscape '\\' := by simp [step, hs]
      have h2 : step (s.put .doubleEscape '\\') c
          = (s.put .doubleEscape '\\').put .double c := rfl
      rw [scan_cons, scan_cons, h1, h2, ih hb rfl]
      simp [Scan.put, hs]
  | case4 c t hne hesc ih =>
      intro s hs
      have hc : c ≠ '\\' := by
        rintro rfl
        cases t with
        | nil => exact hne rfl rfl
        | cons d t => exact hesc d t rfl rfl
      rw [isQuotedBody_cons hc] at hb
      simp only [ne_eq, Bool.and_eq_true, decide_eq_true_eq] at hb
      obtain ⟨⟨⟨hq, hd⟩, hbq⟩, hrest⟩ := hb
      have h1 : step s c = s.put .double c := by simp [step, hs, hq, hc, hd, hbq]
      rw [scan_cons, h1, ih hrest rfl]
      simp [Scan.put, hs]

/-- **A double-quoted string inside a word only extends that word.** -/
theorem scan_doubleQuoted {q : List Char} (hq : DoubleQuoted q) {s : Scan}
    (hs : s.mode = .bare) : scan s q = { s with word := s.word ++ q } := by
  obtain ⟨body, rfl, hb⟩ := hq
  have hopen : step s '"' = s.put .double '"' := by
    simp [step, hs, isBlank, isOperator, Scan.unquoted]
  rw [scan_cons, hopen, scan_append, scan_quotedBody hb rfl, scan_cons]
  simp [step, Scan.put, hs]

/-! ## What a double-quoted string stands for -/

/-- The characters before which a shell removes a backslash inside double quotes. -/
def isEscapable (c : Char) : Bool := c ∈ ['\\', '"', '$', '`']

/-- Read a double-quoted string to its closing quote, which must be the last character;
`escaped` says that a backslash stands before the text.  There is no result when an
expansion is met. -/
def unquoteFrom : Bool → List Char → Option (List Char)
  | _, [] => none
  | true, c :: t =>
      (unquoteFrom false t).map fun u => if isEscapable c then c :: u else '\\' :: c :: u
  | false, c :: t =>
      if c = '"' then if t = [] then some [] else none
      else if c = '\\' then unquoteFrom true t
      else if c = '$' ∨ c = '`' then none
      else (unquoteFrom false t).map (c :: ·)

/-- The text that a shell passes on for a double-quoted string. -/
def unquote : List Char → Option (List Char)
  | [] => none
  | c :: t => if c = '"' then unquoteFrom false t else none

/-- A backslash is dropped where it escapes. -/
theorem unquoteFrom_escape (c : Char) (t : List Char) :
    unquoteFrom false ('\\' :: c :: t)
      = (unquoteFrom false t).map fun u => if isEscapable c then c :: u else '\\' :: c :: u := by
  rw [unquoteFrom, if_neg (by decide), if_pos rfl, unquoteFrom]

/-- Other characters are kept. -/
theorem unquoteFrom_cons {c : Char} (hq : c ≠ '"') (hb : c ≠ '\\') (hd : c ≠ '$')
    (hbq : c ≠ '`') (t : List Char) :
    unquoteFrom false (c :: t) = (unquoteFrom false t).map (c :: ·) := by
  rw [unquoteFrom, if_neg hq, if_neg hb, if_neg (by simp [hd, hbq])]

/-- What is read up to a last double quote is a quoted body. -/
theorem isQuotedBody_of_unquoteFrom {body : List Char} :
    ∀ {u : List Char}, unquoteFrom false (body ++ ['"']) = some u → isQuotedBody body = true := by
  induction body using isQuotedBody.induct with
  | case1 => exact fun _ => rfl
  | case2 =>
      intro u h
      simp [unquoteFrom] at h
  | case3 c t ih =>
      intro u h
      rw [List.cons_append, List.cons_append, unquoteFrom_escape] at h
      obtain ⟨v, hv, -⟩ := Option.map_eq_some_iff.mp h
      rw [isQuotedBody_escape]
      exact ih hv
  | case4 c t hne hesc ih =>
      intro u h
      have hc : c ≠ '\\' := by
        rintro rfl
        cases t with
        | nil => exact hne rfl rfl
        | cons d t => exact hesc d t rfl rfl
      rw [List.cons_append, unquoteFrom, if_neg hc] at h
      split_ifs at h with hq ht hexp
      · simp at ht
      · obtain ⟨v, hv, -⟩ := Option.map_eq_some_iff.mp h
        rw [isQuotedBody_cons hc, ih hv]
        simp only [not_or] at hexp
        simp [hq, hexp.1, hexp.2]

end ShellWords
