/-
# Utility functions (`util.c`)

A C string is the list of its characters before the terminating NUL; a pointer
that may be NULL is an `Option`.  The functions keep the source's treatment of
NULL and of the empty string: several of them turn the empty string into NULL.
-/
import Mathlib.Tactic
import Mathlib.Data.List.TakeWhile
import NagiosTrapd.Words
import NagiosTrapd.ShellWords

/-- A C string. -/
abbrev Str := List Char

namespace Trapd

open ShellWords

/-- `TMPBUFLEN`. -/
def TMPBUFLEN : ℕ := 1024

/-- `INT_MAX`. -/
def INT_MAX : ℤ := 2 ^ 31 - 1

/-! ## Strings -/

/-- The string that C finds in a buffer of text: it ends at the first NUL. -/
def cString (text : Str) : Str := Words.firstPiece '\x00' text

/-- `is_empty`: NULL or empty. -/
def isEmpty : Option Str → Bool
  | none => true
  | some s => s.isEmpty

/-- `xstrdup`: a copy, but NULL for NULL and for the empty string. -/
def xstrdup (s : Option Str) : Option Str :=
  if isEmpty s then none else s

/-- `xstrlen`. -/
def xstrlen (s : Option Str) : ℕ :=
  if isEmpty s then 0 else (s.getD []).length

/-- `remove_chars`: `str` without the characters of `rem`, NULL when nothing is left. -/
def removeChars (str : Option Str) (rem : Str) : Option Str :=
  match str with
  | none => none
  | some s =>
      let buffer := s.filter (· ∉ rem)
      if buffer.length = 0 then none else some buffer

/-- `is_integer`: only decimal digits (so also the empty string). -/
def isInteger : Option Str → Bool
  | none => false
  | some s => s.all Char.isDigit

/-- The value of a run of decimal digits. -/
def digitsValue (s : Str) : ℕ :=
  s.foldl (fun acc c => 10 * acc + (c.toNat - '0'.toNat)) 0

/-- `strtol` of the C library in base 10: blanks, a sign, digits; saturates at
the bounds of a 64-bit `long`. -/
def strtol (s : Str) : ℤ :=
  let s := s.dropWhile (· ∈ [' ', '\t', '\n', '\x0b', '\x0c', '\r'])
  let value (t : Str) : ℤ := digitsValue (t.takeWhile Char.isDigit)
  match s with
  | '-' :: t => max (-value t) (-2 ^ 63)
  | '+' :: t => min (value t) (2 ^ 63 - 1)
  | t => min (value t) (2 ^ 63 - 1)

/-- `atoi` of the C library: `strtol` cut to a 32-bit `int`. -/
def atoi (s : Str) : ℤ := (strtol s).bmod (2 ^ 32)

/-- A number in decimal, as `%u` and `%d` print it. -/
def decimal (n : ℤ) : Str := (toString n).toList

/-- `extract_filename`: the file name a command starts with. -/
def extractFilename (command : Option Str) : Option Str :=
  match command with
  | none => none
  | some s =>
      if s.length = 0 then none else
        let stop := s.findIdx (· ∈ [' ', '\t', '\n'])
        -- the counter is taken back by one when the loop leaves at a blank
        let i : ℤ := if stop < s.length then (stop : ℤ) - 1 else s.length
        if i ≤ 0 then none else some (s.take (i.toNat + 1))

@[simp] theorem isEmpty_none : isEmpty none = true := rfl

@[simp] theorem isEmpty_some (s : Str) : isEmpty (some s) = s.isEmpty := rfl

@[simp] theorem xstrdup_none : xstrdup none = none := rfl

theorem xstrdup_some_of_ne_nil {s : Str} (hs : s ≠ []) : xstrdup (some s) = some s := by
  simp [xstrdup, hs]

/-- What `xstrdup` returns is never the empty string. -/
theorem ne_nil_of_xstrdup_eq_some {s : Option Str} {t : Str} (h : xstrdup s = some t) :
    t ≠ [] := by
  rintro rfl
  cases s with
  | none => simp at h
  | some s => cases s <;> simp [xstrdup] at h

/-- `xstrdup` keeps emptiness. -/
@[simp] theorem isEmpty_xstrdup (s : Option Str) : isEmpty (xstrdup s) = isEmpty s := by
  cases s with
  | none => rfl
  | some s => cases s <;> simp [xstrdup]

/-- A text without the unwanted characters passes `remove_chars` unchanged. -/
theorem removeChars_of_forall_notMem {s rem : Str} (hne : s ≠ []) (h : ∀ c ∈ s, c ∉ rem) :
    removeChars (some s) rem = some s := by
  have hfilter : s.filter (· ∉ rem) = s := by
    rw [List.filter_eq_self]
    intro c hc
    simpa using h c hc
  simp only [removeChars, hfilter]
  rw [if_neg (by simpa using hne)]

/-! ## Numbers in decimal -/

theorem decimal_natCast (n : ℕ) : decimal n = Nat.toDigits 10 n := by
  show (Nat.repr n).toList = _
  simp

theorem decimal_negSucc (n : ℕ) : decimal (Int.negSucc n) = '-' :: Nat.toDigits 10 (n + 1) := by
  show ("-" ++ Nat.repr (n + 1)).toList = _
  simp

/-- A number in decimal is made of digits, with a sign in front of a negative one. -/
theorem decimal_cases (n : ℤ) :
    ∃ k : ℕ, (n = k ∧ decimal n = Nat.toDigits 10 k) ∨
      (n = -(k : ℤ) ∧ decimal n = '-' :: Nat.toDigits 10 k) := by
  cases n with
  | ofNat k => exact ⟨k, Or.inl ⟨rfl, decimal_natCast k⟩⟩
  | negSucc k => exact ⟨k + 1, Or.inr ⟨Int.negSucc_eq k, decimal_negSucc k⟩⟩

theorem decimal_ne_nil (n : ℤ) : decimal n ≠ [] := by
  obtain ⟨k, ⟨-, h⟩ | ⟨-, h⟩⟩ := decimal_cases n
  · rw [h]
    exact Nat.toDigits_ne_nil
  · rw [h]
    exact List.cons_ne_nil _ _

theorem isDigit_of_mem_decimal {n : ℤ} {c : Char} (hc : c ∈ decimal n) :
    c = '-' ∨ c.isDigit = true := by
  obtain ⟨k, ⟨-, h⟩ | ⟨-, h⟩⟩ := decimal_cases n
  · rw [h] at hc
    exact Or.inr (Nat.isDigit_of_mem_toDigits (by decide) (by decide) hc)
  · rw [h, List.mem_cons] at hc
    exact hc.imp id (Nat.isDigit_of_mem_toDigits (by decide) (by decide))

theorem not_mem_decimal {n : ℤ} {c : Char} (hsign : c ≠ '-') (hdigit : c.isDigit = false) :
    c ∉ decimal n := by
  intro hc
  rcases isDigit_of_mem_decimal hc with h | h
  · exact hsign h
  · rw [hdigit] at h
    exact absurd h (by decide)

/-- The digits of a number, read back. -/
theorem digitsValue_toDigits (k : ℕ) :
    digitsValue ((Nat.toDigits 10 k).takeWhile Char.isDigit) = k := by
  have hdigits : (Nat.toDigits 10 k).takeWhile Char.isDigit = Nat.toDigits 10 k := by
    rw [List.takeWhile_eq_self_iff]
    exact fun c hc => Nat.isDigit_of_mem_toDigits (by decide) (by decide) hc
  rw [hdigits]
  exact Nat.ofDigitChars_ten_toDigits

/-- Digits are no blank and no sign. -/
theorem strtol_cons_digit {c : Char} (hc : c.isDigit = true) (s : Str) :
    strtol (c :: s) = min (digitsValue ((c :: s).takeWhile Char.isDigit) : ℤ) (2 ^ 63 - 1) := by
  have hblank : (c ∈ [' ', '\t', '\n', '\x0b', '\x0c', '\r']) = False := by
    refine eq_false fun h => ?_
    simp only [List.mem_cons, List.not_mem_nil, or_false] at h
    rcases h with rfl | rfl | rfl | rfl | rfl | rfl <;> exact absurd hc (by decide)
  unfold strtol
  rw [List.dropWhile_cons_of_neg (by simp [hblank])]
  dsimp only
  split
  · next h => exact absurd ((List.cons.inj h).1 ▸ hc) (by decide)
  · next h => exact absurd ((List.cons.inj h).1 ▸ hc) (by decide)
  · rfl

/-- **`strtol` reads back what `%ld` prints.** -/
theorem strtol_decimal {n : ℤ} (hn : |n| < 2 ^ 63) : strtol (decimal n) = n := by
  rw [abs_lt] at hn
  obtain ⟨k, ⟨rfl, h⟩ | ⟨rfl, h⟩⟩ := decimal_cases n
  · have hk := digitsValue_toDigits k
    cases hdigits : Nat.toDigits 10 k with
    | nil => exact absurd hdigits Nat.toDigits_ne_nil
    | cons c cs =>
        have hc : c.isDigit = true :=
          Nat.isDigit_of_mem_toDigits (b := 10) (n := k) (by decide) (by decide)
            (hdigits ▸ List.mem_cons_self)
        rw [h, hdigits, strtol_cons_digit hc, ← hdigits, hk]
        omega
  · have hk := digitsValue_toDigits k
    have hvalue : strtol ('-' :: Nat.toDigits 10 k)
        = max (-(digitsValue ((Nat.toDigits 10 k).takeWhile Char.isDigit) : ℤ)) (-2 ^ 63) := rfl
    rw [h, hvalue, hk]
    omega

/-- `atoi` reads back an `int` that `%d` prints. -/
theorem atoi_decimal {n : ℤ} (hlow : -2 ^ 31 ≤ n) (hhigh : n < 2 ^ 31) : atoi (decimal n) = n := by
  have habs : |n| < 2 ^ 63 := by
    rw [abs_lt]
    omega
  rw [atoi, strtol_decimal habs, Int.bmod_eq_of_le] <;> omega

/-- What `atoi` returns is an `int`. -/
theorem atoi_bounds (s : Str) : -2 ^ 31 ≤ atoi s ∧ atoi s < 2 ^ 31 := by
  have hlow := @Int.le_bmod (strtol s) (2 ^ 32) (by decide)
  have hhigh := @Int.bmod_lt (strtol s) (2 ^ 32) (by decide)
  unfold atoi
  omega

/-! ## Quoting -/

/-- `quote`: between double quotes, with a backslash before every double quote. -/
def quote (string : Str) : Str :=
  '"' :: (string.flatMap fun c => if c = '"' then ['\\', c] else [c]) ++ ['"']

/-- The loop of `remove_quotes` from index `i` on: a double quote is kept unless
it stands first or last in a string of length `len`. -/
def removeQuotesLoop (len : ℕ) : ℕ → Str → Str
  | _, [] => []
  | i, c :: s =>
      if c ≠ '"' ∨ (i ≠ 0 ∧ i ≠ len - 1) then c :: removeQuotesLoop len (i + 1) s
      else removeQuotesLoop len (i + 1) s

/-- `remove_quotes`: `string` without a leading and a trailing double quote. -/
def removeQuotes (string : Str) : Str := removeQuotesLoop string.length 0 string

/-- The loop of `backslash_quote`; `first` says that the character is the first
of the string. -/
def backslashQuoteLoop : Bool → Str → Str
  | _, [] => []
  | first, c :: s =>
      if c ∈ ['\'', '"', '\\', '$', '`'] then '\\' :: c :: backslashQuoteLoop false s
      else if c = '#' ∧ first then '\\' :: c :: backslashQuoteLoop false s
      else c :: backslashQuoteLoop false s

/-- `backslash_quote`: a backslash before quotes, backslashes, `$`, backquotes and
a leading `#`. -/
def backslashQuote (string : Str) : Str := backslashQuoteLoop true string

/-- What `post_parse` stores as the quoted value of `value`. -/
def quotedValue (value : Str) : Str := quote (backslashQuote (removeQuotes value))

example : quotedValue ['"', 'a', '$', '"'] = ['"', 'a', '\\', '$', '"'] := by decide

/-! ## What the three quoting loops make of a value -/

/-- No double quote stands between the first and the last character. -/
def NoInnerQuote (value : Str) : Prop := '"' ∉ value.tail.dropLast

instance (value : Str) : Decidable (NoInnerQuote value) :=
  inferInstanceAs (Decidable ('"' ∉ value.tail.dropLast))

/-- From index `i ≥ 1` on, `remove_quotes` drops at most the last character. -/
theorem quote_mem_removeQuotesLoop (s : Str) :
    ∀ i, 0 < i → ('"' ∈ removeQuotesLoop (i + s.length) i s ↔ '"' ∈ s.dropLast) := by
  induction s with
  | nil => intro i _; simp [removeQuotesLoop]
  | cons c s ih =>
      intro i hi
      have hrest := ih (i + 1) (Nat.succ_pos i)
      rw [show i + 1 + s.length = i + (c :: s).length by simp; omega] at hrest
      rw [removeQuotesLoop]
      cases s with
      | nil =>
          by_cases hc : c = '"'
          · rw [if_neg (by simp [hc])]
            simpa using hrest
          · rw [if_pos (Or.inl hc)]
            simp [removeQuotesLoop, Ne.symm hc]
      | cons d s =>
          have hlast : i ≠ i + (c :: d :: s).length - 1 := by simp
          rw [if_pos (Or.inr ⟨by omega, hlast⟩), List.mem_cons, hrest, List.dropLast_cons_cons,
            List.mem_cons]

/-- A double quote survives `remove_quotes` exactly when it is an inner one. -/
theorem quote_mem_removeQuotes (value : Str) :
    '"' ∈ removeQuotes value ↔ ¬ NoInnerQuote value := by
  unfold NoInnerQuote removeQuotes
  rw [not_not]
  cases value with
  | nil => simp [removeQuotesLoop]
  | cons c s =>
      have h := quote_mem_removeQuotesLoop s 1 Nat.one_pos
      rw [Nat.add_comm] at h
      rw [removeQuotesLoop, List.tail_cons]
      by_cases hc : c = '"'
      · rw [if_neg (by simp [hc])]
        simpa using h
      · rw [if_pos (Or.inl hc), List.mem_cons]
        simpa [Ne.symm hc] using h

/-- The text that ends up between the double quotes. -/
def escapedBody (first : Bool) (s : Str) : Str :=
  (backslashQuoteLoop first s).flatMap fun c => if c = '"' then ['\\', c] else [c]

/-- The quoted value is its escaped body between double quotes. -/
theorem quotedValue_eq (value : Str) :
    quotedValue value = '"' :: (escapedBody true (removeQuotes value) ++ ['"']) := rfl

/-- One character of the escaped body.  A double quote is escaped twice over:
`backslash_quote` puts a backslash before it, and `quote` a second one. -/
theorem escapedBody_cons (first : Bool) (c : Char) (s : Str) :
    escapedBody first (c :: s)
      = (if c = '"' then ['\\', '\\', '"']
          else if c ∈ ['\'', '\\', '$', '`'] ∨ (c = '#' ∧ first) then ['\\', c]
          else [c]) ++ escapedBody false s := by
  unfold escapedBody
  rw [backslashQuoteLoop]
  by_cases hq : c = '"'
  · subst hq
    simp
  · by_cases hesc : c ∈ ['\'', '\\', '$', '`']
    · have hmem : c ∈ ['\'', '"', '\\', '$', '`'] := by simp at hesc ⊢; tauto
      rw [if_pos hmem]
      simp [hq, hesc]
    · have hmem : c ∉ ['\'', '"', '\\', '$', '`'] := by simp at hesc ⊢; tauto
      rw [if_neg hmem]
      by_cases hhash : c = '#' ∧ first
      · simp [hhash]
      · simp [hq, hesc, hhash]

/-- **The escaped body stays inside its double quotes exactly when it has no
double quote of its own**: the two backslashes before a double quote escape each
other and leave it bare. -/
theorem isQuotedBody_escapedBody (s : Str) :
    ∀ first, isQuotedBody (escapedBody first s) = true ↔ '"' ∉ s := by
  induction s with
  | nil => intro first; simp [escapedBody, backslashQuoteLoop, isQuotedBody]
  | cons c s ih =>
      intro first
      rw [escapedBody_cons]
      by_cases hq : c = '"'
      · subst hq
        simp [isQuotedBody]
      · rw [if_neg hq]
        have htail : ∀ t, isQuotedBody (t ++ escapedBody false s)
            = isQuotedBody (escapedBody false s) →
            (isQuotedBody (t ++ escapedBody false s) = true ↔ '"' ∉ c :: s) := by
          intro t ht
          rw [ht, ih false]
          simp [Ne.symm hq]
        by_cases hesc : c ∈ ['\'', '\\', '$', '`'] ∨ (c = '#' ∧ first)
        · rw [if_pos hesc]
          exact htail _ (isQuotedBody_escape c _)
        · rw [if_neg hesc]
          apply htail
          simp only [List.mem_cons, List.not_mem_nil, or_false, not_or] at hesc
          rw [List.singleton_append, isQuotedBody_cons hesc.1.2.1]
          simp [hq, hesc]

/-- A quoted value is one double-quoted string exactly when the value has no
inner double quote. -/
theorem doubleQuoted_quotedValue (value : Str) :
    DoubleQuoted (quotedValue value) ↔ NoInnerQuote value := by
  rw [← not_iff_not, ← quote_mem_removeQuotes, ← not_iff_not, not_not,
    ← isQuotedBody_escapedBody _ true, quotedValue_eq]
  constructor
  · rintro ⟨body, hbody, hb⟩
    have heq := List.append_cancel_right (List.cons.inj hbody).2
    rwa [heq]
  · intro h
    exact ⟨_, rfl, h⟩

end Trapd
