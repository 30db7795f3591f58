/-
# What a plugin gets of a value

`post_parse` takes the outer double quotes from a value, puts a backslash before special
characters and quotes the result; a shell undoes the last two steps.  It does not undo all
of the second one: `backslash_quote` is made for text outside quotes.

* `passed_on_iff`: the text that arrives is the value without its outer double quotes
  exactly when there is no inner double quote, no apostrophe and no leading `#`.
-/
import NagiosTrapd.Util

namespace Trapd

open ShellWords

/-! ## Quoting and reading -/

/-- The text that arrives: a backslash is left before an apostrophe and a leading `#`. -/
def arrivingText : Bool → Str → Str
  | _, [] => []
  | first, c :: s =>
      (if c = '\'' ∨ (c = '#' ∧ first) then ['\\', c] else [c]) ++ arrivingText false s

/-- Without double quote the escaped body is read to its end. -/
theorem unquoteFrom_escapedBody {s : Str} (hs : '"' ∉ s) :
    ∀ first, unquoteFrom false (escapedBody first s ++ ['"']) = some (arrivingText first s) := by
  induction s with
  | nil => exact fun _ => rfl
  | cons c s ih =>
      intro first
      have hq : c ≠ '"' := fun h => hs (h ▸ List.mem_cons_self)
      have hrest := ih (fun h => hs (List.mem_cons_of_mem c h)) false
      rw [escapedBody_cons, if_neg hq, List.append_assoc]
      by_cases hesc : c ∈ ['\'', '\\', '$', '`'] ∨ (c = '#' ∧ first)
      · rw [if_pos hesc, List.cons_append, List.singleton_append, unquoteFrom_escape, hrest,
          Option.map_some, arrivingText]
        congr 1
        rcases hesc with hesc | ⟨rfl, hfirst⟩
        · simp only [List.mem_cons, List.not_mem_nil, or_false] at hesc
          rcases hesc with rfl | rfl | rfl | rfl <;> simp [isEscapable]
        · simp [isEscapable, hfirst]
      · rw [if_neg hesc, List.singleton_append]
        simp only [List.mem_cons, List.not_mem_nil, or_false, not_or] at hesc
        obtain ⟨⟨ha, hb, hd, hbq⟩, hhash⟩ := hesc
        rw [unquoteFrom_cons hq hb hd hbq, hrest, Option.map_some, arrivingText,
          if_neg (by tauto), List.singleton_append]

/-- Nothing is lost on the way. -/
theorem length_le_arrivingText (first : Bool) (s : Str) :
    s.length ≤ (arrivingText first s).length := by
  induction s generalizing first with
  | nil => exact Nat.zero_le _
  | cons c s ih =>
      have hrest := ih false
      rw [arrivingText, List.length_append, List.length_cons]
      split_ifs <;> simp <;> omega

/-- One character of a text that arrives as it is. -/
theorem arrivingText_cons_eq_iff (first : Bool) (c : Char) (s : Str) :
    arrivingText first (c :: s) = c :: s
      ↔ ¬ (c = '\'' ∨ (c = '#' ∧ first)) ∧ arrivingText false s = s := by
  rw [arrivingText]
  by_cases hc : c = '\'' ∨ (c = '#' ∧ first)
  · have hlen := length_le_arrivingText false s
    rw [if_pos hc]
    refine iff_of_false (fun h => ?_) (fun h => h.1 hc)
    have hlength := congrArg List.length h
    simp only [List.length_append, List.length_cons, List.length_nil] at hlength
    omega
  · rw [if_neg hc, List.singleton_append, List.cons.injEq]
    simp [hc]

/-- Behind the first character only an apostrophe matters. -/
theorem arrivingText_false_eq_iff (s : Str) : arrivingText false s = s ↔ '\'' ∉ s := by
  induction s with
  | nil => exact iff_of_true rfl List.not_mem_nil
  | cons c s ih =>
      rw [arrivingText_cons_eq_iff, ih, List.mem_cons]
      simp only [Bool.false_eq_true, and_false, or_false, not_or]
      exact and_congr_left fun _ => ne_comm

/-- At the beginning `#` does, too. -/
theorem arrivingText_true_eq_iff (s : Str) :
    arrivingText true s = s ↔ '\'' ∉ s ∧ s.head? ≠ some '#' := by
  cases s with
  | nil => exact iff_of_true rfl ⟨List.not_mem_nil, by simp⟩
  | cons c s =>
      rw [arrivingText_cons_eq_iff, arrivingText_false_eq_iff, List.mem_cons, List.head?_cons]
      simp only [and_true, not_or, ne_eq, Option.some.injEq, @eq_comm _ '\'' c]
      tauto

/-- A quoted value is read exactly when the value has no inner double quote. -/
theorem unquote_quotedValue (value : Str) :
    unquote (quotedValue value)
      = if NoInnerQuote value then some (arrivingText true (removeQuotes value)) else none := by
  rw [quotedValue_eq, unquote, if_pos rfl]
  split_ifs with hquote
  · have hmem : '"' ∉ removeQuotes value :=
      mt (quote_mem_removeQuotes value).mp (not_not.mpr hquote)
    exact unquoteFrom_escapedBody hmem true
  · have hmem : '"' ∈ removeQuotes value := (quote_mem_removeQuotes value).mpr hquote
    cases h : unquoteFrom false (escapedBody true (removeQuotes value) ++ ['"']) with
    | none => rfl
    | some u =>
        have hbody := (isQuotedBody_escapedBody (removeQuotes value) true).mp
          (isQuotedBody_of_unquoteFrom h)
        exact absurd hmem hbody

/-! ## The value itself -/

theorem mem_removeQuotesLoop {c : Char} (hc : c ≠ '"') (len : ℕ) (s : Str) :
    ∀ i, c ∈ removeQuotesLoop len i s ↔ c ∈ s := by
  induction s with
  | nil => exact fun _ => Iff.rfl
  | cons d s ih =>
      intro i
      rw [removeQuotesLoop]
      split_ifs with hd
      · rw [List.mem_cons, List.mem_cons, ih]
      · have hquote : d = '"' := by tauto
        rw [ih, List.mem_cons, hquote]
        exact (or_iff_right hc).symm

/-- Double quotes apart, a value keeps its characters. -/
theorem mem_removeQuotes {c : Char} (hc : c ≠ '"') (value : Str) :
    c ∈ removeQuotes value ↔ c ∈ value := mem_removeQuotesLoop hc _ value 0

/-- The text begins with `#` when the value does, with or without a double quote in front. -/
theorem head_removeQuotes (value : Str) :
    (removeQuotes value).head? = some '#' ↔ ['#'] <+: value ∨ ['"', '#'] <+: value := by
  cases value with
  | nil => simp [removeQuotes, removeQuotesLoop]
  | cons c s =>
      rw [removeQuotes, removeQuotesLoop, List.cons_prefix_cons, List.cons_prefix_cons]
      by_cases hc : c = '"'
      · subst hc
        rw [if_neg (by simp)]
        cases s with
        | nil => simp [removeQuotesLoop]
        | cons d s =>
            rw [removeQuotesLoop, List.cons_prefix_cons]
            split_ifs with hd
            · simp [eq_comm]
            · -- the second double quote is the last character
              have hlast : d = '"' ∧ s = [] := by simpa using hd
              obtain ⟨rfl, rfl⟩ := hlast
              simp [removeQuotesLoop]
      · rw [if_pos (Or.inl hc)]
        simp [Ne.symm hc, eq_comm]

/-- **The text of a value arrives at the plugin** exactly when the value has no inner double
quote, no apostrophe and, behind an outer double quote, no leading `#`. -/
theorem passed_on_iff (value : Str) :
    unquote (quotedValue value) = some (removeQuotes value)
      ↔ NoInnerQuote value ∧ '\'' ∉ value ∧ ¬ ['#'] <+: value ∧ ¬ ['"', '#'] <+: value := by
  rw [unquote_quotedValue, ← not_or, ← head_removeQuotes, ← mem_removeQuotes (by decide) value]
  split_ifs with hquote
  · rw [Option.some.injEq, arrivingText_true_eq_iff]
    simp [hquote]
  · simp [hquote]

/-- A value with an apostrophe gets a backslash. -/
theorem not_passed_on :
    ¬ ∀ value : Str, '\r' ∉ value → '\n' ∉ value → '\x00' ∉ value → NoInnerQuote value →
      unquote (quotedValue value) = some (removeQuotes value) := by
  intro h
  exact absurd (h "it's".toList (by decide) (by decide) (by decide) (by decide)) (by decide)

end Trapd
