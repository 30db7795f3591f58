/-
# Reading the dumps of running workers (`diagnostics2.c`)

`split_key_value` takes for granted that a line has a key and a value: it asks for the
length of its last word, and ends the key in front of it.  A dump that a worker is still
writing may stop anywhere.

**Main results:** `dump_safe_iff`: a buffer is read without a bad access exactly when each
of its lines has two words.  `cut_dump_safe_iff`: a dump that is cut off is read so exactly
when the cut line is empty or has reached its second word.
-/
import NagiosTrapd.Diagnostics

namespace Trapd

open Words

/-! ## The accesses of `split_key_value` -/

/-- An access that can go wrong. -/
inductive SplitAccess
  /-- The length of a token is taken. -/
  | strlen (token : Option Str)
  /-- A byte of `keybuf`, for which `size` bytes are allocated, is written. -/
  | store (index : ℤ) (size : ℕ)
  deriving DecidableEq, Repr

/-- The token is not NULL, the byte is one of the buffer. -/
def SplitAccess.Safe : SplitAccess → Prop
  | strlen token => token ≠ none
  | store index size => 0 ≤ index ∧ index < size

/-- The accesses of `split_key_value`: the tokens, the last one again, the end of the key,
and the copy of the value.  The index `keylen - 1` wraps around to the byte before
`keybuf`. -/
def splitAccesses (buffer : Str) : List SplitAccess :=
  let tokens := words ' ' buffer
  let prev_token := tokens.getLast?
  let keylen :=
    (tokens.map fun token => token.length + 1).sum - ((prev_token.getD []).length + 1)
  tokens.map (fun token => .strlen (some token))
    ++ [.strlen prev_token, .store ((keylen : ℤ) - 1) (buffer.length + 1), .strlen prev_token]

/-- The accesses of `parse_diagnostics`, line by line. -/
def parseAccesses (buffer : Str) : List SplitAccess := (words '\n' buffer).flatMap splitAccesses

/-- A buffer is read without a bad access. -/
def DumpSafe (buffer : Str) : Prop := ∀ access ∈ parseAccesses buffer, access.Safe

/-! ## One line -/

/-- The length of the key and the blank behind it. -/
theorem keylen_concat (front : List Str) (last : Str) :
    ((front ++ [last]).map fun token => token.length + 1).sum - (last.length + 1)
      = (front.map fun token => token.length + 1).sum := by
  rw [List.map_append, List.sum_append, List.map_singleton, List.sum_singleton, Nat.add_sub_cancel]

/-- It is 0 exactly when no word stands in front of the last. -/
theorem keylen_pos_iff (front : List Str) :
    0 < (front.map fun token => token.length + 1).sum ↔ front ≠ [] := by
  cases front with
  | nil => simp
  | cons token front =>
      rw [List.map_cons, List.sum_cons]
      simp only [ne_eq, reduceCtorEq, not_false_eq_true, iff_true]
      omega

/-- The accesses of a line with words. -/
theorem splitAccesses_concat {line last : Str} {front : List Str}
    (h : words ' ' line = front ++ [last]) :
    splitAccesses line = ((front ++ [last]).map fun token => .strlen (some token))
      ++ [.strlen (some last),
        .store (((front.map fun token => token.length + 1).sum : ℕ) - 1) (line.length + 1),
        .strlen (some last)] := by
  unfold splitAccesses
  simp only [h, List.getLast?_concat, Option.getD_some, keylen_concat]

/-- **One line is safe** exactly when it has two words. -/
theorem split_safe_iff (line : Str) :
    (∀ access ∈ splitAccesses line, access.Safe) ↔ 2 ≤ (words ' ' line).length := by
  rcases hwords : (words ' ' line).eq_nil_or_concat' with hnil | ⟨front, last, hconcat⟩
  · -- blanks only: there is no last token
    simp [splitAccesses, hnil, SplitAccess.Safe]
  · have hfits := sum_words_le ' ' line
    have hpos := keylen_pos_iff front
    rw [hconcat, List.map_append, List.sum_append] at hfits
    have hlength : 2 ≤ (front ++ [last]).length ↔ front ≠ [] := by
      rw [List.length_append, List.length_singleton, ← List.length_pos_iff]
      omega
    have hstore : SplitAccess.Safe (.store
        (((front.map fun token => token.length + 1).sum : ℕ) - 1) (line.length + 1))
          ↔ 0 < (front.map fun token => token.length + 1).sum := by
      show 0 ≤ _ ∧ _ < _ ↔ _
      omega
    have hstrlen : ∀ token, SplitAccess.Safe (.strlen (some token)) := fun token => by
      simp [SplitAccess.Safe]
    rw [splitAccesses_concat hconcat, hconcat, hlength, ← hpos, ← hstore]
    simp only [List.forall_mem_append, List.forall_mem_map, List.forall_mem_cons, hstrlen,
      List.not_mem_nil, implies_true, true_and, and_true, false_implies]

/-- Where there is a bad access `split_key_value` is undefined, and elsewhere it is not. -/
theorem splitKeyValue_isOk_iff (line : Str) :
    (splitKeyValue line).isOk = true ↔ ∀ access ∈ splitAccesses line, access.Safe := by
  rw [split_safe_iff]
  unfold splitKeyValue
  generalize words ' ' line = tokens
  rcases tokens.eq_nil_or_concat' with rfl | ⟨front, last, rfl⟩
  · simp [Except.isOk, Except.toBool]
  · have hpos := keylen_pos_iff front
    rw [Nat.pos_iff_ne_zero] at hpos
    simp only [List.getLast?_concat, keylen_concat]
    cases front with
    | nil => simp [Except.isOk, Except.toBool]
    | cons token front =>
        rw [if_neg (hpos.mpr (List.cons_ne_nil token front))]
        simp [Except.isOk, Except.toBool]

/-! ## A buffer -/

/-- **When a buffer is read safely**: each of its lines has at least two words. -/
theorem dump_safe_iff (buffer : Str) :
    DumpSafe buffer ↔ ∀ line ∈ words '\n' buffer, 2 ≤ (words ' ' line).length := by
  unfold DumpSafe parseAccesses
  rw [List.forall_mem_flatMap]
  simp only [split_safe_iff]

/-- Lines behind each other are read safely when each is. -/
theorem dumpSafe_append (line rest : Str) :
    DumpSafe (line ++ '\n' :: rest) ↔ DumpSafe line ∧ DumpSafe rest := by
  unfold DumpSafe parseAccesses
  rw [words_append_sep, List.flatMap_append, List.forall_mem_append]

/-- A text without a line end is at most one line. -/
theorem dumpSafe_of_not_mem {line : Str} (h : '\n' ∉ line) :
    DumpSafe line ↔ line = [] ∨ 2 ≤ (words ' ' line).length := by
  unfold DumpSafe parseAccesses
  by_cases hnil : line = []
  · simp [hnil, words]
  · rw [words_of_isWord ⟨hnil, h⟩, List.flatMap_singleton, split_safe_iff]
    simp [hnil]

/-- **A dump that is cut off** behind some of its lines and `cut`, the beginning of the next:
it is read safely exactly when `cut` is empty or has reached its second word. -/
theorem cut_dump_safe_iff {padding : ℕ} {rows : List (Str × Str)}
    (hrows : ∀ row ∈ rows, IsDiagnosticsKey row.1 ∧ IsDiagnosticsValue row.2 ∧
      row.1.length < padding) {cut : Str} (hcut : '\n' ∉ cut) :
    DumpSafe ((rows.flatMap fun row => dumpLine padding row.1 row.2 ++ ['\n']) ++ cut)
      ↔ cut = [] ∨ 2 ≤ (words ' ' cut).length := by
  induction rows with
  | nil => exact dumpSafe_of_not_mem hcut
  | cons row rows ih =>
      obtain ⟨hkey, hvalue, hlt⟩ := hrows row List.mem_cons_self
      have hrest := ih fun r hr => hrows r (List.mem_cons_of_mem row hr)
      have hline : '\n' ∉ dumpLine padding row.1 row.2 := by
        simp [dumpLine, hkey.newline_not_mem, hvalue.2]
      have hsafe : DumpSafe (dumpLine padding row.1 row.2) := by
        rw [dumpSafe_of_not_mem hline, ← split_safe_iff, ← splitKeyValue_isOk_iff,
          splitKeyValue_dumpLine hkey hvalue hlt]
        exact Or.inr rfl
      rw [List.flatMap_cons, List.append_assoc, List.append_assoc, List.singleton_append,
        dumpSafe_append, hrest]
      exact and_iff_right hsafe

/-- A dump whose worker has written a key and the blanks behind it. -/
theorem not_dump_safe : ¬ ∀ buffer : Str, DumpSafe buffer := by
  intro h
  have hstore := h "Pid    ".toList (.store (-1) 8) (by decide)
  exact absurd hstore.1 (by decide)

end Trapd
