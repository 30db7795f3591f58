/-
# Texts with delimited names

A small library about lists over an arbitrary alphabet.  A delimiter cuts a text
into pieces; from left to right the delimiters are taken two by two, and what
stands between the two of a pair is a name.  `fill` replaces each name that has a
value by the value, with its delimiters, and keeps the rest: a name without value
and a last delimiter without partner stay as they are.

`pairs_induction` is the induction rule for such texts.  `fill_append` says that a
text whose delimiters are all paired is filled independently of what follows it,
and `fill_fill` when two fillings one after the other are one.
-/
import NagiosTrapd.Words
import Mathlib.Algebra.Ring.Parity

namespace Template

open Words

variable {α : Type*}

/-- A name between its delimiters. -/
def delimited (sep : α) (m : List α) : List α := sep :: (m ++ [sep])

theorem delimited_injective (sep : α) : Function.Injective (delimited sep) := by
  intro m n h
  exact List.append_cancel_right (List.cons.inj h).2

/-- Fill the names among the pieces of a text: every second one, when a piece follows. -/
def fillPieces (sep : α) (value : List α → Option (List α)) : List (List α) → List α
  | [] => []
  | [p] => p
  | [p, q] => p ++ sep :: q
  | p :: m :: r :: ps =>
      p ++ ((value m).getD (delimited sep m) ++ fillPieces sep value (r :: ps))

/-- The names among the pieces of a text. -/
def pieceNames : List (List α) → List (List α)
  | [] => []
  | [_] => []
  | [_, _] => []
  | _ :: m :: r :: ps => m :: pieceNames (r :: ps)

variable [DecidableEq α]

/-- Replace the names of a text that have a value. -/
def fill (sep : α) (value : List α → Option (List α)) (s : List α) : List α :=
  fillPieces sep value (pieces sep s)

/-- The names of a text, in order. -/
def names (sep : α) (s : List α) : List (List α) := pieceNames (pieces sep s)

/-! ## Reading a text pair by pair -/

/-- What is shown of a text without delimiter, of a text with one, and of a text
behind a pair whenever it is shown of that text, is shown of every text. -/
theorem pairs_induction {motive : List α → Prop} (sep : α)
    (plain : ∀ p, sep ∉ p → motive p)
    (unpaired : ∀ p q, sep ∉ p → sep ∉ q → motive (p ++ sep :: q))
    (pair : ∀ p m s, sep ∉ p → sep ∉ m → motive s → motive (p ++ sep :: (m ++ sep :: s)))
    (s : List α) : motive s := by
  by_cases hmem : sep ∈ s
  · obtain ⟨p, rest, rfl, hp⟩ := List.eq_append_cons_of_mem hmem
    by_cases hrest : sep ∈ rest
    · obtain ⟨m, s, rfl, hm⟩ := List.eq_append_cons_of_mem hrest
      exact pair p m s hp hm (pairs_induction sep plain unpaired pair s)
    · exact unpaired p rest hp hrest
  · exact plain s hmem
termination_by s.length
decreasing_by subst_vars; simp; omega

section

variable {sep : α} (value : List α → Option (List α))

/-- A text without delimiter is not changed. -/
theorem fill_plain {p : List α} (hp : sep ∉ p) : fill sep value p = p := by
  rw [fill, pieces_last hp, fillPieces]

/-- Neither is one with a single delimiter. -/
theorem fill_unpaired {p q : List α} (hp : sep ∉ p) (hq : sep ∉ q) :
    fill sep value (p ++ sep :: q) = p ++ sep :: q := by
  rw [fill, pieces_append_cons hp, pieces_last hq, fillPieces]

/-- The first pair of a text is filled, and what follows it on its own. -/
theorem fill_pair {p m : List α} (hp : sep ∉ p) (hm : sep ∉ m) (s : List α) :
    fill sep value (p ++ sep :: (m ++ sep :: s))
      = p ++ ((value m).getD (delimited sep m) ++ fill sep value s) := by
  obtain ⟨r, ps, hps⟩ := List.exists_cons_of_ne_nil (pieces_ne_nil sep s)
  rw [fill, pieces_append_cons hp, pieces_append_cons hm, hps, fillPieces, fill, hps]

/-- The same with nothing in front of the pair. -/
theorem fill_delimited_append {m : List α} (hm : sep ∉ m) (s : List α) :
    fill sep value (delimited sep m ++ s)
      = (value m).getD (delimited sep m) ++ fill sep value s := by
  have h := fill_pair value (List.not_mem_nil (a := sep)) hm s
  simpa [delimited] using h

end

theorem names_plain {sep : α} {p : List α} (hp : sep ∉ p) : names sep p = [] := by
  rw [names, pieces_last hp, pieceNames]

theorem names_unpaired {sep : α} {p q : List α} (hp : sep ∉ p) (hq : sep ∉ q) :
    names sep (p ++ sep :: q) = [] := by
  rw [names, pieces_append_cons hp, pieces_last hq, pieceNames]

theorem names_pair {sep : α} {p m : List α} (hp : sep ∉ p) (hm : sep ∉ m) (s : List α) :
    names sep (p ++ sep :: (m ++ sep :: s)) = m :: names sep s := by
  obtain ⟨r, ps, hps⟩ := List.exists_cons_of_ne_nil (pieces_ne_nil sep s)
  rw [names, pieces_append_cons hp, pieces_append_cons hm, hps, pieceNames, names, hps]

/-! ## Filling -/

/-- **Where no name has a value the text is not changed.** -/
theorem fill_of_forall_none {sep : α} {value : List α → Option (List α)} {s : List α}
    (h : ∀ m ∈ names sep s, value m = none) : fill sep value s = s := by
  induction s using pairs_induction sep with
  | plain p hp => exact fill_plain _ hp
  | unpaired p q hp hq => exact fill_unpaired _ hp hq
  | pair p m s hp hm ih =>
      rw [names_pair hp hm] at h
      rw [fill_pair _ hp hm, h m List.mem_cons_self,
        ih fun n hn => h n (List.mem_cons_of_mem m hn)]
      simp [delimited]

/-- A text without delimiter in front of another one. -/
theorem fill_plain_append {sep : α} (value : List α → Option (List α)) {g : List α}
    (hg : sep ∉ g) (t : List α) : fill sep value (g ++ t) = g ++ fill sep value t := by
  have hmem : ∀ {p : List α}, sep ∉ p → sep ∉ g ++ p := by
    intro p hp
    simp [hg, hp]
  cases t using pairs_induction sep with
  | plain p hp => rw [fill_plain _ hp, fill_plain _ (hmem hp)]
  | unpaired p q hp hq =>
      rw [fill_unpaired _ hp hq, ← List.append_assoc, fill_unpaired _ (hmem hp) hq,
        List.append_assoc]
  | pair p m s hp hm =>
      rw [fill_pair _ hp hm, ← List.append_assoc, fill_pair _ (hmem hp) hm, List.append_assoc]

theorem count_pair {sep : α} {p m : List α} (hp : sep ∉ p) (hm : sep ∉ m) (s : List α) :
    (p ++ sep :: (m ++ sep :: s)).count sep = s.count sep + 2 := by
  simp only [List.count_append, List.count_cons_self, List.count_eq_zero_of_not_mem hp,
    List.count_eq_zero_of_not_mem hm]
  omega

theorem count_unpaired {sep : α} {p q : List α} (hp : sep ∉ p) (hq : sep ∉ q) :
    (p ++ sep :: q).count sep = 1 := by
  simp only [List.count_append, List.count_cons_self, List.count_eq_zero_of_not_mem hp,
    List.count_eq_zero_of_not_mem hq]

/-- **A text whose delimiters are all paired is filled on its own**, whatever follows it. -/
theorem fill_append {sep : α} (value : List α → Option (List α)) {s : List α}
    (hs : Even (s.count sep)) (t : List α) :
    fill sep value (s ++ t) = fill sep value s ++ fill sep value t := by
  induction s using pairs_induction sep with
  | plain p hp => rw [fill_plain_append _ hp, fill_plain _ hp]
  | unpaired p q hp hq =>
      rw [count_unpaired hp hq] at hs
      exact absurd hs (by decide)
  | pair p m s hp hm ih =>
      rw [count_pair hp hm, Nat.even_add] at hs
      have hrest := ih (hs.mpr even_two)
      rw [show (p ++ sep :: (m ++ sep :: s)) ++ t = p ++ sep :: (m ++ sep :: (s ++ t)) by simp,
        fill_pair _ hp hm, fill_pair _ hp hm, hrest, List.append_assoc, List.append_assoc]

/-- An odd number of delimiters leaves the last one without partner. -/
theorem exists_unpaired {sep : α} {s : List α} (hs : ¬ Even (s.count sep)) :
    ∃ e q, s = e ++ sep :: q ∧ Even (e.count sep) ∧ sep ∉ q := by
  induction s using pairs_induction sep with
  | plain p hp =>
      rw [List.count_eq_zero_of_not_mem hp] at hs
      exact absurd (by decide) hs
  | unpaired p q hp hq =>
      exact ⟨p, q, rfl, by simp [List.count_eq_zero_of_not_mem hp], hq⟩
  | pair p m s hp hm ih =>
      rw [count_pair hp hm, Nat.even_add] at hs
      obtain ⟨e, q, rfl, he, hq⟩ := ih fun h => hs (iff_of_true h even_two)
      refine ⟨p ++ sep :: (m ++ sep :: e), q, by simp, ?_, hq⟩
      rw [count_pair hp hm]
      exact he.add even_two

/-! ## Filling twice -/

/-- A text that a filling does not change and whose delimiters are all paired. -/
def Inert (sep : α) (value : List α → Option (List α)) (s : List α) : Prop :=
  Even (s.count sep) ∧ fill sep value s = s

instance (sep : α) (value : List α → Option (List α)) (s : List α) :
    Decidable (Inert sep value s) :=
  inferInstanceAs (Decidable (_ ∧ _))

/-- A text without delimiter is inert. -/
theorem inert_plain {sep : α} (value : List α → Option (List α)) {p : List α} (hp : sep ∉ p) :
    Inert sep value p :=
  ⟨by simp [List.count_eq_zero_of_not_mem hp], fill_plain value hp⟩

/-- An inert text is copied. -/
theorem Inert.fill_append {sep : α} {value : List α → Option (List α)} {s : List α}
    (hs : Inert sep value s) (t : List α) : fill sep value (s ++ t) = s ++ fill sep value t := by
  rw [Template.fill_append value hs.1, hs.2]

/-- **Two fillings are one** when the second leaves alone what the first put in. -/
theorem fill_fill {sep : α} {first second : List α → Option (List α)} {s : List α}
    (h : ∀ m ∈ names sep s, ∀ v, first m = some v → Inert sep second v) :
    fill sep second (fill sep first s) = fill sep (fun m => (first m).or (second m)) s := by
  induction s using pairs_induction sep with
  | plain p hp => rw [fill_plain first hp, fill_plain second hp, fill_plain _ hp]
  | unpaired p q hp hq =>
      rw [fill_unpaired first hp hq, fill_unpaired second hp hq, fill_unpaired _ hp hq]
  | pair p m s hp hm ih =>
      rw [names_pair hp hm] at h
      have hrest := ih fun n hn => h n (List.mem_cons_of_mem m hn)
      rw [fill_pair first hp hm, fill_pair _ hp hm, fill_plain_append second hp]
      cases hv : first m with
      | some v =>
          have hinert : Inert sep second v := h m List.mem_cons_self v hv
          rw [Option.getD_some, hinert.fill_append, hrest, Option.some_or, Option.getD_some]
      | none =>
          -- the first filling leaves the pair behind, the second one finds it again
          rw [Option.getD_none, Option.none_or, fill_delimited_append second hm, hrest]

end Template
