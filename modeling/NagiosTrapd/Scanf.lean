/-
# Formats of `scanf`

A format is a list of directives: blanks match any number of blanks, a symbol matches itself, and
a field, `%[...]`, matches as many symbols of a set as there are, but at least one.  `scan` is the
list of the fields that are assigned before a directive fails; its length is what `sscanf` returns.

The rules are one for each directive: `scan_field`, `scan_exactly` and `scan_blanks` for a text
that matches it, and `scan_field_nil` and `scan_exactly_ne` for one that does not.
-/
import Mathlib.Data.List.Infix

namespace Scanf

variable {α : Type*}

/-- A part of a format. -/
inductive Directive (α : Type*) where
  | blanks
  | exactly (c : α)
  | field (p : α → Bool)

/-! ## Taking and dropping symbols of a set -/

variable {p : α → Bool} {w r : List α}

/-- The symbols of a set that stand in front of one which is not in it. -/
theorem takeWhile_append_of (hw : ∀ c ∈ w, p c = true) (hr : ∀ c ∈ r.head?, p c = false) :
    (w ++ r).takeWhile p = w := by
  rw [List.takeWhile_append_of_pos hw]
  cases r with
  | nil => rw [List.takeWhile_nil, List.append_nil]
  | cons c r =>
      have hc := hr c rfl
      rw [List.takeWhile_cons_of_neg (by simp [hc]), List.append_nil]

/-- A run of characters is dropped up to the first other one. -/
theorem dropWhile_append_of (hw : ∀ c ∈ w, p c = true) (hr : ∀ c ∈ r.head?, p c = false) :
    (w ++ r).dropWhile p = r := by
  rw [List.dropWhile_append_of_pos hw]
  cases r with
  | nil => rfl
  | cons c r =>
      have hc := hr c rfl
      rw [List.dropWhile_cons_of_neg (by simp [hc])]

/-- Nothing is dropped in front of a symbol which is not in the set. -/
theorem dropWhile_of_head (hr : ∀ c ∈ r.head?, p c = false) : r.dropWhile p = r :=
  dropWhile_append_of (w := []) (fun _ hc => absurd hc List.not_mem_nil) hr

/-! ## Scanning -/

variable [DecidableEq α]

/-- The fields that a text gives, up to the first directive that fails. -/
def scan (blank : α → Bool) : List (Directive α) → List α → List (List α)
  | [], _ => []
  | .blanks :: ds, s => scan blank ds (s.dropWhile blank)
  | .exactly c :: ds, s => if s.head? = some c then scan blank ds s.tail else []
  | .field p :: ds, s =>
      if s.takeWhile p = [] then []
      else s.takeWhile p :: scan blank ds (s.dropWhile p)

variable {blank : α → Bool} {ds : List (Directive α)} {c : α}

/-- A field is read up to what does not belong to it. -/
theorem scan_field (hne : w ≠ []) (hw : ∀ c ∈ w, p c = true) (hr : ∀ c ∈ r.head?, p c = false) :
    scan blank (.field p :: ds) (w ++ r) = w :: scan blank ds r := by
  rw [scan, takeWhile_append_of hw hr, dropWhile_append_of hw hr, if_neg hne]

/-- A field of no character fails. -/
theorem scan_field_nil (hr : ∀ c ∈ r.head?, p c = false) :
    scan blank (.field p :: ds) r = [] := by
  have htake : r.takeWhile p = [] :=
    takeWhile_append_of (w := []) (fun _ hc => absurd hc List.not_mem_nil) hr
  rw [scan, if_pos htake]

/-- A character is matched. -/
theorem scan_exactly (r : List α) : scan blank (.exactly c :: ds) (c :: r) = scan blank ds r := by
  rw [scan, if_pos (by rfl)]
  rfl

/-- Another one fails. -/
theorem scan_exactly_ne (hr : r.head? ≠ some c) : scan blank (.exactly c :: ds) r = [] := by
  rw [scan, if_neg hr]

/-- Blanks may be missing. -/
theorem scan_blanks (hr : ∀ c ∈ r.head?, blank c = false) :
    scan blank (.blanks :: ds) r = scan blank ds r := by
  rw [scan, dropWhile_of_head hr]

/-- A field is a part of the text. -/
theorem isInfix_of_mem_scan {s f : List α} (hf : f ∈ scan blank ds s) : f <:+: s := by
  induction ds generalizing s with
  | nil => exact absurd hf List.not_mem_nil
  | cons d ds ih =>
      cases d with
      | blanks => exact (ih hf).trans (List.dropWhile_suffix blank).isInfix
      | exactly c =>
          rw [scan] at hf
          split_ifs at hf
          · exact (ih hf).trans (List.tail_suffix s).isInfix
          · exact absurd hf List.not_mem_nil
      | field p =>
          rw [scan] at hf
          split_ifs at hf
          · exact absurd hf List.not_mem_nil
          · rcases List.mem_cons.mp hf with rfl | hf
            · exact (List.takeWhile_prefix p).isInfix
            · exact (ih hf).trans (List.dropWhile_suffix p).isInfix

/-- A field is not empty. -/
theorem ne_nil_of_mem_scan {s f : List α} (hf : f ∈ scan blank ds s) : f ≠ [] := by
  induction ds generalizing s with
  | nil => exact absurd hf List.not_mem_nil
  | cons d ds ih =>
      cases d with
      | blanks => exact ih hf
      | exactly c =>
          rw [scan] at hf
          split_ifs at hf
          · exact ih hf
          · exact absurd hf List.not_mem_nil
      | field p =>
          rw [scan] at hf
          split_ifs at hf with hnil
          · exact absurd hf List.not_mem_nil
          · rcases List.mem_cons.mp hf with rfl | hf
            · exact hnil
            · exact ih hf

end Scanf
