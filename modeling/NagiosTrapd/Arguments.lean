/-
# The positions of arguments (`db.c`, `command.c`)

The arguments of a check command are separated by exclamation marks.  `split_args` cuts them
apart with `strtok_r`, which takes exclamation marks next to each other for one, and
`$ARGn$` stands for the argument that then has the number `n`.

**Main result:** `argument_positions_iff`: every argument that is not empty has the number of
its field exactly when no empty field stands in front of one that is not.
-/
import NagiosTrapd.CommandMacros

namespace Trapd

open Words

/-- The text of a macro for an argument. -/
def argMacro (n : ℕ) : Str := Template.delimited '$' ("ARG".toList ++ decimal n)

/-- What `_expand_hook_3` gives for a macro, the arguments being those of a string. -/
def lookupArgument (host_address : Option Str) (s : Str) (n : ℕ) : Option Str :=
  let (args, args_no) := splitArgs (some s)
  expandHook3 host_address args args_no (argMacro n)

example : lookupArgument none "80!!90".toList 2 = some "90".toList := by decide

/-- **The argument with a number** is the word with that number. -/
theorem lookupArgument_succ (host_address : Option Str) (s : Str) {n : ℕ} (hn : n + 1 < 2 ^ 31) :
    lookupArgument host_address s (n + 1) = ((words '!' s).take MAX_ARGS_NO)[n]? := by
  obtain ⟨as, hsplit, has⟩ := splitArgs_some s
  have hvalue := value_arg host_address (argv (some as)) (argc (some as)) (decimal (n + 1))
  rw [atoi_decimal_succ hn, argument_succ, Option.getD_some] at hvalue
  unfold lookupArgument
  rw [hsplit, ← has, List.getElem?_map]
  exact hvalue

/-- **Arguments keep their positions** exactly when no empty field stands in front of one that
is not empty. -/
theorem argument_positions_iff (host_address : Option Str) {s : Str}
    (hfields : (pieces '!' s).length ≤ MAX_ARGS_NO) :
    (∀ (n : ℕ) field, (pieces '!' s)[n]? = some field → field ≠ [] →
        lookupArgument host_address s (n + 1) = some field)
      ↔ (pieces '!' s).Pairwise fun before field => field ≠ [] → before ≠ [] := by
  have htake : (words '!' s).take MAX_ARGS_NO = words '!' s := by
    apply List.take_of_length_le
    rw [words_eq_filter_pieces]
    exact (List.length_filter_le _ _).trans hfields
  rw [← words_getElem?_iff]
  refine forall_congr' fun n => forall_congr' fun field => forall_congr' fun hfield => ?_
  have hlt := (List.getElem?_eq_some_iff.mp hfield).1
  have hmax : MAX_ARGS_NO < 2 ^ 31 := by decide
  rw [lookupArgument_succ host_address s (by omega), htake]

/-- Two thresholds in their places. -/
theorem argument_positions_two :
    (∀ (n : ℕ) field, (pieces '!' "80!90".toList)[n]? = some field → field ≠ [] →
        lookupArgument none "80!90".toList (n + 1) = some field)
      ↔ (pieces '!' "80!90".toList).Pairwise fun before field => field ≠ [] → before ≠ [] :=
  argument_positions_iff none (by decide)

/-- The second field is taken for the first argument when the first is empty. -/
theorem not_argument_positions :
    ¬ ∀ s : Str, (pieces '!' s).length ≤ MAX_ARGS_NO →
      ∀ (n : ℕ) field, (pieces '!' s)[n]? = some field → field ≠ [] →
        lookupArgument none s (n + 1) = some field := by
  intro h
  have hlookup := h "!90".toList (by decide) 1 "90".toList (by decide) (by decide)
  exact absurd hlookup (by decide)

end Trapd
