/-
# Tables of slots

A table is an array of slots, each empty or with a key and a value, and no key twice; where an
entry stands does not matter to who looks it up.  An entry is put into any empty slot, and its
slot is emptied again when it is removed, so that the table is a finite map from keys to values:
`lookup_put`, `lookup_replace` and `lookup_clear` say what the three changes of a slot do to it.
-/
import Mathlib.Data.List.Basic
import Mathlib.Data.List.Nodup
import Mathlib.Data.List.Perm.Basic

namespace Slots

variable {κ β : Type*}

/-- The slots. -/
abbrev Table (κ β : Type*) := List (Option (κ × β))

/-- The entries, in the order of their slots. -/
def entries (t : Table κ β) : List (κ × β) := t.filterMap id

/-- The keys. -/
def keys (t : Table κ β) : List κ := (entries t).map Prod.fst

/-- No key is there twice. -/
def Unique (t : Table κ β) : Prop := (keys t).Nodup

/-! ## One slot among the others -/

/-- A slot with what stands in front of it and behind it. -/
theorem exists_split {t : Table κ β} {i : ℕ} {slot : Option (κ × β)} (h : t[i]? = some slot) :
    ∃ l r, t = l ++ slot :: r ∧ ∀ slot', t.set i slot' = l ++ slot' :: r := by
  obtain ⟨hi, hslot⟩ := List.getElem?_eq_some_iff.mp h
  refine ⟨t.take i, t.drop (i + 1), ?_, fun slot' => ?_⟩
  · rw [← hslot, List.getElem_cons_drop, List.take_append_drop]
  · rw [List.set_eq_take_append_cons_drop, if_pos hi]

/-- The entries of two tables, one behind the other. -/
@[simp] theorem entries_append (l r : Table κ β) : entries (l ++ r) = entries l ++ entries r :=
  List.filterMap_append

/-- A free slot has no entry. -/
@[simp] theorem entries_cons_none (r : Table κ β) : entries (none :: r) = entries r := rfl

/-- A used one has its own. -/
@[simp] theorem entries_cons_some (e : κ × β) (r : Table κ β) :
    entries (some e :: r) = e :: entries r := rfl

/-- Free slots have none. -/
@[simp] theorem entries_replicate_none (n : ℕ) :
    entries (List.replicate n none : Table κ β) = [] := by
  induction n with
  | zero => rfl
  | succ n ih => rw [List.replicate_succ, entries_cons_none, ih]

/-- The keys of two tables, one behind the other. -/
@[simp] theorem keys_append (l r : Table κ β) : keys (l ++ r) = keys l ++ keys r := by
  rw [keys, entries_append, List.map_append]
  rfl

/-- A free slot has no key. -/
@[simp] theorem keys_cons_none (r : Table κ β) : keys (none :: r) = keys r := rfl

/-- A used one has that of its entry. -/
@[simp] theorem keys_cons_some (e : κ × β) (r : Table κ β) : keys (some e :: r) = e.1 :: keys r :=
  rfl

/-- Free slots have none. -/
@[simp] theorem keys_replicate_none (n : ℕ) :
    keys (List.replicate n none : Table κ β) = [] := by
  rw [keys, entries_replicate_none, List.map_nil]

/-- Each entry has one key. -/
theorem length_keys (t : Table κ β) : (keys t).length = (entries t).length := List.length_map _

/-- A table with fewer entries than slots has an empty slot. -/
theorem none_mem_of_length_lt {t : Table κ β} (h : (entries t).length < t.length) :
    none ∈ t := by
  induction t with
  | nil => simp at h
  | cons slot t ih =>
      cases slot with
      | none => exact List.mem_cons_self
      | some e =>
          rw [entries_cons_some, List.length_cons, List.length_cons] at h
          exact List.mem_cons_of_mem _ (ih (by omega))

/-- Each entry takes a slot. -/
theorem length_entries_le (t : Table κ β) : (entries t).length ≤ t.length :=
  List.length_filterMap_le _ _

/-! ## Keys -/

variable {t : Table κ β} {i : ℕ} {k k' : κ} {v w : β}

/-- A key that stands in front of and behind no other slot with it. -/
theorem Unique.notMem {l r : Table κ β} (h : Unique (l ++ some (k, v) :: r)) :
    k ∉ keys l ∧ k ∉ keys r := by
  rw [Unique, keys_append, keys_cons_some, List.nodup_middle, List.nodup_cons] at h
  exact ⟨fun hl => h.1 (List.mem_append_left _ hl), fun hr => h.1 (List.mem_append_right _ hr)⟩

/-- A key that is put in a free slot is added. -/
theorem keys_put (h : t[i]? = some none) : (keys (t.set i (some (k, v)))).Perm (k :: keys t) := by
  obtain ⟨l, r, rfl, hset⟩ := exists_split h
  rw [hset, keys_append, keys_cons_some, keys_append, keys_cons_none]
  exact List.perm_middle

/-- Keys stay unique when a new one is put. -/
theorem Unique.put (hu : Unique t) (h : t[i]? = some none) (hk : k ∉ keys t) :
    Unique (t.set i (some (k, v))) :=
  (keys_put h).nodup_iff.mpr (List.nodup_cons.mpr ⟨hk, hu⟩)

/-- Another value leaves the keys. -/
theorem keys_replace (h : t[i]? = some (some (k, v))) :
    keys (t.set i (some (k, w))) = keys t := by
  obtain ⟨l, r, rfl, hset⟩ := exists_split h
  rw [hset, keys_append, keys_cons_some, keys_append, keys_cons_some]

/-- A slot that is cleared loses its key. -/
theorem keys_clear (h : t[i]? = some (some (k, v))) :
    (keys t).Perm (k :: keys (t.set i none)) := by
  obtain ⟨l, r, rfl, hset⟩ := exists_split h
  rw [hset, keys_append, keys_cons_some, keys_append, keys_cons_none]
  exact List.perm_middle

/-- Keys stay unique when a slot is cleared. -/
theorem Unique.clear (hu : Unique t) (h : t[i]? = some (some (k, v))) : Unique (t.set i none) :=
  (List.nodup_cons.mp ((keys_clear h).nodup_iff.mp hu)).2

/-! ## Lookup -/

variable [DecidableEq κ]

/-- The value of a key. -/
def lookup (t : Table κ β) (k : κ) : Option β :=
  ((entries t).find? fun e => e.1 = k).map Prod.snd

/-- Only absent keys are not found. -/
theorem lookup_eq_none_iff {t : Table κ β} {k : κ} : lookup t k = none ↔ k ∉ keys t := by
  rw [lookup, Option.map_eq_none_iff, List.find?_eq_none, keys]
  constructor
  · intro h hk
    obtain ⟨e, he, rfl⟩ := List.mem_map.mp hk
    exact h e he (by simp)
  · intro h e he hek
    have hkey : e.1 = k := by simpa using hek
    exact h (List.mem_map.mpr ⟨e, he, hkey⟩)

/-- The first table is looked in first. -/
theorem lookup_append (l r : Table κ β) (k : κ) :
    lookup (l ++ r) k = (lookup l k).or (lookup r k) := by
  rw [lookup, entries_append, List.find?_append]
  cases hl : (entries l).find? fun e => e.1 = k with
  | none => simp [lookup, hl]
  | some e => simp [lookup, hl]

/-- A free slot is passed by. -/
@[simp] theorem lookup_cons_none (r : Table κ β) (k : κ) : lookup (none :: r) k = lookup r k := rfl

/-- A used one is compared. -/
theorem lookup_cons_some (e : κ × β) (r : Table κ β) (k : κ) :
    lookup (some e :: r) k = if e.1 = k then some e.2 else lookup r k := by
  rw [lookup, entries_cons_some, List.find?_cons]
  by_cases hk : e.1 = k <;> simp [hk, lookup]

/-- An absent key is not found. -/
theorem lookup_of_notMem {t : Table κ β} {k : κ} (h : k ∉ keys t) : lookup t k = none :=
  lookup_eq_none_iff.mpr h

/-- **The slot of a key has its value.** -/
theorem lookup_of_getElem? (hu : Unique t) (h : t[i]? = some (some (k, v))) :
    lookup t k = some v := by
  obtain ⟨l, r, rfl, -⟩ := exists_split h
  rw [lookup_append, lookup_of_notMem hu.notMem.1, Option.none_or, lookup_cons_some, if_pos rfl]

/-- **An entry is put into an empty slot.** -/
theorem lookup_put (h : t[i]? = some none) (hk : k ∉ keys t) :
    lookup (t.set i (some (k, v))) k' = if k' = k then some v else lookup t k' := by
  obtain ⟨l, r, rfl, hset⟩ := exists_split h
  rw [keys_append, keys_cons_none, List.mem_append, not_or] at hk
  rw [hset, lookup_append, lookup_cons_some, lookup_append, lookup_cons_none]
  by_cases hk' : k' = k
  · subst hk'
    rw [if_pos rfl, if_pos rfl, lookup_of_notMem hk.1, Option.none_or]
  · rw [if_neg (Ne.symm hk'), if_neg hk']

/-- **The value of an entry is replaced.** -/
theorem lookup_replace (hu : Unique t) (h : t[i]? = some (some (k, v))) :
    lookup (t.set i (some (k, w))) k' = if k' = k then some w else lookup t k' := by
  obtain ⟨l, r, rfl, hset⟩ := exists_split h
  rw [hset, lookup_append, lookup_cons_some, lookup_append, lookup_cons_some]
  by_cases hk' : k' = k
  · subst hk'
    rw [if_pos rfl, if_pos rfl, lookup_of_notMem hu.notMem.1, Option.none_or]
  · rw [if_neg (Ne.symm hk'), if_neg (Ne.symm hk'), if_neg hk']

/-- **A slot is emptied.** -/
theorem lookup_clear (hu : Unique t) (h : t[i]? = some (some (k, v))) :
    lookup (t.set i none) k' = if k' = k then none else lookup t k' := by
  obtain ⟨l, r, rfl, hset⟩ := exists_split h
  rw [hset, lookup_append, lookup_cons_none, lookup_append, lookup_cons_some]
  by_cases hk' : k' = k
  · subst hk'
    rw [if_pos rfl, lookup_of_notMem hu.notMem.1, lookup_of_notMem hu.notMem.2, Option.none_or]
  · rw [if_neg (Ne.symm hk'), if_neg hk']

/-- Empty slots behind a table change nothing. -/
theorem lookup_append_replicate_none (t : Table κ β) (n : ℕ) (k : κ) :
    lookup (t ++ List.replicate n none) k = lookup t k := by
  have hnot : k ∉ keys (List.replicate n none : Table κ β) := by simp
  rw [lookup_append, lookup_of_notMem hnot, Option.or_none]

end Slots
