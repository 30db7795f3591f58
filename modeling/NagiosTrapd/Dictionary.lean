/-
# Dictionaries (`dictionary.c`)

A dictionary is three arrays of the same size, for keys, values and hashes of keys; a slot whose
key is `NULL` is empty.  A new key goes into the first empty slot, and the arrays are doubled when
the count of entries has reached their size.

**Main results:** `dictionary_is_map`: whatever is set, removed and looked up, and in whatever
order, a dictionary answers as a map from keys to values, in which a value that is empty is
`NULL`; it is never written behind its arrays.  `dictionary_count`: the count is that of the
entries, as long as no empty key is set.
-/
import NagiosTrapd.Simulation
import NagiosTrapd.Slots
import NagiosTrapd.Util

namespace Trapd

open Simulation Slots

/-- `DICTMINSZ`. -/
def DICTMINSZ : ℕ := 128

/-- One index of the three arrays of `struct _dictionary_`. -/
structure DictSlot where
  key : Option Str
  val : Option Str
  hash : BitVec 32
  deriving DecidableEq, Repr

/-- A slot as `calloc` leaves it. -/
def DictSlot.zero : DictSlot := ⟨none, none, 0⟩

/-- `struct _dictionary_`. -/
structure Dictionary where
  n : ℕ
  slots : List DictSlot
  deriving DecidableEq, Repr

/-! ## The code -/

/-- `(unsigned)key[i]`, of a `char` that is signed. -/
def charBits (c : Char) : BitVec 32 := (BitVec.ofNat 8 c.toNat).signExtend 32

/-- `dictionary_hash`. -/
def dictionaryHash (key : Str) : BitVec 32 :=
  let hash := key.foldl (fun hash c =>
    let hash := hash + charBits c
    let hash := hash + hash <<< 10
    hash ^^^ hash >>> 6) 0
  let hash := hash + hash <<< 3
  let hash := hash ^^^ hash >>> 11
  hash + hash <<< 15

/-- `dictionary_new`. -/
def dictionaryNew (size : ℤ) : Dictionary :=
  let size := if size < DICTMINSZ then DICTMINSZ else size.toNat
  ⟨0, List.replicate size .zero⟩

/-- The slot is not empty, and has this hash and this key. -/
def DictSlot.isFor (hash : BitVec 32) (key : Str) (slot : DictSlot) : Bool :=
  match slot.key with
  | none => false
  | some k => hash == slot.hash && key == k

/-- `dictionary_get`. -/
def dictionaryGet (d : Dictionary) (key : Str) (default : Option Str) : Option Str :=
  match d.slots.find? (DictSlot.isFor (dictionaryHash key) key) with
  | some slot => slot.val
  | none => default

/-- The arrays, doubled by `mem_double` when there are as many entries as they have slots. -/
def Dictionary.grow (d : Dictionary) : Dictionary :=
  if d.n = d.slots.length then
    { d with slots := d.slots ++ List.replicate d.slots.length .zero }
  else d

/-- `dictionary_set`, which returns 0; `none` writes behind the arrays. -/
def dictionarySet (d : Dictionary) (key : Str) (val : Option Str) : Option Dictionary :=
  let hash := dictionaryHash key
  match if 0 < d.n then d.slots.findIdx? (DictSlot.isFor hash key) else none with
  | some i => some { d with slots := d.slots.modify i fun slot => { slot with val := xstrdup val } }
  | none =>
      let d := d.grow
      match d.slots.findIdx? fun slot => slot.key.isNone with
      | none => none
      -- the empty key is copied as `NULL`, so that the slot stays empty
      | some i => some ⟨d.n + 1, d.slots.set i ⟨xstrdup (some key), xstrdup val, hash⟩⟩

/-- `dictionary_unset`. -/
def dictionaryUnset (d : Dictionary) (key : Str) : Dictionary :=
  match d.slots.findIdx? (DictSlot.isFor (dictionaryHash key) key) with
  | none => d
  | some i => ⟨d.n - 1, d.slots.set i .zero⟩

/-! ## The invariant -/

/-- What a slot has for those who look keys up. -/
def DictSlot.entry (slot : DictSlot) : Option (Str × Option Str) :=
  slot.key.map fun key => (key, slot.val)

namespace Dictionary

/-- The dictionary as a table of slots. -/
def table (d : Dictionary) : Table Str (Option Str) := d.slots.map DictSlot.entry

/-- What every function keeps. -/
structure Inv (d : Dictionary) : Prop where
  hash : ∀ slot ∈ d.slots, ∀ key, slot.key = some key → slot.hash = dictionaryHash key ∧ key ≠ []
  unique : Slots.Unique d.table
  used : (keys d.table).length ≤ d.n
  n_le : d.n ≤ d.slots.length
  pos : 0 < d.slots.length

variable {d : Dictionary} {key : Str}

theorem table_getElem? (i : ℕ) : d.table[i]? = d.slots[i]?.map DictSlot.entry :=
  List.getElem?_map

theorem isFor_iff (h : d.Inv) {slot : DictSlot} (hmem : slot ∈ d.slots) :
    slot.isFor (dictionaryHash key) key = true ↔ slot.key = some key := by
  cases hkey : slot.key with
  | none => simp [DictSlot.isFor, hkey]
  | some k =>
      have hhash := (h.hash slot hmem k hkey).1
      simp only [DictSlot.isFor, hkey, hhash, Bool.and_eq_true, beq_iff_eq, Option.some.injEq]
      exact ⟨fun heq => heq.2.symm, fun heq => by rw [heq]; exact ⟨rfl, rfl⟩⟩

theorem mem_keys : key ∈ keys d.table ↔ ∃ slot ∈ d.slots, slot.key = some key := by
  simp only [keys, entries, table, List.filterMap_map, List.mem_map, List.mem_filterMap,
    DictSlot.entry, Function.comp, id]
  constructor
  · rintro ⟨e, ⟨slot, hslot, he⟩, rfl⟩
    obtain ⟨k, hk, rfl⟩ := Option.map_eq_some_iff.mp he
    exact ⟨slot, hslot, hk⟩
  · rintro ⟨slot, hslot, hkey⟩
    exact ⟨(key, slot.val), ⟨slot, hslot, by rw [hkey]; rfl⟩, rfl⟩

/-- The slot of a key is found. -/
theorem findIdx?_some (h : d.Inv) {i : ℕ}
    (hfind : d.slots.findIdx? (DictSlot.isFor (dictionaryHash key) key) = some i) :
    ∃ slot, d.slots[i]? = some slot ∧ slot.key = some key ∧
      d.table[i]? = some (some (key, slot.val)) := by
  obtain ⟨hi, hfor, -⟩ := List.findIdx?_eq_some_iff_getElem.mp hfind
  have hkey := (isFor_iff h (List.getElem_mem hi)).mp hfor
  refine ⟨d.slots[i], List.getElem?_eq_getElem hi, hkey, ?_⟩
  rw [table_getElem?, List.getElem?_eq_getElem hi, Option.map_some, DictSlot.entry, hkey]
  rfl

/-- No slot is found for a key that is not there. -/
theorem findIdx?_none (h : d.Inv)
    (hfind : d.slots.findIdx? (DictSlot.isFor (dictionaryHash key) key) = none) :
    key ∉ keys d.table := by
  rw [List.findIdx?_eq_none_iff] at hfind
  intro hmem
  obtain ⟨slot, hslot, hkey⟩ := mem_keys.mp hmem
  have hnot := hfind slot hslot
  rw [(isFor_iff h hslot).mpr hkey] at hnot
  exact Bool.noConfusion hnot

/-- The empty key is never there. -/
theorem nil_notMem_keys (h : d.Inv) : [] ∉ keys d.table := fun hmem => by
  obtain ⟨slot, hslot, hkey⟩ := mem_keys.mp hmem
  exact (h.hash slot hslot [] hkey).2 rfl

/-- The slots of an invariant are found again after one of them has changed. -/
theorem table_set (slots : List DictSlot) (m n i : ℕ) (slot : DictSlot) :
    (⟨n, slots.set i slot⟩ : Dictionary).table
      = (⟨m, slots⟩ : Dictionary).table.set i slot.entry :=
  List.map_set

end Dictionary

open Dictionary

theorem inv_dictionaryNew (size : ℤ) :
    (dictionaryNew size).Inv ∧ keys (dictionaryNew size).table = [] := by
  have hpos : 0 < if size < DICTMINSZ then DICTMINSZ else size.toNat := by
    split_ifs with hsize
    · decide
    · simp only [DICTMINSZ] at hsize
      omega
  have htable : ∀ m, (⟨0, List.replicate m .zero⟩ : Dictionary).table = List.replicate m none :=
    fun m => List.map_replicate
  have hkeys : keys (dictionaryNew size).table = [] := by
    rw [dictionaryNew, htable, keys_replicate_none]
  refine ⟨⟨fun slot hslot key hkey => ?_, ?_, ?_, Nat.zero_le _, ?_⟩, hkeys⟩
  · rw [List.eq_of_mem_replicate hslot] at hkey
    cases hkey
  · show (keys _).Nodup
    rw [hkeys]
    exact List.nodup_nil
  · rw [hkeys]
    exact Nat.le_refl 0
  · rw [dictionaryNew, List.length_replicate]
    exact hpos

/-! ## What each function does -/

variable {d : Dictionary} {key : Str}

/-- **`dictionary_get`** looks the key up. -/
theorem dictionaryGet_eq (h : d.Inv) (key : Str) (default : Option Str) :
    dictionaryGet d key default = (lookup d.table key).getD default := by
  rw [dictionaryGet]
  cases hfind : d.slots.find? (DictSlot.isFor (dictionaryHash key) key) with
  | none =>
      have hnone : d.slots.findIdx? (DictSlot.isFor (dictionaryHash key) key) = none := by
        rw [List.findIdx?_eq_none_iff]
        intro slot hslot
        have hnot := List.find?_eq_none.mp hfind slot hslot
        rwa [Bool.not_eq_true] at hnot
      rw [lookup_of_notMem (findIdx?_none h hnone)]
      rfl
  | some slot =>
      have hfor := List.find?_some hfind
      have hkey := (isFor_iff h (List.mem_of_find?_eq_some hfind)).mp hfor
      obtain ⟨i, hi⟩ := List.getElem?_of_mem (List.mem_of_find?_eq_some hfind)
      have hentry : d.table[i]? = some (some (key, slot.val)) := by
        rw [table_getElem?, hi, Option.map_some, DictSlot.entry, hkey]
        rfl
      rw [lookup_of_getElem? h.unique hentry]
      rfl

/-- Growing adds empty slots and leaves one. -/
theorem Dictionary.Inv.grow (h : d.Inv) :
    d.grow.Inv ∧ keys d.grow.table = keys d.table ∧ d.grow.n = d.n ∧
      d.grow.n < d.grow.slots.length ∧
      ∀ k, lookup d.grow.table k = lookup d.table k := by
  by_cases hfull : d.n = d.slots.length
  -- the new half of the table is empty
  · have htable : (⟨d.n, d.slots ++ List.replicate d.slots.length .zero⟩ : Dictionary).table
        = d.table ++ List.replicate d.slots.length none := by
      show List.map _ _ = _
      rw [List.map_append, List.map_replicate]
      rfl
    have hkeys : keys (d.table ++ List.replicate d.slots.length none) = keys d.table := by
      rw [keys_append, keys_replicate_none, List.append_nil]
    have hpos := h.pos
    rw [Dictionary.grow, if_pos hfull]
    refine ⟨⟨fun slot hslot key hkey => ?_, ?_, ?_, ?_, ?_⟩, ?_, rfl, ?_, fun k => ?_⟩
    · rcases List.mem_append.mp hslot with hslot | hslot
      · exact h.hash slot hslot key hkey
      · rw [List.eq_of_mem_replicate hslot] at hkey
        cases hkey
    · show (keys _).Nodup
      rw [htable, hkeys]
      exact h.unique
    · rw [htable, hkeys]
      exact h.used
    · show d.n ≤ (d.slots ++ _).length
      rw [List.length_append, List.length_replicate]
      omega
    · show 0 < (d.slots ++ _).length
      rw [List.length_append]
      omega
    · rw [htable, hkeys]
    · show d.n < (d.slots ++ _).length
      rw [List.length_append, List.length_replicate]
      omega
    · rw [htable, lookup_append_replicate_none]
  · rw [Dictionary.grow, if_neg hfull]
    have hle := h.n_le
    exact ⟨h, rfl, rfl, by omega, fun k => rfl⟩

/-- An empty slot is found while there are fewer entries than slots. -/
theorem Dictionary.Inv.findIdx?_isNone (h : d.Inv) (hroom : d.n < d.slots.length) :
    ∃ i, d.slots.findIdx? (fun slot => slot.key.isNone) = some i ∧ d.table[i]? = some none := by
  have hlt : (entries d.table).length < d.table.length := by
    have hused := h.used
    rw [length_keys] at hused
    rw [table, List.length_map]
    exact Nat.lt_of_le_of_lt hused hroom
  obtain ⟨slot, hslot, hentry⟩ := List.mem_map.mp (none_mem_of_length_lt hlt)
  have hkey : slot.key.isNone = true := by
    rw [DictSlot.entry, Option.map_eq_none_iff] at hentry
    rw [hentry]
    rfl
  cases hfind : d.slots.findIdx? fun slot => slot.key.isNone with
  | none =>
      rw [List.findIdx?_eq_none_iff] at hfind
      have hnot := hfind slot hslot
      rw [hkey] at hnot
      exact Bool.noConfusion hnot
  | some i =>
      obtain ⟨hi, hnone, -⟩ := List.findIdx?_eq_some_iff_getElem.mp hfind
      refine ⟨i, rfl, ?_⟩
      rw [table_getElem?, List.getElem?_eq_getElem hi, Option.map_some, DictSlot.entry,
        Option.isNone_iff_eq_none.mp hnone]
      rfl

/-- A slot is written into the arrays, with the key's hash if it has a key. -/
theorem Dictionary.Inv.set (h : d.Inv) {i n : ℕ} {slot : DictSlot}
    (hslot : ∀ key, slot.key = some key → slot.hash = dictionaryHash key ∧ key ≠ [])
    (hunique : Slots.Unique (d.table.set i slot.entry))
    (hused : (keys (d.table.set i slot.entry)).length ≤ n) (hn : n ≤ d.slots.length) :
    (⟨n, d.slots.set i slot⟩ : Dictionary).Inv where
  hash := by
    intro slot' hmem key hkey
    rcases List.mem_or_eq_of_mem_set hmem with hmem | rfl
    · exact h.hash slot' hmem key hkey
    · exact hslot key hkey
  unique := by
    rw [table_set d.slots d.n]
    exact hunique
  used := by
    rw [table_set d.slots d.n]
    exact hused
  n_le := by
    show n ≤ (d.slots.set i slot).length
    rw [List.length_set]
    exact hn
  pos := by
    show 0 < (d.slots.set i slot).length
    rw [List.length_set]
    exact h.pos

/-- The value of a key that is there is replaced. -/
theorem dictionarySet_of_mem (h : d.Inv) (val : Option Str) (hmem : key ∈ keys d.table) :
    ∃ d', dictionarySet d key val = some d' ∧ d'.Inv ∧ d'.n = d.n ∧
      keys d'.table = keys d.table ∧
      ∀ k, lookup d'.table k = if k = key then some (xstrdup val) else lookup d.table k := by
  have hn : 0 < d.n := by
    have hused := h.used
    have hlen := List.length_pos_of_mem hmem
    omega
  cases hfind : d.slots.findIdx? (DictSlot.isFor (dictionaryHash key) key) with
  | none => exact absurd hmem (findIdx?_none h hfind)
  | some i =>
      obtain ⟨slot, hslot, hkey, hentry⟩ := findIdx?_some h hfind
      -- the slot that has the key keeps it, and gets the value
      have hmodify : d.slots.modify i (fun slot => { slot with val := xstrdup val })
          = d.slots.set i { slot with val := xstrdup val } := by
        rw [List.modify_eq_set_getElem?, hslot]
        rfl
      have hnew : DictSlot.entry { slot with val := xstrdup val }
          = some (key, xstrdup val) := by
        rw [DictSlot.entry]
        show Option.map _ slot.key = _
        rw [hkey]
        rfl
      have hkeys := keys_replace (w := xstrdup val) hentry
      refine ⟨⟨d.n, d.slots.set i { slot with val := xstrdup val }⟩, ?_, ?_, rfl, ?_, fun k => ?_⟩
      · simp only [dictionarySet, if_pos hn, hfind, hmodify]
      · apply h.set
        · intro key' hkey'
          exact h.hash slot (List.mem_of_getElem? hslot) key' hkey'
        · rw [hnew, Slots.Unique, hkeys]
          exact h.unique
        · rw [hnew, hkeys]
          exact h.used
        · exact h.n_le
      · rw [table_set d.slots d.n, hnew]
        exact hkeys
      · rw [table_set d.slots d.n, hnew]
        exact lookup_replace h.unique hentry

/-- A key that is not there gets the first empty slot, and the empty key gets none. -/
theorem dictionarySet_of_notMem (h : d.Inv) (val : Option Str) (hmem : key ∉ keys d.table) :
    ∃ d', dictionarySet d key val = some d' ∧ d'.Inv ∧ d'.n = d.n + 1 ∧
      (if key = [] then keys d'.table = keys d.table
        else (keys d'.table).Perm (key :: keys d.table)) ∧
      ∀ k, lookup d'.table k
        = if key ≠ [] ∧ k = key then some (xstrdup val) else lookup d.table k := by
  obtain ⟨hgrow, hkeys, hn, hroom, hlookup⟩ := h.grow
  obtain ⟨i, hfind, hnone⟩ := hgrow.findIdx?_isNone hroom
  have hused := hgrow.used
  -- no slot is found that has the key
  have hnot : (if 0 < d.n then d.slots.findIdx? (DictSlot.isFor (dictionaryHash key) key)
      else none) = none := by
    split_ifs with hpos
    · cases hfind : d.slots.findIdx? (DictSlot.isFor (dictionaryHash key) key) with
      | none => rfl
      | some i =>
          obtain ⟨slot, hslot, hkey, -⟩ := findIdx?_some h hfind
          exact absurd (mem_keys.mpr ⟨slot, List.mem_of_getElem? hslot, hkey⟩) hmem
    · rfl
  have heq : dictionarySet d key val
      = some ⟨d.n + 1, d.grow.slots.set i
          ⟨xstrdup (some key), xstrdup val, dictionaryHash key⟩⟩ := by
    simp only [dictionarySet, hnot, hfind, hn]
  refine ⟨_, heq, ?_⟩
  by_cases hnil : key = []
  · -- the slot is written without a key, and stays empty
    subst hnil
    have hentry : DictSlot.entry ⟨xstrdup (some []), xstrdup val, dictionaryHash []⟩ = none := rfl
    have hsame : d.grow.table.set i none = d.grow.table := by
      rw [← List.getElem?_eq_some_iff.mp hnone |>.2, List.set_getElem_self]
    refine ⟨?_, rfl, ?_, fun k => ?_⟩
    · apply hgrow.set
      · intro key hkey
        cases hkey
      · rw [hentry, hsame]
        exact hgrow.unique
      · rw [hentry, hsame]
        omega
      · omega
    · rw [if_pos rfl, table_set d.grow.slots d.grow.n, hentry, ← hkeys]
      exact congrArg keys hsame
    · rw [if_neg (by simp), table_set d.grow.slots d.grow.n, hentry, ← hlookup]
      exact congrArg (lookup · k) hsame
  -- the slot gets the key
  · have hdup : xstrdup (some key) = some key := xstrdup_some_of_ne_nil hnil
    have hentry : DictSlot.entry ⟨xstrdup (some key), xstrdup val, dictionaryHash key⟩
        = some (key, xstrdup val) := by
      rw [hdup]
      rfl
    have hmem' : key ∉ keys d.grow.table := by rwa [hkeys]
    have hperm := keys_put (k := key) (v := xstrdup val) hnone
    refine ⟨?_, rfl, ?_, fun k => ?_⟩
    · apply hgrow.set
      · intro key' hkey'
        rw [hdup] at hkey'
        cases hkey'
        exact ⟨rfl, hnil⟩
      · rw [hentry]
        exact Slots.Unique.put hgrow.unique hnone hmem'
      · rw [hentry, hperm.length_eq, List.length_cons]
        omega
      · omega
    · rw [if_neg hnil, table_set d.grow.slots d.grow.n, hentry, ← hkeys]
      exact hperm
    · rw [table_set d.grow.slots d.grow.n, hentry, ← hlookup]
      simp only [ne_eq, hnil, not_false_iff, true_and]
      exact lookup_put hnone hmem'

/-- **`dictionary_unset`** removes the key. -/
theorem dictionaryUnset_eq (h : d.Inv) (key : Str) :
    (dictionaryUnset d key).Inv ∧
    (dictionaryUnset d key).n + (keys d.table).length
      = d.n + (keys (dictionaryUnset d key).table).length ∧
    ∀ k, lookup (dictionaryUnset d key).table k = if k = key then none else lookup d.table k := by
  rw [dictionaryUnset]
  -- nothing is done for a key that is not there; the slot of another one is cleared
  cases hfind : d.slots.findIdx? (DictSlot.isFor (dictionaryHash key) key) with
  | none =>
      refine ⟨h, rfl, fun k => ?_⟩
      by_cases hk : k = key
      · rw [if_pos hk, hk]
        exact lookup_of_notMem (findIdx?_none h hfind)
      · rw [if_neg hk]
  | some i =>
      obtain ⟨slot, hslot, hkey, hentry⟩ := findIdx?_some h hfind
      have hlen : (keys d.table).length = (keys (d.table.set i none)).length + 1 :=
        (keys_clear hentry).length_eq
      have hused := h.used
      have hle := h.n_le
      have hzero : DictSlot.entry .zero = none := rfl
      refine ⟨?_, ?_, fun k => ?_⟩
      · apply h.set
        · intro key hkey
          cases hkey
        · exact Slots.Unique.clear h.unique hentry
        · show (keys (d.table.set i none)).length ≤ d.n - 1
          omega
        · omega
      · rw [table_set d.slots d.n, hzero]
        show d.n - 1 + (keys d.table).length = d.n + (keys (d.table.set i none)).length
        omega
      · rw [table_set d.slots d.n, hzero]
        exact lookup_clear h.unique hentry

/-! ## Sequences of calls -/

/-- The calls. -/
inductive DictOp where
  | set (key : Str) (val : Option Str)
  | get (key : Str) (default : Option Str)
  | unset (key : Str)

/-- What a call gives: `fault` is a write behind the arrays. -/
inductive DictAnswer where
  | done
  | value (val : Option Str)
  | fault
  deriving DecidableEq, Repr

/-- The dictionary. -/
def dictionary : DataType Dictionary DictOp DictAnswer where
  apply d
    | .set key val =>
        match dictionarySet d key val with
        | some d' => (.done, d')
        | none => (.fault, d)
    | .get key default => (.value (dictionaryGet d key default), d)
    | .unset key => (.done, dictionaryUnset d key)

/-- What a dictionary is for: a map from keys, of which none is empty, to values, of which an
empty one is `NULL`. -/
def stringMap : DataType (Str → Option (Option Str)) DictOp DictAnswer where
  apply m
    | .set key val => (.done, if key = [] then m else Function.update m key (some (xstrdup val)))
    | .get key default => (.value ((m key).getD default), m)
    | .unset key => (.done, Function.update m key none)

/-- A dictionary with the entries of a map. -/
def Dictionary.Represents (d : Dictionary) (m : Str → Option (Option Str)) : Prop :=
  d.Inv ∧ lookup d.table = m

namespace Dictionary.Represents

variable {m : Str → Option (Option Str)}

theorem get (h : d.Represents m) (key : Str) (default : Option Str) :
    dictionaryGet d key default = (m key).getD default := by
  rw [dictionaryGet_eq h.1, h.2]

theorem unset (h : d.Represents m) (key : Str) :
    (dictionaryUnset d key).Represents (Function.update m key none) := by
  obtain ⟨hinv, -, hlookup⟩ := dictionaryUnset_eq h.1 key
  refine ⟨hinv, ?_⟩
  funext k
  rw [hlookup, h.2, Function.update_apply]

/-- A value is set, and nothing is written behind the arrays. -/
theorem set (h : d.Represents m) (key : Str) (val : Option Str) :
    ∃ d', dictionarySet d key val = some d' ∧
      d'.Represents (if key = [] then m else Function.update m key (some (xstrdup val))) := by
  by_cases hmem : key ∈ keys d.table
  · obtain ⟨d', heq, hinv, -, -, hlookup⟩ := dictionarySet_of_mem h.1 val hmem
    have hne : key ≠ [] := by
      rintro rfl
      exact nil_notMem_keys h.1 hmem
    refine ⟨d', heq, hinv, ?_⟩
    funext k
    rw [hlookup, h.2, if_neg hne, Function.update_apply]
  · obtain ⟨d', heq, hinv, -, -, hlookup⟩ := dictionarySet_of_notMem h.1 val hmem
    refine ⟨d', heq, hinv, ?_⟩
    funext k
    rw [hlookup, h.2]
    by_cases hnil : key = []
    · rw [if_neg (by simp [hnil]), if_pos hnil]
    · simp only [ne_eq, hnil, not_false_iff, true_and, if_false, Function.update_apply]

end Dictionary.Represents

/-- **Step lemma**: every call does to the entries what it does to the map. -/
theorem dictionary_simulates :
    Simulates dictionary stringMap (fun _ => True) Dictionary.Represents where
  apply := by
    intro d m op h _
    cases op with
    | get key default => exact ⟨congrArg DictAnswer.value (h.get key default), h⟩
    | unset key => exact ⟨rfl, h.unset key⟩
    | set key val =>
        obtain ⟨d', heq, h'⟩ := h.set key val
        simp only [dictionary, stringMap, heq]
        exact ⟨trivial, h'⟩

/-- A new dictionary is the map without keys. -/
theorem represents_dictionaryNew (size : ℤ) : (dictionaryNew size).Represents fun _ => none := by
  obtain ⟨hinv, hkeys⟩ := inv_dictionaryNew size
  refine ⟨hinv, funext fun k => ?_⟩
  apply lookup_of_notMem
  rw [hkeys]
  exact List.not_mem_nil

/-- The calls that set the empty key. -/
def DictOp.setsEmptyKey : DictOp → Bool
  | .set key _ => key = []
  | _ => false

/-- **Step lemma**: the count grows with the entries, and when the empty key is set. -/
theorem n_apply_dictionary (h : d.Inv) (op : DictOp) :
    (dictionary.apply d op).2.Inv ∧
    (dictionary.apply d op).2.n + (keys d.table).length
      = d.n + (keys (dictionary.apply d op).2.table).length
        + if op.setsEmptyKey then 1 else 0 := by
  cases op with
  | get key default => exact ⟨h, rfl⟩
  | unset key =>
      obtain ⟨hinv, hn, -⟩ := dictionaryUnset_eq h key
      exact ⟨hinv, hn⟩
  | set key val =>
      by_cases hmem : key ∈ keys d.table
      · obtain ⟨d', heq, hinv, hn, hkeys, -⟩ := dictionarySet_of_mem h val hmem
        have hne : key ≠ [] := by
          rintro rfl
          exact nil_notMem_keys h hmem
        simp only [dictionary, heq, DictOp.setsEmptyKey, hkeys, hn, hne, decide_false]
        exact ⟨hinv, rfl⟩
      · obtain ⟨d', heq, hinv, hn, hkeys, -⟩ := dictionarySet_of_notMem h val hmem
        simp only [dictionary, heq, DictOp.setsEmptyKey, hn, decide_eq_true_eq]
        refine ⟨hinv, ?_⟩
        split_ifs at hkeys ⊢ with hnil
        · rw [hkeys]
          omega
        · rw [hkeys.length_eq, List.length_cons]
          omega

/-- **Run lemma**. -/
theorem n_run_dictionary (h : d.Inv) (ops : List DictOp) :
    (dictionary.run d ops).2.Inv ∧
    (dictionary.run d ops).2.n + (keys d.table).length
      = d.n + (keys (dictionary.run d ops).2.table).length + ops.countP DictOp.setsEmptyKey := by
  induction ops generalizing d with
  | nil => exact ⟨h, rfl⟩
  | cons op ops ih =>
      obtain ⟨hinv, hn⟩ := n_apply_dictionary h op
      obtain ⟨hinv', hn'⟩ := ih hinv
      rw [DataType.run_cons, List.countP_cons]
      refine ⟨hinv', ?_⟩
      show (dictionary.run _ ops).2.n + _
        = d.n + (keys (dictionary.run _ ops).2.table).length + _
      omega

/-- **The count of a dictionary**: after any calls it is that of the keys which are there, and one
more for every time that the empty key was set. -/
theorem dictionary_count (size : ℤ) (ops : List DictOp) :
    ∃ present : List Str, present.Nodup ∧
      (∀ key, key ∈ present ↔ (stringMap.run (fun _ => none) ops).2 key ≠ none) ∧
      (dictionary.run (dictionaryNew size) ops).2.n
        = present.length + ops.countP DictOp.setsEmptyKey := by
  obtain ⟨hinv, hkeys⟩ := inv_dictionaryNew size
  have hall : ∀ op ∈ ops, (fun _ => True) op := fun _ _ => trivial
  obtain ⟨-, hinv', hlookup⟩ := dictionary_simulates.run (represents_dictionaryNew size) hall
  obtain ⟨-, hn⟩ := n_run_dictionary hinv ops
  refine ⟨keys (dictionary.run (dictionaryNew size) ops).2.table, hinv'.unique, fun key => ?_, ?_⟩
  · rw [← hlookup, ne_eq, lookup_eq_none_iff, not_not]
  · have hzero : (dictionaryNew size).n = 0 := rfl
    rw [hkeys, hzero, List.length_nil] at hn
    omega

end Trapd
