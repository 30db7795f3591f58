/-
# Chains of records that share a key

A small library about intrusive linked lists hanging off a hash table.  Records
are stored one after the other and a pointer is a position.  For one index, the
table maps a key to the newest record with that key, and every record carries a
link to the newest older record with its own key.  `Linked` is the invariant
that ties table and links to the stored records; `Linked.push` keeps it when a
record is put in front of its chain.

`follow` walks links with a bound on the number of steps.  The two facts a
caller needs are `Linked.follow_table` and `Linked.follow_record`: both walks
end, and they visit exactly the records with the key, newest first, from the
newest of all or from the given one on.
-/
import Mathlib.Data.List.Basic
import Mathlib.Data.List.Induction
import Mathlib.Logic.Function.Basic

/-! ## Hash tables -/

/-- A hash table, by what a lookup returns. -/
abbrev HashTable (κ ν : Type*) := κ → Option ν

namespace HashTable

variable {κ ν : Type*} [DecidableEq κ]

/-- A table without entries. -/
def empty : HashTable κ ν := fun _ => none

/-- Look up a key. -/
def lookup (t : HashTable κ ν) (k : κ) : Option ν := t k

/-- Remove an entry without freeing its value. -/
def steal (t : HashTable κ ν) (k : κ) : HashTable κ ν := Function.update t k none

/-- Set an entry, replacing one that is there. -/
def insert (t : HashTable κ ν) (k : κ) (v : ν) : HashTable κ ν := Function.update t k (some v)

theorem steal_insert (t : HashTable κ ν) (k : κ) (v : ν) :
    (t.steal k).insert k v = t.insert k v := by
  unfold steal insert
  rw [Function.update_idem]

theorem lookup_insert (t : HashTable κ ν) (k k' : κ) (v : ν) :
    (t.insert k v).lookup k' = if k' = k then some v else t.lookup k' :=
  Function.update_apply t k (some v) k'

/-- A table filled by insertions has under each key what the last insertion with it left. -/
theorem lookup_foldl_insert {α : Type*} (key : α → κ) (val : α → ν) (xs : List α) (k : κ) :
    (xs.foldl (fun t x => t.insert (key x) (val x)) empty).lookup k
      = ((xs.filter fun x => key x = k).getLast?).map val := by
  induction xs using List.reverseRecOn with
  | nil => rfl
  | append_singleton xs x ih =>
      rw [List.foldl_concat, lookup_insert, ih, List.filter_append]
      by_cases hk : k = key x
      · simp [hk]
      · simp [hk, Ne.symm hk]

end HashTable

namespace Chain

/-! ## Positions below a bound -/

/-- The largest position below `n` with property `P`. -/
def newestBelow (P : ℕ → Bool) : ℕ → Option ℕ
  | 0 => none
  | n + 1 => if P n then some n else newestBelow P n

/-- The positions below `n` with property `P`, newest first. -/
def below (P : ℕ → Bool) : ℕ → List ℕ
  | 0 => []
  | n + 1 => if P n then n :: below P n else below P n

theorem mem_below {P : ℕ → Bool} {n q : ℕ} : q ∈ below P n ↔ q < n ∧ P q = true := by
  induction n with
  | zero => simp [below]
  | succ n ih =>
      rw [below]
      by_cases hn : P n
      · rw [if_pos hn, List.mem_cons, ih]
        constructor
        · rintro (rfl | ⟨hq, hP⟩)
          · exact ⟨Nat.lt_succ_self _, hn⟩
          · exact ⟨Nat.lt_succ_of_lt hq, hP⟩
        · rintro ⟨hq, hP⟩
          rcases Nat.lt_succ_iff_lt_or_eq.mp hq with hlt | rfl
          · exact Or.inr ⟨hlt, hP⟩
          · exact Or.inl rfl
      · rw [if_neg hn, ih]
        constructor
        · rintro ⟨hq, hP⟩
          exact ⟨Nat.lt_succ_of_lt hq, hP⟩
        · rintro ⟨hq, hP⟩
          rcases Nat.lt_succ_iff_lt_or_eq.mp hq with hlt | rfl
          · exact ⟨hlt, hP⟩
          · exact absurd hP hn

/-- The positions come in strictly decreasing order. -/
theorem below_pairwise (P : ℕ → Bool) (n : ℕ) : (below P n).Pairwise (· > ·) := by
  induction n with
  | zero => exact List.Pairwise.nil
  | succ n ih =>
      rw [below]
      by_cases hn : P n
      · rw [if_pos hn]
        exact List.pairwise_cons.mpr ⟨fun q hq => (mem_below.mp hq).1, ih⟩
      · rw [if_neg hn]
        exact ih

theorem below_nodup (P : ℕ → Bool) (n : ℕ) : (below P n).Nodup :=
  (below_pairwise P n).imp fun h => Nat.ne_of_gt h

/-- `newestBelow` finds a position with the property, and none above it has it. -/
theorem newestBelow_eq_some {P : ℕ → Bool} {n q : ℕ} :
    newestBelow P n = some q ↔ q < n ∧ P q = true ∧ ∀ r, q < r → r < n → P r = false := by
  induction n with
  | zero => simp [newestBelow]
  | succ n ih =>
      rw [newestBelow]
      by_cases hn : P n
      · rw [if_pos hn, Option.some_inj]
        constructor
        · rintro rfl
          exact ⟨Nat.lt_succ_self _, hn, fun r h1 h2 => absurd h1 (by omega)⟩
        · rintro ⟨hq, -, hmax⟩
          by_contra hne
          have := hmax n (by omega) (Nat.lt_succ_self n)
          rw [hn] at this
          exact absurd this (by simp)
      · rw [if_neg hn, ih]
        constructor
        · rintro ⟨hq, hP, hmax⟩
          refine ⟨Nat.lt_succ_of_lt hq, hP, fun r h1 h2 => ?_⟩
          rcases Nat.lt_succ_iff_lt_or_eq.mp h2 with hlt | rfl
          · exact hmax r h1 hlt
          · simpa using hn
        · rintro ⟨hq, hP, hmax⟩
          have hne : q ≠ n := by rintro rfl; exact hn hP
          exact ⟨by omega, hP, fun r h1 h2 => hmax r h1 (Nat.lt_succ_of_lt h2)⟩

theorem newestBelow_eq_none {P : ℕ → Bool} {n : ℕ} :
    newestBelow P n = none ↔ ∀ q < n, P q = false := by
  induction n with
  | zero => simp [newestBelow]
  | succ n ih =>
      rw [newestBelow]
      by_cases hn : P n
      · rw [if_pos hn]
        simp only [reduceCtorEq, false_iff]
        intro h
        have := h n (Nat.lt_succ_self n)
        rw [hn] at this
        exact absurd this (by simp)
      · rw [if_neg hn, ih]
        constructor
        · intro h q hq
          rcases Nat.lt_succ_iff_lt_or_eq.mp hq with hlt | rfl
          · exact h q hlt
          · simpa using hn
        · exact fun h q hq => h q (Nat.lt_succ_of_lt hq)

/-! ## Walking links -/

/-- Walk from `start` along `next`, at most `bound` steps: the positions visited
in order, `none` when the walk has not ended by then. -/
def follow (next : ℕ → Option ℕ) : ℕ → Option ℕ → Option (List ℕ)
  | _, none => some []
  | 0, some _ => none
  | bound + 1, some q => (follow next bound (next q)).map (q :: ·)

/-- Where every position with `P` links to the newest older one, the walk from the
newest below `n` visits exactly the positions below `n`. -/
theorem follow_newestBelow {P : ℕ → Bool} {next : ℕ → Option ℕ}
    (hnext : ∀ q, P q = true → next q = newestBelow P q) :
    ∀ n bound, n ≤ bound → follow next bound (newestBelow P n) = some (below P n) := by
  intro n
  induction n with
  | zero => intro bound _; rw [newestBelow, below, follow]
  | succ n ih =>
      intro bound hbound
      rw [newestBelow, below]
      -- position `n` takes one step of the bound, or none at all
      by_cases hn : P n
      · obtain ⟨b, rfl⟩ : ∃ b, bound = b + 1 := ⟨bound - 1, by omega⟩
        rw [if_pos hn, if_pos hn, follow, hnext n hn, ih b (by omega)]
        rfl
      · rw [if_neg hn, if_neg hn]
        exact ih bound (by omega)

/-! ## Records and one index over them -/

variable {α κ : Type*} [DecidableEq κ]

/-- Position `q` holds a record with key `k`. -/
def hasKey (key : α → κ) (recs : List α) (k : κ) (q : ℕ) : Bool := recs[q]?.any (key · = k)

theorem hasKey_eq_true {key : α → κ} {recs : List α} {k : κ} {q : ℕ} :
    hasKey key recs k q = true ↔ ∃ r, recs[q]? = some r ∧ key r = k := by
  simp [hasKey, Option.any_eq_true]

/-- A position with a key lies inside the list. -/
theorem lt_length_of_hasKey {key : α → κ} {recs : List α} {k : κ} {q : ℕ}
    (h : hasKey key recs k q = true) : q < recs.length := by
  obtain ⟨r, hr, -⟩ := hasKey_eq_true.mp h
  exact (List.getElem?_eq_some_iff.mp hr).1

/-- The positions of the records with a key. -/
theorem mem_below_hasKey {key : α → κ} {recs : List α} {k : κ} {q : ℕ} :
    q ∈ below (hasKey key recs k) recs.length ↔ ∃ r, recs[q]? = some r ∧ key r = k := by
  rw [mem_below, ← hasKey_eq_true]
  exact and_iff_right_of_imp lt_length_of_hasKey

theorem below_hasKey_ne_nil {key : α → κ} {recs : List α} {k : κ} :
    below (hasKey key recs k) recs.length ≠ [] ↔ ∃ r ∈ recs, key r = k := by
  constructor
  · intro h
    obtain ⟨q, hq⟩ := List.exists_mem_of_ne_nil _ h
    obtain ⟨r, hr, hk⟩ := mem_below_hasKey.mp hq
    exact ⟨r, List.mem_of_getElem? hr, hk⟩
  · rintro ⟨r, hr, hk⟩
    obtain ⟨q, hq⟩ := List.mem_iff_getElem?.mp hr
    exact List.ne_nil_of_mem (mem_below_hasKey.mpr ⟨r, hq, hk⟩)

/-- **The invariant of one index.**  The table holds the newest record of every
key, each record's link the newest older record with its key. -/
structure Linked (key : α → κ) (link : α → Option ℕ) (recs : List α) (table : HashTable κ ℕ) :
    Prop where
  table_eq : ∀ k, table k = newestBelow (hasKey key recs k) recs.length
  link_eq : ∀ q r, recs[q]? = some r → link r = newestBelow (hasKey key recs (key r)) q

/-- The keys below a bound do not change when a record is appended. -/
theorem newestBelow_hasKey_append {key : α → κ} {recs : List α} (r : α) (k : κ) {n : ℕ}
    (hn : n ≤ recs.length) :
    newestBelow (hasKey key (recs ++ [r]) k) n = newestBelow (hasKey key recs k) n := by
  induction n with
  | zero => rfl
  | succ n ih =>
      have hlt : n < recs.length := hn
      have hsame : hasKey key (recs ++ [r]) k n = hasKey key recs k n := by
        unfold hasKey
        rw [List.getElem?_append_left hlt]
      rw [newestBelow, newestBelow, hsame, ih (by omega)]

variable {key : α → κ} {link : α → Option ℕ} {recs : List α} {table : HashTable κ ℕ}

theorem Linked.empty : Linked key link [] HashTable.empty where
  table_eq := fun _ => rfl
  link_eq := fun q r h => by simp at h

/-- **Putting a record in front of its chain keeps the invariant.** -/
theorem Linked.push (h : Linked key link recs table) {r : α} (hr : link r = table (key r)) :
    Linked key link (recs ++ [r]) (table.insert (key r) recs.length) where
  table_eq := by
    intro k
    have hlast : hasKey key (recs ++ [r]) k recs.length = decide (key r = k) := by
      simp [hasKey]
    rw [List.length_append, List.length_singleton, newestBelow, hlast,
      newestBelow_hasKey_append r k (Nat.le_refl _), ← h.table_eq k]
    unfold HashTable.insert
    by_cases hk : key r = k
    · rw [if_pos (by simpa using hk), hk, Function.update_self]
    · rw [if_neg (by simpa using hk), Function.update_of_ne (Ne.symm hk)]
  link_eq := by
    intro q s hs
    -- older records keep their links, the new one has what the table held
    rcases Nat.lt_trichotomy q recs.length with hlt | rfl | hgt
    · rw [List.getElem?_append_left hlt] at hs
      rw [h.link_eq q s hs, newestBelow_hasKey_append r _ (by omega)]
    · rw [List.getElem?_concat_length, Option.some_inj] at hs
      rw [← hs, hr, h.table_eq, newestBelow_hasKey_append r _ (Nat.le_refl _)]
    · rw [List.getElem?_eq_none (by simp; omega)] at hs
      exact absurd hs (by simp)

/-- The link of the record at a position. -/
def next (link : α → Option ℕ) (recs : List α) (q : ℕ) : Option ℕ := recs[q]?.bind link

/-- On the records of a key, the links lead to the newest older ones. -/
theorem Linked.next_eq (h : Linked key link recs table) {k : κ} {q : ℕ}
    (hq : hasKey key recs k q = true) :
    next link recs q = newestBelow (hasKey key recs k) q := by
  obtain ⟨r, hr, rfl⟩ := hasKey_eq_true.mp hq
  rw [next, hr, Option.bind_some, h.link_eq q r hr]

/-- **The chain of a key** ends and holds exactly its records, newest first. -/
theorem Linked.follow_table (h : Linked key link recs table) (k : κ) :
    follow (next link recs) recs.length (table k)
      = some (below (hasKey key recs k) recs.length) := by
  rw [h.table_eq k]
  exact follow_newestBelow (fun q hq => h.next_eq hq) _ _ (Nat.le_refl _)

/-- **The rest of a chain from a record on** ends and holds exactly the records
with its key that are not newer. -/
theorem Linked.follow_record (h : Linked key link recs table) {q : ℕ} {r : α}
    (hr : recs[q]? = some r) :
    follow (next link recs) recs.length (some q)
      = some (below (hasKey key recs (key r)) (q + 1)) := by
  have hq : hasKey key recs (key r) q = true := hasKey_eq_true.mpr ⟨r, hr, rfl⟩
  have hstart : some q = newestBelow (hasKey key recs (key r)) (q + 1) := by
    rw [newestBelow, if_pos hq]
  rw [hstart]
  exact follow_newestBelow (fun s hs => h.next_eq hs) _ _ (lt_length_of_hasKey hq)

/-! ## The chains of all keys -/

/-- The chain of a key: the walk from its table entry. -/
def chain (link : α → Option ℕ) (recs : List α) (table : HashTable κ ℕ) (k : κ) :
    Option (List ℕ) :=
  follow (next link recs) recs.length (table.lookup k)

/-- Every chain ends and holds the records of its key, each once, newest first; a key
without records has no entry; and the walk from any record on ends. -/
structure Sound (key : α → κ) (link : α → Option ℕ) (recs : List α) (table : HashTable κ ℕ) :
    Prop where
  chain : ∀ k, ∃ qs, chain link recs table k = some qs ∧ qs.Pairwise (· > ·) ∧
    ∀ q, q ∈ qs ↔ ∃ r, recs[q]? = some r ∧ key r = k
  no_entry : ∀ k, table.lookup k = none ↔ ∀ r ∈ recs, key r ≠ k
  walk : ∀ q < recs.length, ∃ qs, follow (next link recs) recs.length (some q) = some qs

theorem Linked.chain_eq (h : Linked key link recs table) (k : κ) :
    Chain.chain link recs table k = some (below (hasKey key recs k) recs.length) :=
  h.follow_table k

/-- **A linked index is sound.** -/
theorem Linked.sound (h : Linked key link recs table) : Sound key link recs table where
  chain := by
    intro k
    exact ⟨_, h.chain_eq k, below_pairwise _ _, fun q => mem_below_hasKey⟩
  no_entry := by
    intro k
    show table k = none ↔ _
    rw [h.table_eq k, newestBelow_eq_none]
    constructor
    · intro hnone r hr hk
      obtain ⟨q, hq, hget⟩ := List.mem_iff_getElem.mp hr
      have hkey : hasKey key recs k q = true :=
        hasKey_eq_true.mpr ⟨r, by rw [List.getElem?_eq_getElem hq, hget], hk⟩
      rw [hnone q hq] at hkey
      exact absurd hkey (by simp)
    · intro hne q _
      by_contra hkey
      obtain ⟨r, hr, hk⟩ := hasKey_eq_true.mp (by simpa using hkey)
      exact hne r (List.mem_of_getElem? hr) hk
  walk := fun q hq => ⟨_, h.follow_record (List.getElem?_eq_getElem hq)⟩

/-- The positions with another key than that of an appended record stay. -/
theorem below_hasKey_append {r : α} {k : κ} (hk : key r ≠ k) :
    below (hasKey key (recs ++ [r]) k) (recs ++ [r]).length
      = below (hasKey key recs k) recs.length := by
  have hlast : hasKey key (recs ++ [r]) k recs.length = false := by
    simp [hasKey, hk]
  have hsame : ∀ n ≤ recs.length,
      below (hasKey key (recs ++ [r]) k) n = below (hasKey key recs k) n := by
    intro n hn
    induction n with
    | zero => rfl
    | succ n ih =>
        have hget : hasKey key (recs ++ [r]) k n = hasKey key recs k n := by
          unfold hasKey
          rw [List.getElem?_append_left (by omega)]
        rw [below, below, hget, ih (by omega)]
  rw [List.length_append, List.length_singleton, below, hlast, if_neg (by simp)]
  exact hsame _ (Nat.le_refl _)

/-- **Two linked indexes that differ by one record** have the same chain for every other
key. -/
theorem Linked.chain_append {r : α} {table' : HashTable κ ℕ} (h : Linked key link recs table)
    (h' : Linked key link (recs ++ [r]) table') {k : κ} (hk : key r ≠ k) :
    Chain.chain link (recs ++ [r]) table' k = Chain.chain link recs table k := by
  rw [h.chain_eq, h'.chain_eq, below_hasKey_append hk]

end Chain
