/-
# Execution lists (`execlist.c`)

`execlist_build` lists what is to be executed.  With a command it is that command
alone.  Without one it enters the table of bindings by command id at its newest
host, and from there follows the chain of addresses or of names of that host, not
the chain of its command; then the same for services.

Two questions about these walks have exact answers: whether they find every host
and service bound to the command under the given key
(`execlistBuild_complete_iff`), and whether they find no others
(`execlistBuild_associated_iff`).
-/
import NagiosTrapd.Db

namespace Trapd

/-! ## Building a list -/

/-- `is_service`: 0, 1 or -1 where the plugin is to decide. -/
inductive IsService
  | no | yes | maybe
  deriving DecidableEq, Repr

/-- `struct execlist_t`. -/
structure ExeclistItem where
  command : Option Str
  is_service : IsService
  host : Option ℕ
  svc : Option ℕ
  deriving DecidableEq, Repr

/-- `execlist_append`. -/
def execlistAppend (execlist : List ExeclistItem) (command : Option Str) (is_service : IsService)
    (host svc : Option ℕ) : List ExeclistItem :=
  execlist ++ [⟨xstrdup command, is_service, host, svc⟩]

/-- The `while` loop over hosts or services, from `start` on: what is extracted from
each is compared with `key`.  At most `bound` steps are made. -/
def matchLoop (lookup : Option ℕ → LookupFlag → Except Fault (Option ℕ))
    (extract : ℕ → Option Str) (append : List ExeclistItem → ℕ → List ExeclistItem)
    (flags : LookupFlag) (key : Str) :
    ℕ → Option ℕ → List ExeclistItem → Except Fault (List ExeclistItem)
  | _, none, execlist => .ok execlist
  | 0, some _, _ => .error .endless
  | bound + 1, some q, execlist =>
      match extract q with
      -- strcmp(key, NULL)
      | none => .error .nullString
      | some text => do
          let next ← lookup (some q) flags
          matchLoop lookup extract append flags key bound next
            (if key = text then append execlist q else execlist)

/-- One of the fields of `db.c` that a loop compares. -/
abbrev Extract := Db → Option ℕ → Option ℕ → Option Str

/-- The loop over hosts. -/
def matchHosts (db : Db) (cmd_id : ℤ) (flags : LookupFlag) (extract : Extract) (key : Str)
    (execlist : List ExeclistItem) : Except Fault (List ExeclistItem) := do
  let host ← dbLookupHostByCmdId db cmd_id none .none
  matchLoop (dbLookupHostByCmdId db cmd_id) (fun q => extract db (some q) none)
    (fun l q => execlistAppend l (dbExtractExpandedText db (some q) none) .no (some q) none)
    flags key db.hosts.nodes.length host execlist

/-- The loop over services. -/
def matchSvcs (db : Db) (cmd_id : ℤ) (flags : LookupFlag) (extract : Extract) (key : Str)
    (execlist : List ExeclistItem) : Except Fault (List ExeclistItem) := do
  let svc ← dbLookupSvcByCmdId db cmd_id none .none
  matchLoop (dbLookupSvcByCmdId db cmd_id) (fun q => extract db none (some q))
    (fun l q => execlistAppend l (dbExtractExpandedText db none (some q)) .yes none (some q))
    flags key db.svcs.nodes.length svc execlist

/-- The two loops of one branch of `execlist_build`. -/
def matchBoth (db : Db) (cmd_id : ℤ) (flags : LookupFlag) (extract : Extract) (key : Str) :
    Except Fault (List ExeclistItem) := do
  let execlist ← matchHosts db cmd_id flags extract key []
  matchSvcs db cmd_id flags extract key execlist

/-- `execlist_build`; the empty list is the NULL it returns. -/
def execlistBuild (db : Db) (command : Option Str) (cmd_id : ℤ) (use_sender_address : Bool)
    (sender_address host_address host_name : Option Str) : Except Fault (List ExeclistItem) :=
  if !isEmpty command then
    .ok (execlistAppend [] (commandExpand2 command host_address sender_address) .no none none)
  else if command ≠ none then .error .assertion
  -- the host address has priority, the host name comes second
  else if !isEmpty host_address then
    matchBoth db cmd_id .nextByHostAddress dbExtractHostAddress (host_address.getD [])
  else if !isEmpty host_name then
    matchBoth db cmd_id .nextByHostName dbExtractHostName (host_name.getD [])
  else if !isEmpty sender_address then
    if use_sender_address then
      matchBoth db cmd_id .nextByHostAddress dbExtractHostAddress (sender_address.getD [])
    else do
      -- no host is known yet: the plugin of the command is to name one
      let text ← dbLookupExpandedTextByCmdId db cmd_id
      .ok (execlistAppend [] (commandExpand2 text none sender_address) .maybe none none)
  else .ok []

/-! ## The key of a search -/

/-- What hosts and services are searched by. -/
inductive Key
  | address (a : Str)
  | name (n : Str)
  deriving DecidableEq, Repr

namespace Key

/-- The text that is compared. -/
def text : Key → Str
  | address a => a
  | name n => n

/-- The field of a host or service that is compared. -/
def field {δ : Type} : Key → Node δ → Str
  | address _, n => n.host_address.1
  | name _, n => n.host_name.1

/-- The chain that is followed. -/
def flag : Key → LookupFlag
  | address _ => .nextByHostAddress
  | name _ => .nextByHostName

/-- The function that reads the field. -/
def extract : Key → Extract
  | address _ => dbExtractHostAddress
  | name _ => dbExtractHostName

/-- A host or service has this key. -/
def Matches {δ : Type} (key : Key) (n : Node δ) : Prop := key.field n = key.text

instance {δ : Type} (key : Key) (n : Node δ) : Decidable (key.Matches n) :=
  inferInstanceAs (Decidable (key.field n = key.text))

end Key

/-- **The three searching branches of `execlist_build`**, by `use_sender_address`,
sender address, host address and host name: the address comes first, then the
name, then the address of the sender where it is to be used. -/
inductive SearchKey : Bool → Option Str → Option Str → Option Str → Key → Prop
  | address {u : Bool} {s n : Option Str} {a : Str} (ha : a ≠ []) :
      SearchKey u s (some a) n (.address a)
  | name {u : Bool} {s a : Option Str} {n : Str} (ha : isEmpty a = true) (hn : n ≠ []) :
      SearchKey u s a (some n) (.name n)
  | sender {a n : Option Str} {s : Str} (ha : isEmpty a = true) (hn : isEmpty n = true)
      (hs : s ≠ []) : SearchKey true (some s) a n (.address s)

/-- Each of the three branches is the same pair of loops. -/
theorem execlistBuild_searchKey {db : Db} {cmd_id : ℤ} {u : Bool} {s a n : Option Str} {key : Key}
    (h : SearchKey u s a n key) :
    execlistBuild db none cmd_id u s a n = matchBoth db cmd_id key.flag key.extract key.text := by
  unfold execlistBuild
  rw [if_neg (by simp), if_neg (by simp)]
  cases h with
  | address ha =>
      rw [if_pos (by simpa using ha)]
      rfl
  | name ha hn =>
      rw [if_neg (by simp [ha]), if_pos (by simpa using hn)]
      rfl
  | sender ha hn hs =>
      rw [if_neg (by simp [ha]), if_neg (by simp [hn]), if_pos (by simpa using hs), if_pos rfl]
      rfl

/-! ## What one loop finds -/

/-- Run over the positions of a chain, the loop appends those whose text is the key. -/
theorem matchLoop_of_follow {lookup : Option ℕ → LookupFlag → Except Fault (Option ℕ)}
    {extract : ℕ → Option Str} {append : List ExeclistItem → ℕ → List ExeclistItem}
    {flags : LookupFlag} {key : Str} {next : ℕ → Option ℕ} {item : ℕ → ExeclistItem}
    (hlookup : ∀ q, lookup (some q) flags = .ok (next q))
    (happend : ∀ l q, append l q = l ++ [item q]) :
    ∀ (bound : ℕ) (start : Option ℕ) (visited : List ℕ) (l : List ExeclistItem),
      Chain.follow next bound start = some visited → (∀ q ∈ visited, extract q ≠ none) →
      matchLoop lookup extract append flags key bound start l
        = .ok (l ++ (visited.filter fun q => extract q = some key).map item) := by
  intro bound
  -- on the bound of the walk, which goes to the end of the chain
  induction bound with
  | zero =>
      intro start visited l hfollow _
      cases start with
      | none =>
          obtain rfl : [] = visited := by simpa [Chain.follow] using hfollow
          simp [matchLoop]
      | some q => simp [Chain.follow] at hfollow
  | succ bound ih =>
      intro start visited l hfollow hextract
      cases start with
      | none =>
          obtain rfl : [] = visited := by simpa [Chain.follow] using hfollow
          simp [matchLoop]
      | some q =>
          rw [Chain.follow, Option.map_eq_some_iff] at hfollow
          obtain ⟨rest, hrest, rfl⟩ := hfollow
          have hq := hextract q List.mem_cons_self
          obtain ⟨text, htext⟩ := Option.ne_none_iff_exists'.mp hq
          have hstep := ih (next q) rest (if key = text then append l q else l) hrest
            fun r hr => hextract r (List.mem_cons_of_mem q hr)
          rw [matchLoop, htext]
          simp only [hlookup q, bind, Except.bind]
          rw [hstep, List.filter_cons, htext]
          by_cases hkey : key = text
          · subst hkey
            simp [happend]
          · have hne : ¬ text = key := fun h => hkey h.symm
            simp [hkey, hne]

namespace Chains

variable {δ : Type} (t : Chains δ)

/-- The positions of the hosts or services with a key. -/
def hasKey (key : Key) (q : ℕ) : Bool := Chain.hasKey key.field t.nodes key.text q

/-- The newest of the hosts or services bound to a command. -/
def NewestBound (cmd_id : ℤ) (i : ℕ) (n : Node δ) : Prop :=
  t.nodes[i]? = some n ∧ n.cmd_id = cmd_id ∧
    ∀ j m, i < j → t.nodes[j]? = some m → m.cmd_id ≠ cmd_id

/-- What a branch of `execlist_build` finds, newest first. -/
def found (cmd_id : ℤ) (key : Key) : List ℕ :=
  match t.by_cmd_id.lookup cmd_id with
  | none => []
  | some i => if t.hasKey key i then Chain.below (t.hasKey key) (i + 1) else []

/-- A chain of keys is linked through the next pointers that its flag selects. -/
theorem linked_key (key : Key) : ∃ table,
    Chain.Linked key.field (Node.next key.flag) t.nodes table := by
  cases key with
  | address a => exact ⟨_, t.linked_host_address⟩
  | name n => exact ⟨_, t.linked_host_name⟩

/-- The table of command ids holds the newest host or service bound to each. -/
theorem lookup_by_cmd_id_eq_some {cmd_id : ℤ} {i : ℕ} :
    t.by_cmd_id.lookup cmd_id = some i ↔ ∃ n, t.NewestBound cmd_id i n := by
  unfold HashTable.lookup NewestBound
  rw [t.linked_cmd_id.table_eq, Chain.newestBelow_eq_some, Chain.hasKey_eq_true]
  constructor
  · rintro ⟨-, ⟨n, hn, hcmd⟩, hmax⟩
    refine ⟨n, hn, hcmd, fun j m hij hm hm' => ?_⟩
    have hj := hmax j hij (List.getElem?_eq_some_iff.mp hm).1
    rw [Chain.hasKey_eq_true.mpr ⟨m, hm, hm'⟩] at hj
    exact absurd hj (by simp)
  · rintro ⟨n, hn, hcmd, hmax⟩
    refine ⟨(List.getElem?_eq_some_iff.mp hn).1, ⟨n, hn, hcmd⟩, fun r hir _ => ?_⟩
    by_contra hr
    obtain ⟨m, hm, hm'⟩ := Chain.hasKey_eq_true.mp (by simpa using hr)
    exact hmax r m hir hm hm'

/-- There is one newest. -/
theorem NewestBound.unique {t : Chains δ} {cmd_id : ℤ} {i j : ℕ} {n m : Node δ}
    (hn : t.NewestBound cmd_id i n) (hm : t.NewestBound cmd_id j m) : i = j ∧ n = m := by
  have hij : some i = some j :=
    ((t.lookup_by_cmd_id_eq_some).mpr ⟨n, hn⟩).symm.trans
      ((t.lookup_by_cmd_id_eq_some).mpr ⟨m, hm⟩)
  obtain rfl := Option.some_inj.mp hij
  exact ⟨rfl, Option.some_inj.mp (hn.1.symm.trans hm.1)⟩

/-- A command with a bound host or service has a newest one. -/
theorem exists_newestBound {cmd_id : ℤ} {q : ℕ} {n : Node δ} (hn : t.nodes[q]? = some n)
    (hcmd : n.cmd_id = cmd_id) : ∃ i m, t.NewestBound cmd_id i m := by
  cases hi : t.by_cmd_id.lookup cmd_id with
  | some i => exact ⟨i, (t.lookup_by_cmd_id_eq_some).mp hi⟩
  | none =>
      unfold HashTable.lookup at hi
      rw [t.linked_cmd_id.table_eq, Chain.newestBelow_eq_none] at hi
      have hq := hi q (List.getElem?_eq_some_iff.mp hn).1
      rw [Chain.hasKey_eq_true.mpr ⟨n, hn, hcmd⟩] at hq
      exact absurd hq (by simp)

/-- **What is found**: nothing, unless the newest host or service bound to the
command has the key, and then it and all older ones with the key, whatever command
they are bound to. -/
theorem mem_found {cmd_id : ℤ} {key : Key} {q : ℕ} :
    q ∈ t.found cmd_id key ↔
      ∃ i n m, t.NewestBound cmd_id i n ∧ key.Matches n ∧ q ≤ i ∧
        t.nodes[q]? = some m ∧ key.Matches m := by
  unfold found
  cases hi : t.by_cmd_id.lookup cmd_id with
  | none =>
      simp only [List.not_mem_nil, false_iff]
      rintro ⟨i, n, m, hn, -⟩
      rw [(t.lookup_by_cmd_id_eq_some).mpr ⟨n, hn⟩] at hi
      exact absurd hi (by simp)
  | some i =>
      obtain ⟨n, hn⟩ := (t.lookup_by_cmd_id_eq_some).mp hi
      simp only
      constructor
      · intro hq
        by_cases hk : t.hasKey key i
        · rw [if_pos hk, Chain.mem_below] at hq
          obtain ⟨n', hn', hkn⟩ := Chain.hasKey_eq_true.mp hk
          obtain ⟨m, hm, hkm⟩ := Chain.hasKey_eq_true.mp hq.2
          obtain rfl : n = n' := Option.some_inj.mp (hn.1.symm.trans hn')
          exact ⟨i, n, m, hn, hkn, Nat.lt_succ_iff.mp hq.1, hm, hkm⟩
        · rw [if_neg hk] at hq
          exact absurd hq List.not_mem_nil
      · rintro ⟨i', n', m, hn', hkn, hqi, hm, hkm⟩
        obtain ⟨rfl, rfl⟩ := hn.unique hn'
        have hk : t.hasKey key i = true := Chain.hasKey_eq_true.mpr ⟨n, hn.1, hkn⟩
        rw [if_pos hk, Chain.mem_below]
        exact ⟨Nat.lt_succ_iff.mpr hqi, Chain.hasKey_eq_true.mpr ⟨m, hm, hkm⟩⟩

theorem found_nodup (cmd_id : ℤ) (key : Key) : (t.found cmd_id key).Nodup := by
  unfold found
  cases t.by_cmd_id.lookup cmd_id with
  | none => exact List.nodup_nil
  | some i =>
      by_cases hk : t.hasKey key i
      · simpa [hk] using Chain.below_nodup _ _
      · simp [hk]

/-- The loop over a chain ends and appends what is found. -/
theorem matchLoop_found {cmd_id : ℤ} {key : Key}
    {lookup : Option ℕ → LookupFlag → Except Fault (Option ℕ)}
    {extract : ℕ → Option Str} {append : List ExeclistItem → ℕ → List ExeclistItem}
    (item : ℕ → ExeclistItem) (l : List ExeclistItem)
    (hlookup : ∀ q, lookup (some q) key.flag = .ok (t.next key.flag q))
    (hextract : ∀ q, extract q = t.nodes[q]?.map key.field)
    (happend : ∀ l q, append l q = l ++ [item q]) :
    matchLoop lookup extract append key.flag key.text t.nodes.length
        (t.by_cmd_id.lookup cmd_id) l
      = .ok (l ++ (t.found cmd_id key).map item) := by
  unfold found
  cases hi : t.by_cmd_id.lookup cmd_id with
  | none => simp [matchLoop]
  | some i =>
      obtain ⟨n, hn⟩ := (t.lookup_by_cmd_id_eq_some).mp hi
      obtain ⟨table, hlinked⟩ := t.linked_key key
      -- the walk stays among the records that share the field of the entry point
      have hfollow := hlinked.follow_record hn.1
      have hfield : ∀ q ∈ Chain.below (Chain.hasKey key.field t.nodes (key.field n)) (i + 1),
          extract q = some (key.field n) := by
        intro q hq
        obtain ⟨m, hm, hkm⟩ := Chain.hasKey_eq_true.mp (Chain.mem_below.mp hq).2
        rw [hextract q, hm, Option.map_some, hkm]
      rw [matchLoop_of_follow hlookup happend _ _ _ l hfollow
        fun q hq => by rw [hfield q hq]; simp]
      have hkey : t.hasKey key i = decide (key.field n = key.text) := by
        unfold hasKey Chain.hasKey
        rw [hn.1]
        rfl
      by_cases hk : key.field n = key.text
      · rw [List.filter_eq_self.mpr fun q hq => by simp [hfield q hq, hk], hk]
        simp only [hkey, hk, decide_true, if_true]
        rfl
      · rw [List.filter_eq_nil_iff.mpr fun q hq => by simp [hfield q hq, hk]]
        simp [hkey, hk]

end Chains

/-! ## What a branch finds -/

/-- The item for a stored host. -/
def hostItem (db : Db) (q : ℕ) : ExeclistItem :=
  ⟨xstrdup (dbExtractExpandedText db (some q) none), .no, some q, none⟩

/-- The item for a stored service. -/
def svcItem (db : Db) (q : ℕ) : ExeclistItem :=
  ⟨xstrdup (dbExtractExpandedText db none (some q)), .yes, none, some q⟩

theorem hostItem_eq {db : Db} {q : ℕ} {n : Host} (hn : db.hosts.nodes[q]? = some n) :
    hostItem db q = ⟨some n.expanded_text.1, .no, some q, none⟩ := by
  have htext : dbExtractExpandedText db (some q) none = some n.expanded_text.1 := by
    show db.hosts.nodes[q]?.map _ = _
    rw [hn]
    rfl
  rw [hostItem, htext, xstrdup_text]

theorem svcItem_eq {db : Db} {q : ℕ} {n : Svc} (hn : db.svcs.nodes[q]? = some n) :
    svcItem db q = ⟨some n.expanded_text.1, .yes, none, some q⟩ := by
  have htext : dbExtractExpandedText db none (some q) = some n.expanded_text.1 := by
    show db.svcs.nodes[q]?.map _ = _
    rw [hn]
    rfl
  rw [svcItem, htext, xstrdup_text]

/-- The loop over hosts appends the hosts that are found. -/
theorem matchHosts_eq {db : Db} (hd : db.daemon ≠ none) (cmd_id : ℤ) (key : Key)
    (l : List ExeclistItem) :
    matchHosts db cmd_id key.flag key.extract key.text l
      = .ok (l ++ (db.hosts.found cmd_id key).map (hostItem db)) := by
  obtain ⟨d, hd⟩ := Option.ne_none_iff_exists'.mp hd
  have hhosts : d.hosts = db.hosts := by simp [Db.hosts, hd]
  have htables : db.tables = .ok d := by simp [Db.tables, hd]
  unfold matchHosts
  simp only [dbLookupHostByCmdId, htables, bind, Except.bind, hhosts]
  exact db.hosts.matchLoop_found (hostItem db) l (fun _ => rfl)
    (fun q => by cases key <;> rfl) (fun _ _ => rfl)

/-- The loop over services appends the services that are found. -/
theorem matchSvcs_eq {db : Db} (hd : db.daemon ≠ none) (cmd_id : ℤ) (key : Key)
    (l : List ExeclistItem) :
    matchSvcs db cmd_id key.flag key.extract key.text l
      = .ok (l ++ (db.svcs.found cmd_id key).map (svcItem db)) := by
  obtain ⟨d, hd⟩ := Option.ne_none_iff_exists'.mp hd
  have hsvcs : d.svcs = db.svcs := by simp [Db.svcs, hd]
  have htables : db.tables = .ok d := by simp [Db.tables, hd]
  unfold matchSvcs
  simp only [dbLookupSvcByCmdId, htables, bind, Except.bind, hsvcs]
  exact db.svcs.matchLoop_found (svcItem db) l (fun _ => rfl)
    (fun q => by cases key <;> rfl) (fun _ _ => rfl)

/-- **A searching branch ends and lists the hosts, then the services it finds.** -/
theorem matchBoth_eq {db : Db} (hd : db.daemon ≠ none) (cmd_id : ℤ) (key : Key) :
    matchBoth db cmd_id key.flag key.extract key.text
      = .ok ((db.hosts.found cmd_id key).map (hostItem db)
          ++ (db.svcs.found cmd_id key).map (svcItem db)) := by
  unfold matchBoth
  rw [matchHosts_eq hd]
  exact matchSvcs_eq hd cmd_id key _

/-- The hosts a list was built from, -/
theorem filterMap_host_items (db : Db) (hosts svcs : List ℕ) :
    (hosts.map (hostItem db) ++ svcs.map (svcItem db)).filterMap ExeclistItem.host = hosts := by
  rw [List.filterMap_append, List.filterMap_map, List.filterMap_map]
  have hhost : (ExeclistItem.host ∘ hostItem db) = some := rfl
  have hsvc : (ExeclistItem.host ∘ svcItem db) = fun _ => none := rfl
  rw [hhost, hsvc, List.filterMap_some]
  simp

/-- and the services. -/
theorem filterMap_svc_items (db : Db) (hosts svcs : List ℕ) :
    (hosts.map (hostItem db) ++ svcs.map (svcItem db)).filterMap ExeclistItem.svc = svcs := by
  rw [List.filterMap_append, List.filterMap_map, List.filterMap_map]
  have hhost : (ExeclistItem.svc ∘ hostItem db) = fun _ => none := rfl
  have hsvc : (ExeclistItem.svc ∘ svcItem db) = some := rfl
  rw [hhost, hsvc, List.filterMap_some]
  simp

/-! ## No associated host or service is missed -/

/-- The list has an item for every stored host and service bound to the command
under the key. -/
def Complete (db : Db) (cmd_id : ℤ) (key : Key) (execlist : List ExeclistItem) : Prop :=
  (∀ q n, db.hosts.nodes[q]? = some n → n.cmd_id = cmd_id → key.Matches n →
    ∃ item ∈ execlist, item.host = some q) ∧
  (∀ q n, db.svcs.nodes[q]? = some n → n.cmd_id = cmd_id → key.Matches n →
    ∃ item ∈ execlist, item.svc = some q)

/-- If anything bound to the command has the key, then the newest thing bound to it has. -/
def Chains.NewestMatches {δ : Type} (t : Chains δ) (cmd_id : ℤ) (key : Key) : Prop :=
  (∃ n ∈ t.nodes, n.cmd_id = cmd_id ∧ key.Matches n) →
    ∀ i n, t.NewestBound cmd_id i n → key.Matches n

/-- One index finds all that is bound under the key exactly when the newest does. -/
theorem Chains.found_complete_iff {δ : Type} (t : Chains δ) (cmd_id : ℤ) (key : Key) :
    (∀ q n, t.nodes[q]? = some n → n.cmd_id = cmd_id → key.Matches n → q ∈ t.found cmd_id key)
      ↔ t.NewestMatches cmd_id key := by
  constructor
  · rintro h ⟨n, hn, hcmd, hkey⟩ i m hm
    obtain ⟨q, hq⟩ := List.mem_iff_getElem?.mp hn
    obtain ⟨j, m', -, hm', hkm, -⟩ := t.mem_found.mp (h q n hq hcmd hkey)
    rwa [(hm.unique hm').2]
  · intro h q n hq hcmd hkey
    obtain ⟨i, m, hm⟩ := t.exists_newestBound hq hcmd
    have hqi : q ≤ i := by
      by_contra hlt
      exact hm.2.2 q n (Nat.lt_of_not_le hlt) hq hcmd
    exact t.mem_found.mpr
      ⟨i, m, n, hm, h ⟨n, List.mem_of_getElem? hq, hcmd, hkey⟩ i m hm, hqi, hq, hkey⟩

/-- **No associated host or service is missed** by a search, exactly when, among the
hosts as among the services, the newest bound to the command has the key as soon as
any of them has. -/
theorem execlistBuild_complete_iff (resources : HashTable Str Resource) (rows : DbRows)
    (cmd_id : ℤ) (use_sender_address : Bool) (sender_address host_address host_name : Option Str)
    (key : Key)
    (hkey : SearchKey use_sender_address sender_address host_address host_name key) :
    (∃ execlist,
        execlistBuild (daemonDb resources rows) none cmd_id use_sender_address sender_address
          host_address host_name = .ok execlist ∧
        Complete (daemonDb resources rows) cmd_id key execlist)
      ↔ (daemonDb resources rows).hosts.NewestMatches cmd_id key ∧
          (daemonDb resources rows).svcs.NewestMatches cmd_id key := by
  rw [execlistBuild_searchKey hkey, matchBoth_eq (by simp [daemonDb])]
  rw [← Chains.found_complete_iff, ← Chains.found_complete_iff]
  simp only [Except.ok.injEq, exists_eq_left', Complete, ← List.mem_filterMap,
    filterMap_host_items, filterMap_svc_items]

/-- Two hosts of one command, the newer one at another address. -/
def twoAddresses : DbRows where
  resources := []
  commands := [⟨['1'], Text.single 'p', Text.single 'p', ['0']⟩]
  hosts :=
    [⟨Text.single 'h', Text.single 'a', ['1'], none⟩,
      ⟨Text.single 'k', Text.single 'b', ['1'], none⟩]
  svcs := []
  trap_handlers := []

/-- The search for the address of the newer host finds it. -/
theorem execlistBuild_complete_newest :
    SearchKey false none (some ['b']) none (.address ['b']) ∧
    ((∃ execlist,
        execlistBuild (daemonDb HashTable.empty twoAddresses) none 1 false none (some ['b']) none
          = .ok execlist ∧
        Complete (daemonDb HashTable.empty twoAddresses) 1 (.address ['b']) execlist)
      ↔ (daemonDb HashTable.empty twoAddresses).hosts.NewestMatches 1 (.address ['b']) ∧
          (daemonDb HashTable.empty twoAddresses).svcs.NewestMatches 1 (.address ['b'])) :=
  ⟨.address (by decide),
    execlistBuild_complete_iff HashTable.empty twoAddresses 1 false none (some ['b']) none
      (.address ['b']) (.address (by decide))⟩

/-- The older host is missed. -/
theorem execlistBuild_not_complete :
    ¬ ∀ (resources : HashTable Str Resource) (rows : DbRows) (cmd_id : ℤ)
        (use_sender_address : Bool) (sender_address host_address host_name : Option Str)
        (key : Key), SearchKey use_sender_address sender_address host_address host_name key →
        ∃ execlist,
          execlistBuild (daemonDb resources rows) none cmd_id use_sender_address sender_address
            host_address host_name = .ok execlist ∧
          Complete (daemonDb resources rows) cmd_id key execlist := by
  intro h
  obtain ⟨l, hl, hhosts, -⟩ := h HashTable.empty twoAddresses 1 false none (some ['a']) none
    (.address ['a']) (.address (by decide))
  have hnil : execlistBuild (daemonDb HashTable.empty twoAddresses) none 1 false none
      (some ['a']) none = .ok [] := by decide
  obtain rfl := Except.ok.inj (hnil.symm.trans hl)
  obtain ⟨item, hitem, -⟩ := hhosts 0 _ rfl rfl rfl
  exact absurd hitem List.not_mem_nil

/-! ## No other host or service is listed -/

/-- Every item is for a stored host or service bound to the command under the key,
with that host's or service's own expanded text, and none is listed twice. -/
def Associated (db : Db) (cmd_id : ℤ) (key : Key) (execlist : List ExeclistItem) : Prop :=
  (∀ item ∈ execlist,
    (∃ q n, db.hosts.nodes[q]? = some n ∧ n.cmd_id = cmd_id ∧ key.Matches n ∧
      item = ⟨some n.expanded_text.1, .no, some q, none⟩) ∨
    (∃ q n, db.svcs.nodes[q]? = some n ∧ n.cmd_id = cmd_id ∧ key.Matches n ∧
      item = ⟨some n.expanded_text.1, .yes, none, some q⟩)) ∧
  (execlist.filterMap ExeclistItem.host).Nodup ∧ (execlist.filterMap ExeclistItem.svc).Nodup

/-- If the newest thing bound to the command has the key, then everything older with
the key is bound to the command too. -/
def Chains.OlderBound {δ : Type} (t : Chains δ) (cmd_id : ℤ) (key : Key) : Prop :=
  ∀ i n, t.NewestBound cmd_id i n → key.Matches n →
    ∀ q m, q < i → t.nodes[q]? = some m → key.Matches m → m.cmd_id = cmd_id

/-- All that one index finds is bound to the command exactly when all that is older is. -/
theorem Chains.found_bound_iff {δ : Type} (t : Chains δ) (cmd_id : ℤ) (key : Key) :
    (∀ q ∈ t.found cmd_id key, ∃ n, t.nodes[q]? = some n ∧ n.cmd_id = cmd_id ∧ key.Matches n)
      ↔ t.OlderBound cmd_id key := by
  constructor
  · intro h i n hn hkey q m hqi hm hkm
    obtain ⟨m', hm', hcmd, -⟩ :=
      h q (t.mem_found.mpr ⟨i, n, m, hn, hkey, Nat.le_of_lt hqi, hm, hkm⟩)
    obtain rfl := Option.some_inj.mp (hm.symm.trans hm')
    exact hcmd
  · intro h q hq
    obtain ⟨i, n, m, hn, hkey, hqi, hm, hkm⟩ := t.mem_found.mp hq
    refine ⟨m, hm, ?_, hkm⟩
    rcases Nat.lt_or_eq_of_le hqi with hlt | rfl
    · exact h i n hn hkey q m hlt hm hkm
    · obtain rfl := Option.some_inj.mp (hn.1.symm.trans hm)
      exact hn.2.1

/-- **No other host or service is listed** by a search, exactly when, among the hosts
as among the services, the newest bound to the command does not have the key, or
everything older with the key is bound to the command too. -/
theorem execlistBuild_associated_iff (resources : HashTable Str Resource) (rows : DbRows)
    (cmd_id : ℤ) (use_sender_address : Bool) (sender_address host_address host_name : Option Str)
    (key : Key)
    (hkey : SearchKey use_sender_address sender_address host_address host_name key) :
    (∃ execlist,
        execlistBuild (daemonDb resources rows) none cmd_id use_sender_address sender_address
          host_address host_name = .ok execlist ∧
        Associated (daemonDb resources rows) cmd_id key execlist)
      ↔ (daemonDb resources rows).hosts.OlderBound cmd_id key ∧
          (daemonDb resources rows).svcs.OlderBound cmd_id key := by
  rw [execlistBuild_searchKey hkey, matchBoth_eq (by simp [daemonDb]),
    ← Chains.found_bound_iff, ← Chains.found_bound_iff]
  constructor
  · rintro ⟨l, hl, hitems, -⟩
    obtain rfl := Except.ok.inj hl
    constructor
    -- an item for a host is none for a service, so each kind is compared with its own table
    · intro q hq
      have hmem := List.mem_map_of_mem (f := hostItem (daemonDb resources rows)) hq
      rcases hitems _ (List.mem_append_left _ hmem) with
        ⟨q', n, hn, hcmd, hk, heq⟩ | ⟨q', n, -, -, -, heq⟩
      · obtain rfl := Option.some_inj.mp (congrArg ExeclistItem.host heq)
        exact ⟨n, hn, hcmd, hk⟩
      · exact absurd (congrArg ExeclistItem.host heq) (by simp [hostItem])
    · intro q hq
      have hmem := List.mem_map_of_mem (f := svcItem (daemonDb resources rows)) hq
      rcases hitems _ (List.mem_append_right _ hmem) with
        ⟨q', n, -, -, -, heq⟩ | ⟨q', n, hn, hcmd, hk, heq⟩
      · exact absurd (congrArg ExeclistItem.svc heq) (by simp [svcItem])
      · obtain rfl := Option.some_inj.mp (congrArg ExeclistItem.svc heq)
        exact ⟨n, hn, hcmd, hk⟩
  · rintro ⟨hhosts, hsvcs⟩
    refine ⟨_, rfl, ?_, ?_, ?_⟩
    · intro item hitem
      rcases List.mem_append.mp hitem with hmem | hmem
      · obtain ⟨q, hq, rfl⟩ := List.mem_map.mp hmem
        obtain ⟨n, hn, hcmd, hk⟩ := hhosts q hq
        exact Or.inl ⟨q, n, hn, hcmd, hk, hostItem_eq hn⟩
      · obtain ⟨q, hq, rfl⟩ := List.mem_map.mp hmem
        obtain ⟨n, hn, hcmd, hk⟩ := hsvcs q hq
        exact Or.inr ⟨q, n, hn, hcmd, hk, svcItem_eq hn⟩
    · rw [filterMap_host_items]
      exact Chains.found_nodup _ _ _
    · rw [filterMap_svc_items]
      exact Chains.found_nodup _ _ _

/-- Two hosts at one address, the older one bound to another command. -/
def sharedAddress : DbRows where
  resources := []
  commands :=
    [⟨['1'], Text.single 'p', Text.single 'p', ['0']⟩,
      ⟨['2'], Text.single 'r', Text.single 'r', ['0']⟩]
  hosts :=
    [⟨Text.single 'k', Text.single 'a', ['2'], none⟩,
      ⟨Text.single 'h', Text.single 'a', ['1'], none⟩]
  svcs := []
  trap_handlers := []

/-- The search for the command of the older host lists that host alone. -/
theorem execlistBuild_associated_oldest :
    SearchKey true (some ['a']) none none (.address ['a']) ∧
    ((∃ execlist,
        execlistBuild (daemonDb HashTable.empty sharedAddress) none 2 true (some ['a']) none none
          = .ok execlist ∧
        Associated (daemonDb HashTable.empty sharedAddress) 2 (.address ['a']) execlist)
      ↔ (daemonDb HashTable.empty sharedAddress).hosts.OlderBound 2 (.address ['a']) ∧
          (daemonDb HashTable.empty sharedAddress).svcs.OlderBound 2 (.address ['a'])) :=
  ⟨.sender rfl rfl (by decide),
    execlistBuild_associated_iff HashTable.empty sharedAddress 2 true (some ['a']) none none
      (.address ['a']) (.sender rfl rfl (by decide))⟩

/-- The search for the command of the newer host lists the older one as well. -/
theorem execlistBuild_not_associated :
    ¬ ∀ (resources : HashTable Str Resource) (rows : DbRows) (cmd_id : ℤ)
        (use_sender_address : Bool) (sender_address host_address host_name : Option Str)
        (key : Key), SearchKey use_sender_address sender_address host_address host_name key →
        ∃ execlist,
          execlistBuild (daemonDb resources rows) none cmd_id use_sender_address sender_address
            host_address host_name = .ok execlist ∧
          Associated (daemonDb resources rows) cmd_id key execlist := by
  intro h
  obtain ⟨l, hl, hitems, -⟩ := h HashTable.empty sharedAddress 1 true (some ['a']) none none
    (.address ['a']) (.sender rfl rfl (by decide))
  have hlist : execlistBuild (daemonDb HashTable.empty sharedAddress) none 1 true (some ['a'])
      none none = .ok [⟨some ['p'], .no, some 1, none⟩, ⟨some ['r'], .no, some 0, none⟩] := by
    decide
  obtain rfl := Except.ok.inj (hlist.symm.trans hl)
  rcases hitems ⟨some ['r'], .no, some 0, none⟩ (by simp) with
    ⟨q, n, hn, hcmd, -, heq⟩ | ⟨q, n, -, -, -, heq⟩
  · obtain rfl : 0 = q := Option.some_inj.mp (congrArg ExeclistItem.host heq)
    obtain rfl := Option.some_inj.mp hn
    exact absurd hcmd (by decide)
  · exact absurd (congrArg ExeclistItem.is_service heq) (by simp)

end Trapd
