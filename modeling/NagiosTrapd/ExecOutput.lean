/-
# What `do_output` writes

`do_output` confirms a result by looking up the names the plugin printed.  The
look-ups walk chains that hosts and services of all commands share; here they are
replaced by statements about the stored hosts and services:

* `doOutput_eq_some`: when `channel_write` is called, and with what;
* `doOutput_eq_nullString`: when the description is compared through NULL.
-/
import NagiosTrapd.Exec

namespace Trapd

/-! ## Known hosts and services -/

/-- A stored host has the name or the address of a result. -/
def KnownHost (db : Db) (r : ExecResult) : Prop :=
  ∃ n ∈ db.hosts.nodes, some n.host_name.1 = r.host_name ∨ some n.host_address.1 = r.host_address

/-- A stored service has the host name or the address of a result. -/
def KnownSvcHost (db : Db) (r : ExecResult) : Prop :=
  ∃ n ∈ db.svcs.nodes, some n.host_name.1 = r.host_name ∨ some n.host_address.1 = r.host_address

/-- A stored service has the host name or the address of a result, and its description. -/
def KnownSvc (db : Db) (r : ExecResult) : Prop :=
  ∃ n ∈ db.svcs.nodes,
    (some n.host_name.1 = r.host_name ∨ some n.host_address.1 = r.host_address) ∧
      some n.description.1 = r.svc_desc

/-- What a result is about is stored, whatever command it is bound to. -/
def Known (db : Db) (r : ExecResult) : Prop :=
  (r.is_service = false ∧ KnownHost db r) ∨ (r.is_service = true ∧ KnownSvc db r)

/-- A result that `do_output` confirms. -/
def Confirmed (db : Db) (r : ExecResult) : Prop :=
  isEmpty r.host_name = false ∧ (r.is_service = true → isEmpty r.svc_desc = false) ∧
    (r.use_sender_address = true ∨ Known db r)

instance (db : Db) (r : ExecResult) : Decidable (KnownHost db r) :=
  inferInstanceAs (Decidable (∃ n ∈ db.hosts.nodes, _))

instance (db : Db) (r : ExecResult) : Decidable (KnownSvcHost db r) :=
  inferInstanceAs (Decidable (∃ n ∈ db.svcs.nodes, _))

instance (db : Db) (r : ExecResult) : Decidable (KnownSvc db r) :=
  inferInstanceAs (Decidable (∃ n ∈ db.svcs.nodes, _))

instance (db : Db) (r : ExecResult) : Decidable (Known db r) :=
  inferInstanceAs (Decidable (_ ∨ _))

instance (db : Db) (r : ExecResult) : Decidable (Confirmed db r) :=
  inferInstanceAs (Decidable (_ ∧ _ ∧ _))

/-! ## Looking for a host -/

theorem hosts_of_daemon {db : Db} {d : DaemonTables} (hd : db.daemon = some d) :
    db.hosts = d.hosts := by simp [Db.hosts, hd]

theorem svcs_of_daemon {db : Db} {d : DaemonTables} (hd : db.daemon = some d) :
    db.svcs = d.svcs := by simp [Db.svcs, hd]

theorem tables_of_daemon {db : Db} {d : DaemonTables} (hd : db.daemon = some d) :
    db.tables = .ok d := by simp [Db.tables, hd]

/-- A table has an entry for a key exactly when a record with the key is stored. -/
theorem isSome_lookup_iff {α κ : Type} [DecidableEq κ] {key : α → κ} {link : α → Option ℕ}
    {recs : List α} {t : HashTable κ ℕ} (h : Chain.Linked key link recs t) (k : κ) :
    (t.lookup k).isSome = true ↔ ∃ n ∈ recs, key n = k := by
  rw [Option.isSome_iff_ne_none, ne_eq, h.sound.no_entry k]
  push Not
  rfl

/-- An empty key is the key of no record, since stored texts are not empty. -/
theorem not_exists_of_isEmpty {α : Type} (recs : List α) (field : α → Text) {key : Option Str}
    (hkey : isEmpty key = true) : ¬ ∃ n ∈ recs, some (field n).1 = key := by
  rintro ⟨n, -, rfl⟩
  rw [isEmpty_text] at hkey
  exact absurd hkey (by simp)

/-- A look-up by a field that is never empty finds something exactly when a record has
the key; an empty key finds nothing. -/
theorem isSome_lookup_field_iff {α : Type} {link : α → Option ℕ} {recs : List α}
    {t : HashTable Str ℕ} (field : α → Text)
    (h : Chain.Linked (fun n => (field n).1) link recs t) (key : Option Str) :
    ((if isEmpty key then none else t.lookup (key.getD [])).isSome = true) ↔
      ∃ n ∈ recs, some (field n).1 = key := by
  by_cases hkey : isEmpty key = true
  · rw [if_pos hkey]
    simpa using not_exists_of_isEmpty recs field hkey
  · obtain ⟨k, rfl⟩ : ∃ k, key = some k := by
      cases key with
      | none => simp at hkey
      | some k => exact ⟨k, rfl⟩
    rw [if_neg hkey, Option.getD_some, isSome_lookup_iff h]
    simp only [Option.some_inj]

theorem dbLookupHostByHostName_isSome {db : Db} (hd : db.daemon ≠ none) (name : Option Str) :
    ∃ host, dbLookupHostByHostName db name = .ok host ∧
      (host.isSome = true ↔ ∃ n ∈ db.hosts.nodes, some n.host_name.1 = name) := by
  obtain ⟨d, hd⟩ := Option.ne_none_iff_exists'.mp hd
  refine ⟨_, ?_, isSome_lookup_field_iff (fun n : Host => n.host_name)
    db.hosts.linked_host_name name⟩
  unfold dbLookupHostByHostName
  rw [tables_of_daemon hd, hosts_of_daemon hd]
  split_ifs <;> rfl

theorem dbLookupHostByAddress_isSome {db : Db} (hd : db.daemon ≠ none) (address : Option Str) :
    ∃ host, dbLookupHostByAddress db address = .ok host ∧
      (host.isSome = true ↔ ∃ n ∈ db.hosts.nodes, some n.host_address.1 = address) := by
  obtain ⟨d, hd⟩ := Option.ne_none_iff_exists'.mp hd
  refine ⟨_, ?_, isSome_lookup_field_iff (fun n : Host => n.host_address)
    db.hosts.linked_host_address address⟩
  unfold dbLookupHostByAddress
  rw [tables_of_daemon hd, hosts_of_daemon hd]
  split_ifs <;> rfl

/-! ## Looking for a service -/

/-- Over the positions of a chain, the loop finds a service with the description; a
description that is NULL is a fault at the first service. -/
theorem svcDescLoop_of_follow {db : Db} {nextM : ℕ → Except Fault (Option ℕ)}
    {next : ℕ → Option ℕ} (hnext : ∀ q, nextM q = .ok (next q)) (svc_desc : Option Str) :
    ∀ (bound : ℕ) (start : Option ℕ) (visited : List ℕ),
      Chain.follow next bound start = some visited →
      (∀ q ∈ visited, dbExtractSvcDesc db (some q) ≠ none) →
      svcDescLoop db nextM svc_desc bound start
        = if svc_desc = none ∧ visited ≠ [] then .error .nullString
          else .ok (visited.any fun q => dbExtractSvcDesc db (some q) = svc_desc) := by
  intro bound
  induction bound with
  | zero =>
      intro start visited hfollow _
      cases start with
      | none =>
          obtain rfl : [] = visited := by simpa [Chain.follow] using hfollow
          simp [svcDescLoop]
      | some q => simp [Chain.follow] at hfollow
  | succ bound ih =>
      intro start visited hfollow hstored
      cases start with
      | none =>
          obtain rfl : [] = visited := by simpa [Chain.follow] using hfollow
          simp [svcDescLoop]
      | some q =>
          rw [Chain.follow, Option.map_eq_some_iff] at hfollow
          obtain ⟨rest, hrest, rfl⟩ := hfollow
          obtain ⟨e, he⟩ := Option.ne_none_iff_exists'.mp (hstored q List.mem_cons_self)
          cases svc_desc with
          | none => simp [svcDescLoop]
          | some d =>
              have hlater := ih (next q) rest hrest
                fun r hr => hstored r (List.mem_cons_of_mem q hr)
              simp only [reduceCtorEq, false_and, if_false] at hlater
              simp only [svcDescLoop, reduceCtorEq, false_and, if_false, List.any_cons, he]
              by_cases hde : d = e
              · subst hde
                simp
              · have hed : ¬ e = d := fun h => hde h.symm
                simp [hde, hed, hnext q, bind, Except.bind, hlater]

theorem dbExtractSvcDesc_eq {db : Db} {q : ℕ} {n : Svc} (hn : db.svcs.nodes[q]? = some n) :
    dbExtractSvcDesc db (some q) = some n.description.1 := by
  show db.svcs.nodes[q]?.map _ = _
  rw [hn]
  rfl

/-- Over the whole chain of a key, the loop finds a service with key and description. -/
theorem svcDescLoop_chain {db : Db} {nextM : ℕ → Except Fault (Option ℕ)} {flags : LookupFlag}
    {key : Svc → Str} {t : HashTable Str ℕ}
    (hlinked : Chain.Linked key (Node.next flags) db.svcs.nodes t)
    (hnext : ∀ q, nextM q = .ok (db.svcs.next flags q)) (k : Str) (svc_desc : Option Str) :
    svcDescLoop db nextM svc_desc db.svcs.nodes.length (t.lookup k)
      = if svc_desc = none ∧ ∃ n ∈ db.svcs.nodes, key n = k then .error .nullString
        else .ok (decide (∃ n ∈ db.svcs.nodes, key n = k ∧ some n.description.1 = svc_desc)) := by
  have hfollow : Chain.follow (db.svcs.next flags) db.svcs.nodes.length (t.lookup k)
      = some (Chain.below (Chain.hasKey key db.svcs.nodes k) db.svcs.nodes.length) :=
    hlinked.follow_table k
  have hstored : ∀ q ∈ Chain.below (Chain.hasKey key db.svcs.nodes k) db.svcs.nodes.length,
      dbExtractSvcDesc db (some q) ≠ none := by
    intro q hq
    obtain ⟨n, hn, -⟩ := Chain.mem_below_hasKey.mp hq
    rw [dbExtractSvcDesc_eq hn]
    simp
  -- what is visited is what has the key
  have hany : (Chain.below (Chain.hasKey key db.svcs.nodes k) db.svcs.nodes.length).any
        (fun q => dbExtractSvcDesc db (some q) = svc_desc)
      = decide (∃ n ∈ db.svcs.nodes, key n = k ∧ some n.description.1 = svc_desc) := by
    rw [Bool.eq_iff_iff, List.any_eq_true, decide_eq_true_iff]
    constructor
    · rintro ⟨q, hq, hd⟩
      obtain ⟨n, hn, hk⟩ := Chain.mem_below_hasKey.mp hq
      rw [dbExtractSvcDesc_eq hn, decide_eq_true_iff] at hd
      exact ⟨n, List.mem_of_getElem? hn, hk, hd⟩
    · rintro ⟨n, hn, hk, hd⟩
      obtain ⟨q, hq⟩ := List.mem_iff_getElem?.mp hn
      refine ⟨q, Chain.mem_below_hasKey.mpr ⟨n, hq, hk⟩, ?_⟩
      rw [dbExtractSvcDesc_eq hq, decide_eq_true_iff]
      exact hd
  rw [svcDescLoop_of_follow hnext svc_desc _ _ _ hfollow hstored]
  simp only [Chain.below_hasKey_ne_nil, hany]

/-- **One of the two look-ups of a service**, by a field that is never empty. -/
theorem confirmSvc_eq {db : Db} (lookup : Option ℕ → LookupFlag → Except Fault (Option ℕ))
    (flags : LookupFlag) (key : Option Str) (field : Svc → Text) {t : HashTable Str ℕ}
    (hlinked : Chain.Linked (fun n => (field n).1) (Node.next flags) db.svcs.nodes t)
    (hstart : lookup none .none
      = if isEmpty key then .ok none else .ok (t.lookup (key.getD [])))
    (hnext : ∀ q, lookup (some q) flags
      = if isEmpty key then .ok none else .ok (db.svcs.next flags q))
    (svc_desc : Option Str) :
    confirmSvc db lookup flags svc_desc
      = if svc_desc = none ∧ ∃ n ∈ db.svcs.nodes, some (field n).1 = key then .error .nullString
        else .ok (decide (∃ n ∈ db.svcs.nodes,
          some (field n).1 = key ∧ some n.description.1 = svc_desc)) := by
  unfold confirmSvc
  rw [hstart]
  by_cases hkey : isEmpty key = true
  · have hno := not_exists_of_isEmpty db.svcs.nodes field hkey
    have hno' : ¬ ∃ n ∈ db.svcs.nodes,
        some (field n).1 = key ∧ some n.description.1 = svc_desc :=
      fun ⟨n, hn, hk, _⟩ => hno ⟨n, hn, hk⟩
    have hfault : ¬ (svc_desc = none ∧ ∃ n ∈ db.svcs.nodes, some (field n).1 = key) :=
      fun h => hno h.2
    rw [if_pos hkey, if_neg hfault, decide_eq_false hno']
    cases db.svcs.nodes.length <;> rfl
  · obtain ⟨k, rfl⟩ : ∃ k, key = some k := by
      cases key with
      | none => simp at hkey
      | some k => exact ⟨k, rfl⟩
    rw [if_neg hkey]
    refine (svcDescLoop_chain hlinked (fun q => ?_) k svc_desc).trans ?_
    · rw [hnext q, if_neg hkey]
    · simp only [Option.some_inj]

/-! ## What `do_output` does -/

/-- Of a host, the two look-ups together. -/
theorem outputConfirmed_host {db : Db} (hd : db.daemon ≠ none) {r : ExecResult}
    (hu : r.use_sender_address = false) (hs : r.is_service = false) :
    outputConfirmed db r = .ok (decide (KnownHost db r)) := by
  obtain ⟨byName, hname, hname_iff⟩ := dbLookupHostByHostName_isSome hd r.host_name
  obtain ⟨byAddress, haddress, haddress_iff⟩ := dbLookupHostByAddress_isSome hd r.host_address
  have hknown : KnownHost db r ↔ byName.isSome = true ∨ byAddress.isSome = true := by
    rw [hname_iff, haddress_iff]
    simp only [KnownHost, and_or_left, exists_or]
  unfold outputConfirmed
  rw [hu, hs, hname, haddress]
  simp only [Bool.false_eq_true, if_false, Bool.not_false, if_true, bind, Except.bind, hknown]
  cases byName <;> cases byAddress <;> rfl

theorem knownSvcHost_iff {db : Db} {r : ExecResult} :
    KnownSvcHost db r ↔ (∃ n ∈ db.svcs.nodes, some n.host_name.1 = r.host_name) ∨
      ∃ n ∈ db.svcs.nodes, some n.host_address.1 = r.host_address := by
  simp only [KnownSvcHost, and_or_left, exists_or]

theorem knownSvc_iff {db : Db} {r : ExecResult} :
    KnownSvc db r ↔
      (∃ n ∈ db.svcs.nodes, some n.host_name.1 = r.host_name ∧
        some n.description.1 = r.svc_desc) ∨
      ∃ n ∈ db.svcs.nodes, some n.host_address.1 = r.host_address ∧
        some n.description.1 = r.svc_desc := by
  simp only [KnownSvc, or_and_right, and_or_left, exists_or]

/-- Of a service, the two loops together. -/
theorem outputConfirmed_svc {db : Db} (hd : db.daemon ≠ none) {r : ExecResult}
    (hu : r.use_sender_address = false) (hs : r.is_service = true) :
    outputConfirmed db r
      = if r.svc_desc = none ∧ KnownSvcHost db r then .error .nullString
        else .ok (decide (KnownSvc db r)) := by
  obtain ⟨d, hd⟩ := Option.ne_none_iff_exists'.mp hd
  have hbyName := confirmSvc_eq (dbLookupSvcByHostName db r.host_name) .nextByHostName r.host_name
    (fun n => n.host_name) db.svcs.linked_host_name
    (by simp [dbLookupSvcByHostName, tables_of_daemon hd, svcs_of_daemon hd, bind, Except.bind])
    (fun _ => rfl) r.svc_desc
  have hbyAddress := confirmSvc_eq (dbLookupSvcByHostAddress db r.host_address)
    .nextByHostAddress r.host_address (fun n => n.host_address) db.svcs.linked_host_address
    (by simp [dbLookupSvcByHostAddress, tables_of_daemon hd, svcs_of_daemon hd, bind, Except.bind])
    (fun _ => rfl) r.svc_desc
  unfold outputConfirmed
  rw [hu, hs, hbyName, hbyAddress]
  simp only [Bool.false_eq_true, if_false, Bool.not_true, knownSvcHost_iff, knownSvc_iff]
  cases hdesc : r.svc_desc with
  | none =>
      -- without a description the first service met is a fault
      by_cases hname : ∃ n ∈ db.svcs.nodes, some n.host_name.1 = r.host_name
      · simp [hname, bind, Except.bind]
      · simp [hname, bind, Except.bind]
  | some e =>
      by_cases hname : ∃ n ∈ db.svcs.nodes, some n.host_name.1 = r.host_name ∧ n.description.1 = e
      · simp [hname, bind, Except.bind]
      · simp [hname, bind, Except.bind]

/-- Outside a daemon nothing is stored, and a look-up of a name or an address is a
fault of its own kind. -/
theorem outputConfirmed_standalone {db : Db} (hd : db.daemon = none) {r : ExecResult}
    (hu : r.use_sender_address = false) :
    outputConfirmed db r
      = if isEmpty r.host_name = true ∧ isEmpty r.host_address = true then .ok false
        else .error .noTable := by
  have htables : db.tables = .error .noTable := by simp [Db.tables, hd]
  have hnodes : db.svcs.nodes.length = 0 := by simp [Db.svcs, hd, Chains.empty]
  unfold outputConfirmed confirmSvc
  rw [hu, hnodes]
  cases r.is_service <;>
    by_cases hname : isEmpty r.host_name = true <;>
    by_cases haddress : isEmpty r.host_address = true <;>
    simp [dbLookupHostByHostName, dbLookupHostByAddress, dbLookupSvcByHostName,
      dbLookupSvcByHostAddress, hname, haddress, htables, svcDescLoop, bind, Except.bind]

theorem not_knownHost_of_standalone {db : Db} (hd : db.daemon = none) (r : ExecResult) :
    ¬ KnownHost db r := by
  rintro ⟨n, hn, -⟩
  simp [Db.hosts, hd, Chains.empty] at hn

theorem not_knownSvc_of_standalone {db : Db} (hd : db.daemon = none) (r : ExecResult) :
    ¬ KnownSvc db r := by
  rintro ⟨n, hn, -⟩
  simp [Db.svcs, hd, Chains.empty] at hn

/-- **What the look-ups confirm**, unless the sender's address settles it: a description is
compared through NULL, or a table is missing, or what is known is confirmed. -/
theorem outputConfirmed_eq {db : Db} {r : ExecResult} (hu : r.use_sender_address = false) :
    outputConfirmed db r
      = if r.is_service = true ∧ r.svc_desc = none ∧ KnownSvcHost db r then .error .nullString
        else if db.daemon = none ∧
            ¬ (isEmpty r.host_name = true ∧ isEmpty r.host_address = true) then .error .noTable
        else .ok (decide (Known db r)) := by
  by_cases hd : db.daemon = none
  · have hhost := not_knownHost_of_standalone hd r
    have hsvc := not_knownSvc_of_standalone hd r
    have hsvcHost : ¬ KnownSvcHost db r := by
      rintro ⟨n, hn, -⟩
      simp [Db.svcs, hd, Chains.empty] at hn
    rw [outputConfirmed_standalone hd hu]
    simp only [hsvcHost, and_false, if_false, hd, true_and, Known, hhost, hsvc,
      or_false, decide_false]
    split_ifs <;> rfl
  · cases hs : r.is_service with
    | false => simp [outputConfirmed_host hd hu hs, hd, Known, hs]
    | true => simp [outputConfirmed_svc hd hu hs, hd, Known, hs]

/-- A known result is confirmed. -/
theorem outputConfirmed_of_known {db : Db} {r : ExecResult} (hu : r.use_sender_address = false)
    (h : Known db r) : outputConfirmed db r = .ok true := by
  have hdaemon : db.daemon ≠ none := by
    intro hd
    rcases h with ⟨-, h⟩ | ⟨-, h⟩
    · exact not_knownHost_of_standalone hd r h
    · exact not_knownSvc_of_standalone hd r h
  have hdesc : ¬ (r.is_service = true ∧ r.svc_desc = none ∧ KnownSvcHost db r) := by
    rintro ⟨hs, hnone, -⟩
    rcases h with ⟨hs', -⟩ | ⟨-, n, -, -, hn⟩
    · rw [hs] at hs'
      exact absurd hs' (by simp)
    · rw [hnone] at hn
      exact absurd hn (by simp)
  rw [outputConfirmed_eq hu, if_neg hdesc, if_neg fun hd => hdaemon hd.1, decide_eq_true h]

theorem outputConfirmed_eq_true {db : Db} {r : ExecResult} :
    outputConfirmed db r = .ok true ↔ r.use_sender_address = true ∨ Known db r := by
  cases hu : r.use_sender_address with
  | true => simp [outputConfirmed, hu]
  | false =>
      constructor
      · intro h
        rw [outputConfirmed_eq hu] at h
        split_ifs at h
        exact Or.inr (by simpa using h)
      · rintro (h | h)
        · exact absurd h (by simp)
        · exact outputConfirmed_of_known hu h

/-- **When `do_output` writes**: for a confirmed result, and then the plugin's own
fields. -/
theorem doOutput_eq_some {db : Db} {r : ExecResult} {w : ChannelWrite} :
    doOutput db r = .ok (some w) ↔ Confirmed db r ∧ w = r.channelWrite := by
  have hcases : doOutput db r = .ok (some w) ↔ outputConfirmed db r = .ok true ∧
      isEmpty r.host_name = false ∧ (r.is_service = true → isEmpty r.svc_desc = false) ∧
      w = r.channelWrite := by
    unfold doOutput
    cases outputConfirmed db r with
    | error f => simp [bind, Except.bind]
    | ok confirmed =>
        cases isEmpty r.host_name <;> cases r.is_service <;> cases isEmpty r.svc_desc <;>
          cases confirmed <;> simp [bind, Except.bind, eq_comm]
  rw [hcases, outputConfirmed_eq_true]
  unfold Confirmed
  constructor
  · rintro ⟨hknown, hname, hdesc, hw⟩
    exact ⟨⟨hname, hdesc, hknown⟩, hw⟩
  · rintro ⟨⟨hname, hdesc, hknown⟩, hw⟩
    exact ⟨hknown, hname, hdesc, hw⟩

/-- `do_output` fails where the confirmation does. -/
theorem doOutput_eq_error_iff {db : Db} {r : ExecResult} {f : Fault} :
    doOutput db r = .error f ↔ outputConfirmed db r = .error f := by
  unfold doOutput
  cases outputConfirmed db r with
  | error g => simp [bind, Except.bind]
  | ok confirmed => simp only [bind, Except.bind]; split_ifs <;> simp

/-- **When `do_output` compares a description through NULL**: for a service result
without description, whose host name or address some stored service has. -/
theorem doOutput_eq_nullString {db : Db} {r : ExecResult} :
    doOutput db r = .error .nullString ↔
      r.use_sender_address = false ∧ r.is_service = true ∧ r.svc_desc = none ∧
        KnownSvcHost db r := by
  rw [doOutput_eq_error_iff]
  cases hu : r.use_sender_address with
  | true => simp [outputConfirmed, hu]
  | false =>
      rw [outputConfirmed_eq hu]
      split_ifs with hnull <;> simp [hnull]

/-- `do_output` ends in undefined behaviour: outside a daemon it looks something up, or
it compares a description through NULL. -/
def OutputFaults (db : Db) (r : ExecResult) : Prop :=
  r.use_sender_address = false ∧
    ((db.daemon = none ∧ ¬ (isEmpty r.host_name = true ∧ isEmpty r.host_address = true)) ∨
      (r.is_service = true ∧ r.svc_desc = none ∧ KnownSvcHost db r))

/-- **When `do_output` returns.** -/
theorem doOutput_returns_iff {db : Db} {r : ExecResult} :
    (∃ write, doOutput db r = .ok write) ↔ ¬ OutputFaults db r := by
  have hcases : (∃ write, doOutput db r = .ok write) ↔ ∃ b, outputConfirmed db r = .ok b := by
    unfold doOutput
    cases outputConfirmed db r with
    | error f => simp [bind, Except.bind]
    | ok confirmed => simp only [bind, Except.bind]; split_ifs <;> simp
  rw [hcases]
  unfold OutputFaults
  cases hu : r.use_sender_address with
  | true => simp [outputConfirmed, hu]
  | false =>
      rw [outputConfirmed_eq hu]
      split_ifs with hnull htable
      · simp [hnull]
      · simp [htable]
      · refine iff_of_true ⟨_, rfl⟩ ?_
        rintro ⟨-, h | h⟩
        · exact htable h
        · exact hnull h

/-- There is no other fault, but for the missing tables outside a daemon. -/
theorem doOutput_error {db : Db} {r : ExecResult} {f : Fault} (h : doOutput db r = .error f) :
    f = .nullString ∨ f = .noTable := by
  have hconfirmed := doOutput_eq_error_iff.mp h
  cases hu : r.use_sender_address with
  | true => simp [outputConfirmed, hu] at hconfirmed
  | false =>
      rw [outputConfirmed_eq hu] at hconfirmed
      split_ifs at hconfirmed
      · exact Or.inl (Except.error.inj hconfirmed).symm
      · exact Or.inr (Except.error.inj hconfirmed).symm

end Trapd
