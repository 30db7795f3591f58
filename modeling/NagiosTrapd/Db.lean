/-
# Tables loaded from the Nagios database (`db.c`)

`db_init` reads resources, commands, hosts, services and trap handlers once and
keeps them in hash tables.  A `struct host_t *` is the position of the host among
the stored ones, in load order; each host hangs on three chains, by name, by
address and by command id, newest first, and services likewise.  `Chains` carries
the proof that its three indexes are linked (`Chain.Linked`), so a table that
breaks the invariant cannot be built.

The queries only let rows through whose names, addresses and command lines are
not empty.  Such a string is a `Text`; `xstrdup` of it is a copy.
-/
import NagiosTrapd.Chain
import NagiosTrapd.Command

namespace Trapd

open Words

/-! ## Rows -/

/-- A string that is not empty. -/
abbrev Text : Type := {s : Str // s ≠ []}

/-- A string of one character. -/
def Text.single (c : Char) : Text := ⟨[c], List.cons_ne_nil c []⟩

/-- `xstrdup` of a string that is not empty is a copy. -/
theorem xstrdup_text (t : Text) : xstrdup (some t.1) = some t.1 := xstrdup_some_of_ne_nil t.2

theorem isEmpty_text (t : Text) : isEmpty (some t.1) = false := by
  simpa using t.2

/-- A row of `Q_FETCH_COMMANDS`. -/
structure CommandRow where
  command_id : Str
  command_name : Text
  command_line : Text
  trap_use_sender_ip : Str

/-- A row of `Q_FETCH_HOSTS`. -/
structure HostRow where
  host_name : Text
  host_address : Text
  trap_command_id : Str
  trap_command_arg : Option Str

/-- A row of `Q_FETCH_SVCS`. -/
structure SvcRow where
  service_description : Text
  host_name : Text
  host_address : Text
  trap_command_id : Str
  trap_command_arg : Option Str

/-- A row of `Q_FETCH_TRAP_HANDLERS`. -/
structure TrapHandlerRow where
  trap_oid : Text
  trap_command_id : Str

/-- What the queries return; a resource row is one line of text. -/
structure DbRows where
  resources : List Str
  commands : List CommandRow
  hosts : List HostRow
  svcs : List SvcRow
  trap_handlers : List TrapHandlerRow

/-! ## Resources -/

/-- `struct resource_t`. -/
structure Resource where
  r_name : Str
  r_value : Option Str
  deriving DecidableEq, Repr

/-- One iteration of `fetch_resources`; `none` where it hashes a NULL name. -/
def storeResource (t : HashTable Str Resource) (row : Str) : Option (HashTable Str Resource) :=
  let tokens := words '=' row
  match xstrdup tokens[0]? with
  | none => none
  | some name => some (t.insert name ⟨name, xstrdup tokens[1]?⟩)

/-- `fetch_resources`. -/
def fetchResources (rows : List Str) : Option (HashTable Str Resource) :=
  rows.foldlM storeResource HashTable.empty

/-- `db_lookup_resource`. -/
def dbLookupResource (resources : HashTable Str Resource) (key : Str) : Option Str :=
  match resources.lookup key with
  | none => none
  | some resource => xstrdup resource.r_value

theorem dbLookupResource_nonempty (resources : HashTable Str Resource) :
    ExpandHook.Nonempty (dbLookupResource resources) := by
  intro name value h
  unfold dbLookupResource at h
  cases hr : resources.lookup name with
  | none => simp [hr] at h
  | some resource =>
      rw [hr] at h
      exact ne_nil_of_xstrdup_eq_some h

/-! ## Commands -/

/-- The expansion of a text that is not empty, by a hook without empty values. -/
def expandText (expand_hook : ExpandHook) (hh : expand_hook.Nonempty) (text : Text) : Text :=
  ⟨(expandCommandInternal expand_hook (some text.1)).getD [], by
    obtain ⟨t, ht, hne⟩ := expandCommandInternal_ne_nil hh text.2
    rwa [ht]⟩

/-- `struct command_t`. -/
structure Command where
  c_id : ℤ
  c_name : Text
  c_filename : Option Str
  c_text : Text
  c_expanded_text : Text
  c_use_sender_address : Bool

/-- The command of a row of `fetch_commands`. -/
def fetchCommand (resources : HashTable Str Resource) (row : CommandRow) : Command :=
  let expanded_text :=
    expandText (expandHook1 (dbLookupResource resources)) (dbLookupResource_nonempty resources)
      row.command_line
  { c_id := atoi row.command_id
    c_name := row.command_name
    c_filename := extractFilename (some expanded_text.1)
    c_text := row.command_line
    c_expanded_text := expanded_text
    c_use_sender_address := row.trap_use_sender_ip == "1".toList }

/-- The stored text is what `command_expand_1` returns, which therefore is not NULL. -/
theorem fetchCommand_expanded_text (resources : HashTable Str Resource) (row : CommandRow) :
    commandExpand1 (dbLookupResource resources) (some row.command_line.1)
      = some (fetchCommand resources row).c_expanded_text.1 := rfl

/-- `fetch_commands`. -/
def fetchCommands (resources : HashTable Str Resource) (rows : List CommandRow) :
    HashTable ℤ Command :=
  rows.foldl (fun t row =>
    let command := fetchCommand resources row
    t.insert command.c_id command) HashTable.empty

/-! ## Hosts and services -/

/-- `MAX_ARGS_NO`. -/
def MAX_ARGS_NO : ℕ := 128

/-- `split_args`: the arguments and their number. -/
def splitArgs (string : Option Str) : Option (List (Option Str)) × ℕ :=
  match string with
  | none => (none, 0)
  | some s =>
      -- strtok_r: empty arguments are skipped
      let tokens := (words '!' s).take MAX_ARGS_NO
      (some (tokens.map fun token => xstrdup (some token)), tokens.length)

/-- What a host and a service have in common, before they are put on chains;
`description` is the part only services have. -/
structure Binding (δ : Type) where
  cmd_id : ℤ
  host_name : Text
  host_address : Text
  description : δ
  args : Option (List (Option Str))
  args_no : ℕ
  expanded_text : Text

/-- `struct host_t` and `struct svc_t`: a binding with its three next pointers. -/
structure Node (δ : Type) extends Binding δ where
  next_by_host_name : Option ℕ
  next_by_host_address : Option ℕ
  next_by_cmd_id : Option ℕ

/-- `struct host_t`. -/
abbrev Host : Type := Node Unit

/-- `struct svc_t`. -/
abbrev Svc : Type := Node Text

/-- The stored hosts or services in load order, with the three indexes. -/
structure Chains (δ : Type) where
  nodes : List (Node δ)
  by_host_name : HashTable Str ℕ
  by_host_address : HashTable Str ℕ
  by_cmd_id : HashTable ℤ ℕ
  linked_host_name :
    Chain.Linked (fun n => n.host_name.1) Node.next_by_host_name nodes by_host_name
  linked_host_address :
    Chain.Linked (fun n => n.host_address.1) Node.next_by_host_address nodes by_host_address
  linked_cmd_id : Chain.Linked (fun n => n.cmd_id) Node.next_by_cmd_id nodes by_cmd_id

namespace Chains

variable {δ : Type}

/-- No host or service. -/
def empty : Chains δ where
  nodes := []
  by_host_name := HashTable.empty
  by_host_address := HashTable.empty
  by_cmd_id := HashTable.empty
  linked_host_name := Chain.Linked.empty
  linked_host_address := Chain.Linked.empty
  linked_cmd_id := Chain.Linked.empty

end Chains

/-- Take the head of a chain out of its table, to become the next of a new one. -/
def stealHead {κ : Type} [DecidableEq κ] (t : HashTable κ ℕ) (k : κ) :
    HashTable κ ℕ × Option ℕ :=
  match t.lookup k with
  | some head => (t.steal k, some head)
  | none => (t, none)

/-- Stealing the head makes no difference to the insertion that follows. -/
theorem stealHead_insert {κ : Type} [DecidableEq κ] (t : HashTable κ ℕ) (k : κ) (new : ℕ) :
    (stealHead t k).1.insert k new = t.insert k new := by
  unfold stealHead
  cases t.lookup k with
  | none => rfl
  | some head => exact t.steal_insert k new

theorem stealHead_next {κ : Type} [DecidableEq κ] (t : HashTable κ ℕ) (k : κ) :
    (stealHead t k).2 = t k := by
  unfold stealHead HashTable.lookup
  cases t k <;> rfl

/-- The new head of a chain keeps the index linked. -/
theorem linked_stealHead {α κ : Type} [DecidableEq κ] {key : α → κ} {link : α → Option ℕ}
    {recs : List α} {t : HashTable κ ℕ} (h : Chain.Linked key link recs t) {new : α} {k : κ}
    (hkey : key new = k) (hlink : link new = (stealHead t k).2) :
    Chain.Linked key link (recs ++ [new]) ((stealHead t k).1.insert k recs.length) := by
  subst hkey
  rw [stealHead_insert]
  exact h.push (by rw [hlink, stealHead_next])

/-- Put a host or service in front of its three chains. -/
def Chains.store {δ : Type} (t : Chains δ) (b : Binding δ) : Chains δ :=
  -- the old heads become the next ones of the new node
  let name := stealHead t.by_host_name b.host_name.1
  let address := stealHead t.by_host_address b.host_address.1
  let cmd := stealHead t.by_cmd_id b.cmd_id
  let new := t.nodes.length
  { nodes := t.nodes ++ [⟨b, name.2, address.2, cmd.2⟩]
    by_host_name := name.1.insert b.host_name.1 new
    by_host_address := address.1.insert b.host_address.1 new
    by_cmd_id := cmd.1.insert b.cmd_id new
    linked_host_name := linked_stealHead t.linked_host_name rfl rfl
    linked_host_address := linked_stealHead t.linked_host_address rfl rfl
    linked_cmd_id := linked_stealHead t.linked_cmd_id rfl rfl }

theorem Chains.store_nodes {δ : Type} (t : Chains δ) (b : Binding δ) :
    (t.store b).nodes.map Node.toBinding = t.nodes.map Node.toBinding ++ [b] := by
  simp [Chains.store]

/-- The binding a row asks for, when its command is known. -/
def bindRow {δ : Type} (commands : HashTable ℤ Command) (trap_command_id : Str)
    (trap_command_arg : Option Str) (host_name host_address : Text) (description : δ) :
    Option (Binding δ) :=
  let cmd_id := atoi trap_command_id
  match commands.lookup cmd_id with
  | none => none
  | some command =>
      let args := splitArgs trap_command_arg
      some
        { cmd_id := cmd_id
          host_name := host_name
          host_address := host_address
          description := description
          args := args.1
          args_no := args.2
          expanded_text :=
            expandText (expandHook3 (some host_address.1) args.1 args.2)
              (expandHook3_nonempty _ _ _) command.c_expanded_text }

/-- The stored text is what `command_expand_3` returns, which therefore is not NULL: the
calls of `log_critical` behind it are dead code. -/
theorem bindRow_expanded_text {δ : Type} {commands : HashTable ℤ Command} {command : Command}
    {trap_command_id : Str} (hcommand : commands.lookup (atoi trap_command_id) = some command)
    (trap_command_arg : Option Str) (host_name host_address : Text) (description : δ) :
    ∃ b, bindRow commands trap_command_id trap_command_arg host_name host_address description
        = some b ∧
      commandExpand3 (some command.c_expanded_text.1) (some host_address.1) b.args b.args_no
        = some b.expanded_text.1 := by
  simp only [bindRow, hcommand]
  exact ⟨_, rfl, rfl⟩

/-- The host of a row of `fetch_hosts`. -/
def fetchHost (commands : HashTable ℤ Command) (row : HostRow) : Option (Binding Unit) :=
  bindRow commands row.trap_command_id row.trap_command_arg row.host_name row.host_address ()

/-- The service of a row of `fetch_svcs`. -/
def fetchSvc (commands : HashTable ℤ Command) (row : SvcRow) : Option (Binding Text) :=
  bindRow commands row.trap_command_id row.trap_command_arg row.host_name row.host_address
    row.service_description

/-- Store what a row asks for, if anything. -/
def Chains.storeRow {δ : Type} (t : Chains δ) : Option (Binding δ) → Chains δ
  | none => t
  | some b => t.store b

/-- `fetch_hosts`. -/
def fetchHosts (commands : HashTable ℤ Command) (rows : List HostRow) : Chains Unit :=
  rows.foldl (fun t row => t.storeRow (fetchHost commands row)) Chains.empty

/-- `fetch_svcs`. -/
def fetchSvcs (commands : HashTable ℤ Command) (rows : List SvcRow) : Chains Text :=
  rows.foldl (fun t row => t.storeRow (fetchSvc commands row)) Chains.empty

/-- A load stores what its rows ask for, in their order. -/
theorem foldl_storeRow_nodes {δ ρ : Type} (fetch : ρ → Option (Binding δ)) (rows : List ρ) :
    ∀ t : Chains δ, (rows.foldl (fun t row => t.storeRow (fetch row)) t).nodes.map Node.toBinding
      = t.nodes.map Node.toBinding ++ rows.filterMap fetch := by
  induction rows with
  | nil => intro t; simp
  | cons row rows ih =>
      intro t
      rw [List.foldl_cons, ih, List.filterMap_cons]
      cases hrow : fetch row with
      | none => simp [Chains.storeRow]
      | some b => simp [Chains.storeRow, Chains.store_nodes]

/-- **The stored hosts** are those of the rows with a known command, in load order. -/
theorem fetchHosts_nodes (commands : HashTable ℤ Command) (rows : List HostRow) :
    (fetchHosts commands rows).nodes.map Node.toBinding = rows.filterMap (fetchHost commands) := by
  unfold fetchHosts
  rw [foldl_storeRow_nodes]
  rfl

/-- **The stored services** are those of the rows with a known command, in load order. -/
theorem fetchSvcs_nodes (commands : HashTable ℤ Command) (rows : List SvcRow) :
    (fetchSvcs commands rows).nodes.map Node.toBinding = rows.filterMap (fetchSvc commands) := by
  unfold fetchSvcs
  rw [foldl_storeRow_nodes]
  rfl

/-! ## Trap handlers and the whole load -/

/-- `struct trap_handler_t`. -/
structure TrapHandler where
  th_oid : Text
  th_trap_command : Command

/-- `fetch_trap_handlers`. -/
def fetchTrapHandlers (commands : HashTable ℤ Command) (rows : List TrapHandlerRow) :
    HashTable Str TrapHandler :=
  rows.foldl (fun t row =>
    match commands.lookup (atoi row.trap_command_id) with
    | none => t
    | some command => t.insert row.trap_oid.1 ⟨row.trap_oid, command⟩) HashTable.empty

/-- The tables that only a daemon loads. -/
structure DaemonTables where
  commands : HashTable ℤ Command
  hosts : Chains Unit
  svcs : Chains Text
  trap_handlers : HashTable Str TrapHandler

/-- The part of `db_init` that only a daemon runs. -/
def fetchDaemonTables (resources : HashTable Str Resource) (rows : DbRows) : DaemonTables :=
  let commands := fetchCommands resources rows.commands
  { commands := commands
    hosts := fetchHosts commands rows.hosts
    svcs := fetchSvcs commands rows.svcs
    trap_handlers := fetchTrapHandlers commands rows.trap_handlers }

/-- `struct db_status_t`; outside a daemon only the resources are there. -/
structure Db where
  resources : HashTable Str Resource
  daemon : Option DaemonTables

/-- What `db_init` leaves in a daemon, once it has its resources. -/
def daemonDb (resources : HashTable Str Resource) (rows : DbRows) : Db :=
  ⟨resources, some (fetchDaemonTables resources rows)⟩

/-- `db_init`, after the connection is made. -/
def dbInit (is_daemon : Bool) (rows : DbRows) : Option Db :=
  (fetchResources rows.resources).map fun resources =>
    if is_daemon then daemonDb resources rows else ⟨resources, none⟩

/-! ## Looking up -/

/-- Undefined behaviour of the execution subsystem, and its one assertion. -/
inductive Fault
  /-- NULL given to `atoi`, `strcmp` or `strlen`. -/
  | nullString
  /-- A field of a NULL result or of a NULL item. -/
  | nullResult
  /-- A hash table that this mode has not created. -/
  | noTable
  /-- A walk over a chain that does not end. -/
  | endless
  | assertion
  deriving DecidableEq, Repr

/-- `flags` of the lookup functions. -/
inductive LookupFlag
  | none | nextByHostName | nextByHostAddress
  deriving DecidableEq, Repr

/-- The next pointer that `flags` selects. -/
def Node.next {δ : Type} (flags : LookupFlag) (n : Node δ) : Option ℕ :=
  match flags with
  | .nextByHostName => n.next_by_host_name
  | .nextByHostAddress => n.next_by_host_address
  | .none => none

/-- `host->h_next_by_..`, through the pointer. -/
def Chains.next {δ : Type} (t : Chains δ) (flags : LookupFlag) (q : ℕ) : Option ℕ :=
  Chain.next (Node.next flags) t.nodes q

/-- The tables of a daemon; to use one outside a daemon is a fault. -/
def Db.tables (db : Db) : Except Fault DaemonTables :=
  match db.daemon with
  | none => .error .noTable
  | some d => .ok d

/-- The stored hosts; none outside a daemon. -/
def Db.hosts (db : Db) : Chains Unit := (db.daemon.map DaemonTables.hosts).getD Chains.empty

/-- The stored services; none outside a daemon. -/
def Db.svcs (db : Db) : Chains Text := (db.daemon.map DaemonTables.svcs).getD Chains.empty

/-- `db_lookup_cmd_id_by_oid`. -/
def dbLookupCmdIdByOid (db : Db) (oid : Option Str) : Except Fault ℤ :=
  match oid with
  | none => .ok (-1)
  | some oid => do
      let d ← db.tables
      match d.trap_handlers.lookup oid with
      | none => .ok (-1)
      | some trap_handler => .ok trap_handler.th_trap_command.c_id

/-- `db_lookup_command_by_cmd_id`. -/
def dbLookupCommandByCmdId (db : Db) (cmd_id : ℤ) : Except Fault (Option Command) :=
  if cmd_id = -1 then .ok none
  else do
    let d ← db.tables
    .ok (d.commands.lookup cmd_id)

/-- `db_lookup_filename_by_cmd_id`. -/
def dbLookupFilenameByCmdId (db : Db) (cmd_id : ℤ) : Except Fault (Option Str) := do
  let command ← dbLookupCommandByCmdId db cmd_id
  .ok (command.bind Command.c_filename)

/-- `db_lookup_use_sender_address_by_cmd_id`; `none` when it returns 0. -/
def dbLookupUseSenderAddressByCmdId (db : Db) (cmd_id : ℤ) : Except Fault (Option Bool) := do
  let command ← dbLookupCommandByCmdId db cmd_id
  .ok (command.map Command.c_use_sender_address)

/-- `db_lookup_expanded_text_by_cmd_id`. -/
def dbLookupExpandedTextByCmdId (db : Db) (cmd_id : ℤ) : Except Fault (Option Str) := do
  let command ← dbLookupCommandByCmdId db cmd_id
  .ok (command.map fun c => c.c_expanded_text.1)

/-- `db_lookup_host_by_cmd_id`. -/
def dbLookupHostByCmdId (db : Db) (cmd_id : ℤ) (host : Option ℕ) (flags : LookupFlag) :
    Except Fault (Option ℕ) :=
  match host with
  | some q => .ok (db.hosts.next flags q)
  | none => do
      let d ← db.tables
      .ok (d.hosts.by_cmd_id.lookup cmd_id)

/-- `db_lookup_svc_by_cmd_id`. -/
def dbLookupSvcByCmdId (db : Db) (cmd_id : ℤ) (svc : Option ℕ) (flags : LookupFlag) :
    Except Fault (Option ℕ) :=
  match svc with
  | some q => .ok (db.svcs.next flags q)
  | none => do
      let d ← db.tables
      .ok (d.svcs.by_cmd_id.lookup cmd_id)

/-- `db_lookup_host_by_host_name`. -/
def dbLookupHostByHostName (db : Db) (host_name : Option Str) : Except Fault (Option ℕ) :=
  if isEmpty host_name then .ok none
  else do
    let d ← db.tables
    .ok (d.hosts.by_host_name.lookup (host_name.getD []))

/-- `db_lookup_host_by_address`. -/
def dbLookupHostByAddress (db : Db) (address : Option Str) : Except Fault (Option ℕ) :=
  if isEmpty address then .ok none
  else do
    let d ← db.tables
    .ok (d.hosts.by_host_address.lookup (address.getD []))

/-- `db_lookup_svc_by_host_name`. -/
def dbLookupSvcByHostName (db : Db) (host_name : Option Str) (svc : Option ℕ)
    (flags : LookupFlag) : Except Fault (Option ℕ) :=
  if isEmpty host_name then .ok none
  else match svc with
    | some q => .ok (db.svcs.next flags q)
    | none => do
        let d ← db.tables
        .ok (d.svcs.by_host_name.lookup (host_name.getD []))

/-- `db_lookup_svc_by_host_address`. -/
def dbLookupSvcByHostAddress (db : Db) (host_address : Option Str) (svc : Option ℕ)
    (flags : LookupFlag) : Except Fault (Option ℕ) :=
  if isEmpty host_address then .ok none
  else match svc with
    | some q => .ok (db.svcs.next flags q)
    | none => do
        let d ← db.tables
        .ok (d.svcs.by_host_address.lookup (host_address.getD []))

/-! ## Extracting fields -/

/-- A field of a stored host or service, through two pointers of which the first
that is not NULL counts. -/
def dbExtract {β : Type} (db : Db) (ofHost : Host → β) (ofSvc : Svc → β) (host svc : Option ℕ) :
    Option β :=
  match host with
  | some q => db.hosts.nodes[q]?.map ofHost
  | none =>
      match svc with
      | some q => db.svcs.nodes[q]?.map ofSvc
      | none => none

/-- `db_extract_host_address`. -/
def dbExtractHostAddress (db : Db) (host svc : Option ℕ) : Option Str :=
  dbExtract db (fun h => h.host_address.1) (fun s => s.host_address.1) host svc

/-- `db_extract_host_name`. -/
def dbExtractHostName (db : Db) (host svc : Option ℕ) : Option Str :=
  dbExtract db (fun h => h.host_name.1) (fun s => s.host_name.1) host svc

/-- `db_extract_expanded_text`. -/
def dbExtractExpandedText (db : Db) (host svc : Option ℕ) : Option Str :=
  dbExtract db (fun h => h.expanded_text.1) (fun s => s.expanded_text.1) host svc

/-- `db_extract_svc_desc`. -/
def dbExtractSvcDesc (db : Db) (svc : Option ℕ) : Option Str :=
  match svc with
  | some q => db.svcs.nodes[q]?.map fun s => s.description.1
  | none => none

end Trapd
