/-
# The plugins for events of Nagios (`plugins/*.awk`)

The two default plugins get the objects of a trap as arguments `oid=value` and print one
record of seven fields for `parse_result_str`.  They cut every argument at all of its
equality signs and keep the second piece as the value.  They are run by `awk -f`, which is a
parameter: what it leaves of the arguments to the plugin.

* `record_agrees_iff`: the values come back from the record exactly when awk takes no
  argument for an option of its own, no equality sign cuts a value, or an OID, in a place that
  matters, and the names are not empty.
-/
import NagiosTrapd.ExecStatus

namespace Trapd

open Words

/-! ## The plugins -/

/-- How awk reads the arguments that follow `-f` and the file of a plugin: those that it leaves
in `ARGV`, or `none` where it takes one for an option of its own and stops. -/
abbrev Awk : Type := List Str → Option (List Str)

/-- **Options come first**: awk leaves all arguments when the first is not one that begins with
a hyphen. -/
def Awk.Lawful (awk : Awk) : Prop :=
  ∀ argv : List Str, (∀ arg ∈ argv.head?, arg.head? ≠ some '-') → awk argv = some argv

/-- What a plugin looks for: the OIDs of the host name, of the description of a service, of
the state and of the output, and the names of the states 0, 1 and 2. -/
structure EventPlugin where
  hostname : Str
  svcDesc : Option Str
  stateID : Str
  output : Str
  state0 : Str
  state1 : Str
  state2 : Str
  keys_nodup : (hostname :: stateID :: output :: svcDesc.toList).Nodup
  keys_plain : ∀ k ∈ hostname :: stateID :: output :: svcDesc.toList, '=' ∉ k
  states_plain : ∀ s ∈ [state0, state1, state2], '=' ∉ s

/-- `nagios-event-host.awk`. -/
def nagiosEventHost : EventPlugin where
  hostname := "NAGIOS-NOTIFY-MIB::sHostname".toList
  svcDesc := none
  stateID := "NAGIOS-NOTIFY-MIB::sHostStateID".toList
  output := "NAGIOS-NOTIFY-MIB::sHostOutput".toList
  state0 := "up".toList
  state1 := "down".toList
  state2 := "unreachable".toList
  keys_nodup := by decide
  keys_plain := by decide
  states_plain := by decide

/-- `nagios-event-service.awk`. -/
def nagiosEventService : EventPlugin where
  hostname := "NAGIOS-NOTIFY-MIB::sSvcHostname".toList
  svcDesc := some "NAGIOS-NOTIFY-MIB::sSvcDesc".toList
  stateID := "NAGIOS-NOTIFY-MIB::sSvcStateID".toList
  output := "NAGIOS-NOTIFY-MIB::sSvcOutput".toList
  state0 := "ok".toList
  state1 := "warning".toList
  state2 := "critical".toList
  keys_nodup := by decide
  keys_plain := by decide
  states_plain := by decide

/-- The variables that are printed; an empty `status` is `none`. -/
@[ext] structure EventRecord where
  host_address : Str
  host_name : Str
  svc_desc : Str
  status : Option ℕ
  output : Str
  perfdata : Str
  svc_id : Str
  deriving DecidableEq, Repr

/-- The variables before the loop. -/
def EventRecord.empty : EventRecord := ⟨[], [], [], none, [], [], []⟩

/-- `status`, printed with `%s`. -/
def EventRecord.statusText (r : EventRecord) : Str := r.status.elim [] fun status => decimal status

/-- The fields of a record, in order. -/
def EventRecord.fields (r : EventRecord) : List Str :=
  [r.host_address, r.host_name, r.svc_desc, r.statusText, r.output, r.perfdata, r.svc_id]

/-- `printf "%s|%s|%s|%s|%s|%s|%s\n"`. -/
def EventRecord.print (r : EventRecord) : Str := ['|'].intercalate r.fields ++ ['\n']

/-- `parts[1]` of a token. -/
def keyOf (token : Str) : Str := (pieces '=' token).getD 0 []

/-- `parts[2]` of a token. -/
def valueOf (token : Str) : Str := (pieces '=' token).getD 1 []

/-- The argument that asks for help. -/
def helpKey : Str := "-h".toList

/-- What `usage` prints. -/
def usageText : Str := "Decodifica Trap SNMP Nagios-to-Nagios\n".toList

namespace EventPlugin

variable (p : EventPlugin)

/-- The number of a state. -/
def status (value : Str) : ℕ :=
  if value = p.state0 then 0 else if value = p.state1 then 1 else if value = p.state2 then 2
  else 3

/-- The assignments of the loop. -/
def assign (r : EventRecord) (key value : Str) : EventRecord :=
  if key = p.hostname then { r with host_name := value }
  else if some key = p.svcDesc then { r with svc_desc := value }
  else if key = p.stateID then { r with status := some (p.status value) }
  else if key = p.output then { r with output := value }
  else r

/-- The loop over the arguments: `none` when it ends in `usage`. -/
def loop (r : EventRecord) : List Str → Option EventRecord
  | [] => some r
  | token :: argv =>
      if keyOf token = helpKey then none
      else loop (p.assign r (keyOf token) (valueOf token)) argv

/-- What a plugin prints: nothing when awk does not run it. -/
def main (awk : Awk) (argv : List Str) : Str :=
  match awk argv with
  | none => []
  | some argv =>
      match p.loop .empty argv with
      | none => usageText
      | some r => r.print

/-- The OIDs of texts. -/
def textKeys : List Str := p.hostname :: p.output :: p.svcDesc.toList

/-! ## One round of the loop -/

/-- The host name is set under its key. -/
theorem assign_host_name (r : EventRecord) (key value : Str) :
    (p.assign r key value).host_name = if key = p.hostname then value else r.host_name := by
  unfold assign
  split_ifs <;> rfl

/-- So is the description, by a plugin that has one. -/
theorem assign_svc_desc (r : EventRecord) (key value : Str) :
    (p.assign r key value).svc_desc = if some key = p.svcDesc then value else r.svc_desc := by
  have hne : some p.hostname ≠ p.svcDesc := by
    intro h
    have hnodup := p.keys_nodup
    rw [← h] at hnodup
    simp at hnodup
  unfold assign
  split_ifs with hhost hdesc
  · exact absurd (hhost ▸ hdesc) hne
  all_goals rfl

/-- The state is set as its number. -/
theorem assign_status (r : EventRecord) (key value : Str) :
    (p.assign r key value).status
      = if key = p.stateID then some (p.status value) else r.status := by
  have hnodup := p.keys_nodup
  unfold assign
  split_ifs with hhost hstate hdesc hstate
  · subst hhost
    simp [hstate] at hnodup
  · rfl
  · rw [← hdesc] at hnodup
    simp [hstate] at hnodup
  all_goals rfl

/-- The output is set under its key. -/
theorem assign_output (r : EventRecord) (key value : Str) :
    (p.assign r key value).output = if key = p.output then value else r.output := by
  have hnodup := p.keys_nodup
  unfold assign
  split_ifs with hhost houtput hdesc houtput hstate houtput
  · subst hhost
    simp [houtput] at hnodup
  · rfl
  · rw [← hdesc] at hnodup
    simp [houtput] at hnodup
  · rfl
  · subst hstate
    simp [houtput] at hnodup
  all_goals rfl

/-- The variables that no argument sets. -/
theorem assign_unset (r : EventRecord) (key value : Str) :
    (p.assign r key value).host_address = r.host_address ∧
      (p.assign r key value).perfdata = r.perfdata ∧
      (p.assign r key value).svc_id = r.svc_id := by
  unfold assign
  split_ifs <;> exact ⟨rfl, rfl, rfl⟩

/-! ## The whole loop -/

/-- The loop ends in `usage`, or makes all its assignments. -/
theorem loop_eq (r : EventRecord) (argv : List Str) :
    p.loop r argv = if helpKey ∈ argv.map keyOf then none
      else some (argv.foldl (fun r token => p.assign r (keyOf token) (valueOf token)) r) := by
  induction argv generalizing r with
  | nil => rfl
  | cons token argv ih =>
      rw [loop, ih, List.map_cons, List.foldl_cons]
      simp only [List.mem_cons, @eq_comm _ helpKey]
      split_ifs <;> first | rfl | tauto

/-- A variable that is overwritten at some places has what the last of them left. -/
theorem foldl_overwrite {α β : Type} (P : α → Bool) (f : α → β) (b : β) (l : List α) :
    l.foldl (fun b a => if P a then f a else b) b = (((l.filter P).getLast?).map f).getD b := by
  induction l using List.reverseRecOn with
  | nil => rfl
  | append_singleton l a ih =>
      rw [List.foldl_concat, ih, List.filter_append]
      cases h : P a <;> simp [h]

/-- A variable of the record that is set at some keys. -/
theorem foldl_assign {β : Type} (var : EventRecord → β) {P : Str → Bool} {f : Str → β}
    (hvar : ∀ r key value, var (p.assign r key value) = if P key then f value else var r)
    (r : EventRecord) (argv : List Str) :
    var (argv.foldl (fun r token => p.assign r (keyOf token) (valueOf token)) r)
      = (((argv.filter fun token => P (keyOf token)).getLast?).map fun token =>
          f (valueOf token)).getD (var r) := by
  rw [← foldl_overwrite, List.foldl_hom var]
  exact fun r token => (hvar r _ _).symm

/-! ## The objects of a trap -/

end EventPlugin

/-- An argument of a plugin. -/
def toArgument (o : Str × Str) : Str := o.1 ++ '=' :: o.2

/-- The OIDs and values of a trap. -/
def Trap.arguments (trap : Trap) : List (Str × Str) :=
  trap.objects.map fun o => (o.oid.getD [], o.valueStr.getD [])

/-- The value the trap gives for an OID: that of the last object with this OID. -/
def given (k : Str) (objects : List (Str × Str)) : Str :=
  (((objects.filter fun o => o.1 = k).getLast?).map (·.2)).getD []

/-- The last object that a plugin takes for an OID: up to an equality sign, it has the OID. -/
def lastTaken (k : Str) (objects : List (Str × Str)) : Option (Str × Str) :=
  (objects.filter fun o => firstPiece '=' o.1 = k).getLast?

/-- What a plugin reads for an OID `k` from such an object: what stands behind the first
equality sign, up to the next. -/
def heard (k : Str) (o : Str × Str) : Str :=
  firstPiece '=' (if o.1 = k then o.2 else o.1.drop (k.length + 1))

/-- The key of an argument ends at the first equality sign of the OID. -/
theorem keyOf_toArgument (o : Str × Str) : keyOf (toArgument o) = firstPiece '=' o.1 := by
  unfold keyOf toArgument
  rw [pieces_getD_zero, firstPiece_append_sep]

/-- The value is what is heard of the object. -/
theorem valueOf_toArgument {k : Str} {o : Str × Str} (ho : firstPiece '=' o.1 = k) :
    valueOf (toArgument o) = heard k o := by
  subst ho
  unfold valueOf toArgument heard
  by_cases hmem : '=' ∈ o.1
  · obtain ⟨g, t, hs, hg⟩ := List.eq_append_cons_of_mem hmem
    have hne : o.1 ≠ firstPiece '=' o.1 := fun h => firstPiece_eq_self_iff.mp h.symm hmem
    rw [if_neg hne, hs, List.append_assoc, List.cons_append, pieces_getD_one hg,
      firstPiece_append_cons hg, firstPiece_append_sep, List.drop_length_add_append]
    rfl
  · rw [pieces_getD_one hmem, if_pos (firstPiece_eq_self_iff.mpr hmem).symm]

/-- The last object with an OID is the last one taken for it, when that one has the OID. -/
theorem given_of_lastTaken {k : Str} (hk : '=' ∉ k) {objects : List (Str × Str)}
    {o : Str × Str} (hlast : lastTaken k objects = some o) (ho : o.1 = k) :
    given k objects = o.2 := by
  obtain ⟨taken, htaken⟩ : ∃ taken, objects.filter (fun o => firstPiece '=' o.1 = k)
      = taken ++ [o] := List.getLast?_eq_some_iff.mp hlast
  have hfilter : objects.filter (fun o => decide (o.1 = k))
      = (taken ++ [o]).filter fun o => decide (o.1 = k) := by
    rw [← htaken, List.filter_filter]
    apply List.filter_congr
    intro o' _
    by_cases h : o'.1 = k
    · simp [h, firstPiece_eq_self_iff.mpr hk]
    · simp [h]
  unfold given
  rw [hfilter, List.filter_append]
  simp [ho]

/-- What a plugin reads for an OID. -/
def read (k : Str) (objects : List (Str × Str)) : Str :=
  ((lastTaken k objects).map (heard k)).getD []

/-- An object with an OID is taken for it. -/
theorem exists_lastTaken {k : Str} (hk : '=' ∉ k) {objects : List (Str × Str)} {o : Str × Str}
    (ho : o ∈ objects) (hoid : o.1 = k) : ∃ o', lastTaken k objects = some o' := by
  have hmem : o ∈ objects.filter fun o => firstPiece '=' o.1 = k := by
    rw [List.mem_filter, decide_eq_true_iff, hoid]
    exact ⟨ho, firstPiece_eq_self_iff.mpr hk⟩
  exact ⟨_, List.getLast?_eq_some_getLast (List.ne_nil_of_mem hmem)⟩

/-- The OID of the last object taken. -/
theorem oid_of_lastTaken {k : Str} {objects : List (Str × Str)} {o : Str × Str}
    (h : lastTaken k objects = some o) : o ∈ objects ∧ firstPiece '=' o.1 = k := by
  have hmem := List.mem_of_getLast? h
  rw [List.mem_filter, decide_eq_true_iff] at hmem
  exact hmem

/-- A text arrives: no equality sign cuts the value, or the OID of a later object where the
text up to the next equality sign differs from the value. -/
def Undisturbed (k : Str) (objects : List (Str × Str)) : Prop :=
  ∀ o ∈ lastTaken k objects,
    if o.1 = k then '=' ∉ o.2 else firstPiece '=' (o.1.drop (k.length + 1)) = given k objects

instance (k : Str) (objects : List (Str × Str)) : Decidable (Undisturbed k objects) :=
  inferInstanceAs (Decidable (∀ o ∈ lastTaken k objects,
    if o.1 = k then '=' ∉ o.2 else firstPiece '=' (o.1.drop (k.length + 1)) = given k objects))

theorem read_eq_given_iff {k : Str} (hk : '=' ∉ k) (objects : List (Str × Str)) :
    read k objects = given k objects ↔ Undisturbed k objects := by
  unfold read Undisturbed
  cases hlast : lastTaken k objects with
  | none =>
      have hgiven : given k objects = [] := by
        unfold given
        cases h : (objects.filter fun o => o.1 = k).getLast? with
        | none => rfl
        | some o =>
            have hmem := List.mem_of_getLast? h
            rw [List.mem_filter, decide_eq_true_iff] at hmem
            obtain ⟨o', ho'⟩ := exists_lastTaken hk hmem.1 hmem.2
            exact absurd (hlast.symm.trans ho') (by simp)
      simp [hgiven]
  | some o =>
      simp only [Option.map_some, Option.getD_some, Option.mem_def, Option.some.injEq,
        forall_eq']
      unfold heard
      split_ifs with ho
      · rw [given_of_lastTaken hk hlast ho, firstPiece_eq_self_iff]
      · exact Iff.rfl

/-! ## The record of a trap -/

/-- The last argument with a key is that of the object taken. -/
theorem getLast?_taken {β : Type} (k : Str) (f : Str → β) (objects : List (Str × Str)) :
    (((objects.map toArgument).filter fun token => keyOf token = k).getLast?).map
        (fun token => f (valueOf token))
      = (lastTaken k objects).map fun o => f (heard k o) := by
  have hfilter : objects.filter ((fun token => decide (keyOf token = k)) ∘ toArgument)
      = objects.filter fun o => firstPiece '=' o.1 = k := by
    apply List.filter_congr
    intro o _
    rw [Function.comp_apply, keyOf_toArgument]
  rw [List.filter_map, hfilter, List.getLast?_map, Option.map_map]
  cases h : lastTaken k objects with
  | none =>
      unfold lastTaken at h
      rw [h]
      rfl
  | some o =>
      have hvalue := valueOf_toArgument (oid_of_lastTaken h).2
      unfold lastTaken at h
      rw [h, Option.map_some, Option.map_some, Function.comp_apply, hvalue]

namespace EventPlugin

variable (p : EventPlugin)

/-- The record that is printed for a trap. -/
def recordOf (objects : List (Str × Str)) : EventRecord where
  host_address := []
  host_name := read p.hostname objects
  svc_desc := p.svcDesc.elim [] fun k => read k objects
  status := (lastTaken p.stateID objects).map fun o => p.status (heard p.stateID o)
  output := read p.output objects
  perfdata := []
  svc_id := []

/-- What the assignments for the objects of a trap make. -/
def assigned (objects : List (Str × Str)) : EventRecord :=
  (objects.map toArgument).foldl (fun r token => p.assign r (keyOf token) (valueOf token)) .empty

/-- A variable with a key has what is heard under it. -/
theorem assigned_of_key {β : Type} {var : EventRecord → β} {k : Str} {f : Str → β}
    (hvar : ∀ r key value, var (p.assign r key value) = if key = k then f value else var r)
    (objects : List (Str × Str)) :
    var (p.assigned objects)
      = ((lastTaken k objects).map fun o => f (heard k o)).getD (var .empty) := by
  rw [← getLast?_taken]
  apply foldl_assign p var (P := fun key => decide (key = k))
  intro r key value
  rw [hvar]
  simp only [decide_eq_true_eq]

/-- A variable without key is left. -/
theorem assigned_of_unset {β : Type} {var : EventRecord → β}
    (hvar : ∀ r key value, var (p.assign r key value) = var r) (objects : List (Str × Str)) :
    var (p.assigned objects) = var .empty := by
  have hfold := foldl_assign p var (P := fun _ => false) (f := fun _ => var .empty)
    (fun r key value => hvar r key value) .empty (objects.map toArgument)
  rw [List.filter_false] at hfold
  exact hfold

/-- The assignments for the objects of a trap make its record. -/
theorem assigned_eq (objects : List (Str × Str)) : p.assigned objects = p.recordOf objects := by
  ext1
  · exact p.assigned_of_unset (fun r key value => (p.assign_unset r key value).1) objects
  · exact p.assigned_of_key (f := id) p.assign_host_name objects
  · cases hdesc : p.svcDesc with
    | none =>
        have hvar : ∀ r key value, (p.assign r key value).svc_desc = r.svc_desc := by
          intro r key value
          rw [assign_svc_desc, hdesc, if_neg (by simp)]
        rw [p.assigned_of_unset hvar, recordOf, hdesc]
        rfl
    | some k =>
        have hvar : ∀ r key value,
            (p.assign r key value).svc_desc = if key = k then id value else r.svc_desc := by
          intro r key value
          rw [assign_svc_desc, hdesc]
          simp
        rw [p.assigned_of_key hvar, recordOf, hdesc]
        rfl
  · rw [p.assigned_of_key p.assign_status, recordOf]
    cases lastTaken p.stateID objects <;> rfl
  · exact p.assigned_of_key (f := id) p.assign_output objects
  · exact p.assigned_of_unset (fun r key value => (p.assign_unset r key value).2.1) objects
  · exact p.assigned_of_unset (fun r key value => (p.assign_unset r key value).2.2) objects

end EventPlugin

/-! ## The printed record -/

/-- A text that is one field of a record, on one line. -/
def IsRecordField (s : Str) : Prop := '|' ∉ s ∧ '\r' ∉ s ∧ '\n' ∉ s

instance (s : Str) : Decidable (IsRecordField s) := inferInstanceAs (Decidable (_ ∧ _))

/-- The empty text is a field. -/
theorem isRecordField_nil : IsRecordField [] := by decide

/-- So is a status. -/
theorem isRecordField_statusText (r : EventRecord) : IsRecordField r.statusText := by
  unfold EventRecord.statusText
  cases r.status with
  | none => exact isRecordField_nil
  | some n =>
      exact ⟨not_mem_decimal (by decide) (by decide), not_mem_decimal (by decide) (by decide),
        not_mem_decimal (by decide) (by decide)⟩

/-- The fields of a record are read back from its line. -/
theorem fieldsRead_print {r : EventRecord} (hr : ∀ s ∈ r.fields, IsRecordField s) :
    fieldsRead r.print = r.fields := by
  have htext : lineText r.print = ['|'].intercalate r.fields := by
    unfold lineText EventRecord.print
    rw [List.getLast?_concat, if_pos rfl, List.dropLast_concat]
  have hprinted : printedFields r.print = r.fields := by
    unfold printedFields
    rw [htext]
    exact List.splitOn_intercalate '|' (fun s hs => (hr s hs).1) (List.cons_ne_nil _ _)
  rw [fieldsRead, hprinted]
  exact (List.map_congr_left fun s hs =>
    withoutEnds_eq_self_iff.mpr ⟨(hr s hs).2.2, (hr s hs).2.1⟩).trans (List.map_id _)

/-- A record is parsed to its fields, with empty names filled from the item. -/
theorem parseResultStr_print {r : EventRecord} (hr : ∀ s ∈ r.fields, IsRecordField s) {n : ℕ}
    (hstatus : r.status = some n) (hn : n ≤ 3) (db : Db) (is_service : IsService)
    (host svc : Option ℕ) (use_sender_address : Bool) :
    ∃ result, parseResultStr db r.print is_service host svc use_sender_address
        = .ok (some result) ∧
      result.is_service = chooseService is_service (some r.svc_desc) ∧
      result.host_name.getD [] = nameOf db host svc result.is_service r.host_name ∧
      result.svc_desc.getD []
        = (if result.is_service then descOf db svc r.svc_desc else r.svc_desc) ∧
      result.output.getD [] = r.output ∧ result.ret_value = n := by
  have htext : r.statusText = decimal n := by
    unfold EventRecord.statusText
    rw [hstatus]
    rfl
  have hdigits : isInteger (some r.statusText) = true := by
    rw [htext]
    interval_cases n <;> decide
  refine ⟨_, parseResultStr_eq (fieldsRead_print hr) db is_service host svc use_sender_address, ?_⟩
  obtain ⟨hservice, hname, hdesc⟩ := @makeResult_names db is_service host svc use_sender_address
    r.host_address r.host_name r.svc_desc r.statusText r.output r.perfdata r.svc_id hdigits _ rfl
  refine ⟨hservice, hname, hdesc, ?_, ?_⟩
  · rw [makeResult, fillResult_output]
    cases r.output <;> rfl
  · rw [makeResult, fillResult_ret_value, htext, atoi_decimal] <;> omega

/-! ## What comes back -/

/-- A line gives back exactly these values, whatever the database and the item; a plugin for
hosts gives no description. -/
def Yields (line host_name : Str) (svc_desc : Option Str) (output : Str) (status : ℕ) : Prop :=
  ∀ (db : Db) (is_service : IsService) (host svc : Option ℕ) (use_sender_address : Bool),
    ∃ r, parseResultStr db line is_service host svc use_sender_address = .ok (some r) ∧
      r.host_name.getD [] = host_name ∧
      ((svc_desc = none → r.is_service = false) → r.svc_desc.getD [] = svc_desc.getD []) ∧
      r.output.getD [] = output ∧ r.ret_value = status

/-- A host `h`, and a service `d` of it. -/
def hostAndService : DbRows where
  resources := []
  commands := [⟨['1'], Text.single 'p', Text.single 'p', ['0']⟩]
  hosts := [⟨Text.single 'h', Text.single 'a', ['1'], none⟩]
  svcs := [⟨Text.single 'd', Text.single 'h', Text.single 'a', ['1'], none⟩]
  trap_handlers := []

/-- A database with both. -/
def hostAndServiceDb : Db := daemonDb HashTable.empty hostAndService

section

variable {r : EventRecord} (hr : ∀ s ∈ r.fields, IsRecordField s) {n : ℕ}
  (hstatus : r.status = some n) (hn : n ≤ 3) {svc_desc : Option Str} {host_name output : Str}
  {status : ℕ}

include hr hstatus hn

/-- What a printed record gives back without tables are its fields. -/
theorem fields_of_yields (h : Yields r.print host_name svc_desc output status) :
    r.host_name = host_name ∧ (∀ d ∈ svc_desc, r.svc_desc = d) ∧ r.output = output ∧ n = status := by
  have hbare : ∀ (service : Bool) (s : Str), nameOf bareDb none none service s = s ∧
      (if service then descOf bareDb none s else s) = s := by
    intro service s
    cases service <;> cases s <;> exact ⟨rfl, rfl⟩
  obtain ⟨result, hresult, hname, hdesc, houtput, hcode⟩ := h bareDb .no none none true
  obtain ⟨result', hresult', hservice, hname', hdesc', houtput', hcode'⟩ :=
    parseResultStr_print hr hstatus hn bareDb .no none none true
  obtain rfl := Option.some.inj (Except.ok.inj (hresult.symm.trans hresult'))
  rw [(hbare _ _).1, hname] at hname'
  rw [(hbare _ _).2, hdesc fun _ => hservice] at hdesc'
  rw [houtput] at houtput'
  refine ⟨hname'.symm, ?_, houtput'.symm, by exact_mod_cast hcode'.symm.trans hcode⟩
  rintro d rfl
  exact hdesc'.symm

/-- A name that is given back is not empty: an empty one is filled from the item. -/
theorem ne_nil_of_yields (h : Yields r.print host_name svc_desc output status) :
    host_name ≠ [] ∧ ∀ d ∈ svc_desc, d ≠ [] := by
  obtain ⟨hname, hdesc, -, -⟩ := fields_of_yields hr hstatus hn h
  constructor
  · rintro rfl
    obtain ⟨result, hresult, hempty, -⟩ := h hostAndServiceDb .no (some 0) none true
    obtain ⟨result', hresult', hno, hfilled, -⟩ :=
      parseResultStr_print hr hstatus hn hostAndServiceDb .no (some 0) none true
    obtain rfl := Option.some.inj (Except.ok.inj (hresult.symm.trans hresult'))
    have hhost : result.is_service = false := hno
    rw [hempty, hhost, hname] at hfilled
    exact absurd hfilled (by decide)
  · rintro d rfl rfl
    obtain ⟨result, hresult, -, hempty, -⟩ := h hostAndServiceDb .yes none (some 0) true
    obtain ⟨result', hresult', hyes, -, hfilled, -⟩ :=
      parseResultStr_print hr hstatus hn hostAndServiceDb .yes none (some 0) true
    obtain rfl := Option.some.inj (Except.ok.inj (hresult.symm.trans hresult'))
    have hservice : result.is_service = true := hyes
    rw [hempty (by simp), hservice, hdesc [] rfl] at hfilled
    exact absurd hfilled (by decide)

/-- **A printed record gives back** its fields, and its names when they are not empty: an empty
one is filled with what is stored for the item. -/
theorem yields_print_iff (hnone : svc_desc = none → r.svc_desc = []) :
    Yields r.print host_name svc_desc output status ↔
      (r.host_name = host_name ∧ host_name ≠ []) ∧ (∀ d ∈ svc_desc, r.svc_desc = d ∧ d ≠ []) ∧
        r.output = output ∧ n = status := by
  constructor
  · intro h
    obtain ⟨hname, hdesc, houtput, hcode⟩ := fields_of_yields hr hstatus hn h
    obtain ⟨hne, hdne⟩ := ne_nil_of_yields hr hstatus hn h
    exact ⟨⟨hname, hne⟩, fun d hd => ⟨hdesc d hd, hdne d hd⟩, houtput, hcode⟩
  · rintro ⟨⟨rfl, hname⟩, hdesc, rfl, rfl⟩ db is_service host svc u
    obtain ⟨result, hresult, -, hname', hdesc', houtput, hcode⟩ :=
      parseResultStr_print hr hstatus hn db is_service host svc u
    refine ⟨result, hresult, hname'.trans (if_pos hname), fun hservice => ?_, houtput, hcode⟩
    cases svc_desc with
    | none => rw [hdesc', hservice rfl, hnone rfl]; rfl
    | some d =>
        obtain ⟨rfl, hne⟩ := hdesc d rfl
        rw [hdesc', descOf, if_pos hne, ite_self]
        rfl

end

/-- What a plugin reads for a text stands in its value, or in an OID. -/
theorem isRecordField_read {k : Str} (hk : '=' ∉ k) {objects : List (Str × Str)}
    (hgiven : IsRecordField (given k objects))
    (hoids : ∀ o ∈ objects, k ++ ['='] <+: o.1 → IsRecordField o.1) :
    IsRecordField (read k objects) := by
  unfold read
  cases hlast : lastTaken k objects with
  | none => exact isRecordField_nil
  | some o =>
      obtain ⟨hmem, hfirst⟩ := oid_of_lastTaken hlast
      have hsource : ∃ s, IsRecordField s ∧ ∀ c ∈ heard k o, c ∈ s := by
        unfold heard
        split_ifs with ho
        · exact ⟨o.2, given_of_lastTaken hk hlast ho ▸ hgiven, fun c => mem_of_mem_firstPiece⟩
        · obtain ⟨t, ht⟩ := ((firstPiece_eq_iff hk).mp hfirst).resolve_left ho
          refine ⟨o.1, hoids o hmem ⟨t, by rw [ht]; simp⟩, fun c hc => ?_⟩
          exact List.mem_of_mem_drop (mem_of_mem_firstPiece hc)
      obtain ⟨s, ⟨hbar, hcr, hlf⟩, hsub⟩ := hsource
      exact ⟨mt (hsub _) hbar, mt (hsub _) hcr, mt (hsub _) hlf⟩

namespace EventPlugin

variable (p : EventPlugin)

/-- The record that a plugin prints gives back what the trap says. -/
def Agrees (awk : Awk) (objects : List (Str × Str)) : Prop :=
  Yields (p.main awk (objects.map toArgument)) (given p.hostname objects)
    (p.svcDesc.map fun k => given k objects) (given p.output objects)
    (p.status (given p.stateID objects))

/-- There are four states. -/
theorem status_le (value : Str) : p.status value ≤ 3 := by
  unfold status
  split_ifs <;> omega

/-- What a plugin prints for a trap. -/
theorem main_toArgument {awk : Awk} {objects : List (Str × Str)}
    (hawk : awk (objects.map toArgument) = some (objects.map toArgument))
    (hhelp : ∀ o ∈ objects, firstPiece '=' o.1 ≠ helpKey) :
    p.main awk (objects.map toArgument) = (p.recordOf objects).print := by
  have hkeys : helpKey ∉ (objects.map toArgument).map keyOf := by
    intro hmem
    rw [List.map_map, List.mem_map] at hmem
    obtain ⟨o, ho, hkey⟩ := hmem
    exact hhelp o ho ((keyOf_toArgument o).symm.trans hkey)
  unfold main
  rw [hawk]
  simp only
  rw [loop_eq, if_neg hkeys, ← assigned_eq]
  rfl

/-- An argument that asks for help leaves no record. -/
theorem main_help {awk : Awk} {objects : List (Str × Str)}
    (hawk : awk (objects.map toArgument) = some (objects.map toArgument)) {o : Str × Str}
    (ho : o ∈ objects) (hkey : firstPiece '=' o.1 = helpKey) :
    p.main awk (objects.map toArgument) = usageText := by
  have hkeys : helpKey ∈ (objects.map toArgument).map keyOf := by
    rw [List.map_map, List.mem_map]
    exact ⟨o, ho, (keyOf_toArgument o).trans hkey⟩
  unfold main
  rw [hawk]
  simp only
  rw [loop_eq, if_pos hkeys]

/-- Awk leaves the arguments of these objects to the plugin. -/
def OperandFirst (objects : List (Str × Str)) : Prop := ∀ o ∈ objects.head?, o.1.head? ≠ some '-'

instance (objects : List (Str × Str)) : Decidable (OperandFirst objects) :=
  inferInstanceAs (Decidable (∀ o ∈ objects.head?, o.1.head? ≠ some '-'))

/-- Then a lawful awk leaves them all. -/
theorem OperandFirst.awk_eq {objects : List (Str × Str)} (h : OperandFirst objects) {awk : Awk}
    (hawk : awk.Lawful) : awk (objects.map toArgument) = some (objects.map toArgument) := by
  apply hawk
  rw [List.head?_map]
  intro arg harg
  obtain ⟨o, ho, rfl⟩ := Option.mem_map.mp harg
  have hfirst := h o ho
  obtain ⟨oid, value⟩ := o
  cases oid with
  | nil => simp [toArgument]
  | cons c oid => exact hfirst

/-- No equality sign and no call for help alters what the trap says, and the names are there. -/
structure Undistorted (objects : List (Str × Str)) : Prop where
  help : ∀ o ∈ objects, firstPiece '=' o.1 ≠ helpKey
  texts : ∀ k ∈ p.textKeys, Undisturbed k objects
  state : ∀ o ∈ lastTaken p.stateID objects,
    if o.1 = p.stateID then '=' ∈ o.2 → firstPiece '=' o.2 ∉ [p.state0, p.state1, p.state2]
    else p.status (firstPiece '=' (o.1.drop (p.stateID.length + 1)))
      = p.status (given p.stateID objects)
  host_name : given p.hostname objects ≠ []
  svc_desc : ∀ k ∈ p.svcDesc, given k objects ≠ []

/-- A text that is no name of a state. -/
theorem status_eq_three_iff (value : Str) :
    p.status value = 3 ↔ value ∉ [p.state0, p.state1, p.state2] := by
  unfold status
  split_ifs <;> simp [*]

/-- The state arrives under this condition. -/
theorem status_heard_iff {objects : List (Str × Str)} {o : Str × Str}
    (hlast : lastTaken p.stateID objects = some o) :
    p.status (heard p.stateID o) = p.status (given p.stateID objects) ↔
      if o.1 = p.stateID then '=' ∈ o.2 → firstPiece '=' o.2 ∉ [p.state0, p.state1, p.state2]
      else p.status (firstPiece '=' (o.1.drop (p.stateID.length + 1)))
        = p.status (given p.stateID objects) := by
  have hkey : '=' ∉ p.stateID := p.keys_plain _ (by simp)
  unfold heard
  split_ifs with ho
  · rw [given_of_lastTaken hkey hlast ho]
    by_cases hmem : '=' ∈ o.2
    · have hthree : p.status o.2 = 3 := (p.status_eq_three_iff _).mpr fun hstate =>
        p.states_plain _ hstate hmem
      rw [hthree, status_eq_three_iff]
      simp [hmem]
    · rw [firstPiece_eq_self_iff.mpr hmem]
      simp [hmem]
  · exact Iff.rfl

/-- The OIDs of texts have no equality sign. -/
theorem notMem_of_textKeys {k : Str} (hk : k ∈ p.textKeys) : '=' ∉ k := by
  apply p.keys_plain
  simp only [textKeys, List.mem_cons] at hk ⊢
  tauto

/-- All texts arrive under this condition. -/
theorem texts_iff (objects : List (Str × Str)) :
    (∀ k ∈ p.textKeys, Undisturbed k objects) ↔
      read p.hostname objects = given p.hostname objects ∧
        read p.output objects = given p.output objects ∧
        ∀ k ∈ p.svcDesc, read k objects = given k objects := by
  have hread : ∀ k ∈ p.textKeys, (Undisturbed k objects ↔ read k objects = given k objects) :=
    fun k hk => (read_eq_given_iff (p.notMem_of_textKeys hk) objects).symm
  rw [forall₂_congr hread]
  simp only [textKeys, List.forall_mem_cons, Option.mem_toList]
  rfl

/-- **What a plugin that runs prints** gives back what the trap says when nothing is altered. -/
theorem agrees_iff {awk : Awk} {objects : List (Str × Str)}
    (hawk : awk (objects.map toArgument) = some (objects.map toArgument))
    (hhelp : ∀ o ∈ objects, firstPiece '=' o.1 ≠ helpKey)
    (hfields : ∀ k ∈ p.textKeys, IsRecordField (read k objects)) {o : Str × Str}
    (hlast : lastTaken p.stateID objects = some o) :
    p.Agrees awk objects ↔ p.Undistorted objects := by
  have hdesc : IsRecordField (p.recordOf objects).svc_desc := by
    show IsRecordField (p.svcDesc.elim [] fun k => read k objects)
    cases h : p.svcDesc with
    | none => exact isRecordField_nil
    | some k => exact hfields k (by simp [textKeys, h])
  have hprint : ∀ s ∈ (p.recordOf objects).fields, IsRecordField s := by
    simp only [EventRecord.fields, List.forall_mem_cons, List.not_mem_nil, false_imp_iff,
      implies_true, and_true]
    exact ⟨isRecordField_nil, hfields _ (by simp [textKeys]), hdesc, isRecordField_statusText _,
      hfields _ (by simp [textKeys]), isRecordField_nil, isRecordField_nil⟩
  have hstatus : (p.recordOf objects).status = some (p.status (heard p.stateID o)) := by
    rw [recordOf, hlast]
    rfl
  -- the host plugin has no description to give back
  have hnone : (p.svcDesc.map fun k => given k objects) = none →
      (p.recordOf objects).svc_desc = [] := by
    intro h
    rw [recordOf, Option.map_eq_none_iff.mp h]
    rfl
  have hdescs : (∀ d ∈ p.svcDesc.map fun k => given k objects,
        (p.recordOf objects).svc_desc = d ∧ d ≠ []) ↔
      ∀ k ∈ p.svcDesc, read k objects = given k objects ∧ given k objects ≠ [] := by
    unfold recordOf
    cases p.svcDesc <;> simp
  unfold Agrees
  rw [p.main_toArgument hawk hhelp,
    yields_print_iff hprint hstatus (p.status_le _) hnone, hdescs, p.status_heard_iff hlast]
  constructor
  · rintro ⟨⟨hname, hne⟩, hdesc, houtput, hstate⟩
    refine ⟨hhelp, (p.texts_iff _).mpr ⟨hname, houtput, fun k hk => (hdesc k hk).1⟩,
      fun o' ho' => ?_, hne, fun k hk => (hdesc k hk).2⟩
    obtain rfl := Option.some.inj (hlast.symm.trans ho')
    exact hstate
  · rintro ⟨-, htexts, hstate, hne, hdesc⟩
    obtain ⟨hname, houtput, hread⟩ := (p.texts_iff _).mp htexts
    exact ⟨⟨hname, hne⟩, fun k hk => ⟨hread k hk, hdesc k hk⟩, houtput, hstate o hlast⟩

end EventPlugin

/-- **The record of a plugin agrees with its parser** when awk takes no argument for an option,
no equality sign and no call for help alters what the trap says, and the names are not empty;
as long as no OID that is taken for another one holds a separator of the record, only then.
Where awk refuses the arguments there is no record. -/
theorem record_agrees_iff {awk : Awk} (hawk : awk.Lawful) (p : EventPlugin) (trap : Trap)
    (hstate : ∃ o ∈ trap.arguments, o.1 = p.stateID)
    (htexts : ∀ k ∈ p.textKeys, IsRecordField (given k trap.arguments)) :
    (EventPlugin.OperandFirst trap.arguments → p.Undistorted trap.arguments →
        p.Agrees awk trap.arguments) ∧
      (EventPlugin.OperandFirst trap.arguments →
        (∀ o ∈ trap.arguments, ∀ k ∈ p.textKeys, k ++ ['='] <+: o.1 → IsRecordField o.1) →
        p.Agrees awk trap.arguments → p.Undistorted trap.arguments) ∧
      (awk (trap.arguments.map toArgument) = none → ¬ p.Agrees awk trap.arguments) := by
  obtain ⟨o, ho, hoid⟩ := hstate
  obtain ⟨last, hlast⟩ := exists_lastTaken (p.keys_plain _ (by simp)) ho hoid
  refine ⟨fun hfirst h => ?_, fun hfirst hoids hagrees => ?_, fun hnone hagrees => ?_⟩
  · have hread : ∀ k ∈ p.textKeys, IsRecordField (read k trap.arguments) := fun k hk =>
      (read_eq_given_iff (p.notMem_of_textKeys hk) _).mpr (h.texts k hk) ▸ htexts k hk
    exact (p.agrees_iff (hfirst.awk_eq hawk) h.help hread hlast).mpr h
  · have hleft := hfirst.awk_eq hawk
    -- the text of the help has no seven fields, so that the daemon would stop at it
    have hhelp : ∀ o ∈ trap.arguments, firstPiece '=' o.1 ≠ helpKey := by
      intro o ho hkey
      obtain ⟨r, hr, -⟩ := hagrees bareDb .no none none true
      have husage : parseResultStr bareDb usageText .no none none true = .error .nullString := by
        decide
      rw [p.main_help hleft ho hkey, husage] at hr
      exact absurd hr (by simp)
    exact (p.agrees_iff hleft hhelp (fun k hk => isRecordField_read (p.notMem_of_textKeys hk)
      (htexts k hk) fun o ho => hoids o ho k hk) hlast).mp hagrees
  -- an awk that stops prints nothing
  · obtain ⟨r, hr, -⟩ := hagrees bareDb .no none none true
    have hempty : p.main awk (trap.arguments.map toArgument) = [] := by
      unfold EventPlugin.main
      rw [hnone]
    have hblank : parseResultStr bareDb [] .no none none true = .ok none := by decide
    rw [hempty, hblank] at hr
    exact absurd hr (by simp)

/-- An object of a trap. -/
def objectOf (oid value : Str) : MibObject :=
  ⟨some oid, some ⟨value.length + 1, value, true⟩, .unset⟩

/-- A trap about the service `disk` of the host `h`. -/
def diskTrap : Trap :=
  { allocTrap with
    objects := [objectOf nagiosEventService.hostname "h".toList,
      objectOf "NAGIOS-NOTIFY-MIB::sSvcDesc".toList "disk".toList,
      objectOf nagiosEventService.stateID "critical".toList,
      objectOf nagiosEventService.output "full".toList] }

/-- An awk that takes every first argument with a hyphen for an option that it does not know. -/
def strictAwk : Awk := fun argv =>
  if ∀ arg ∈ argv.head?, arg.head? ≠ some '-' then some argv else none

/-- It is lawful. -/
theorem strictAwk_lawful : strictAwk.Lawful := fun _ h => if_pos h

/-- Its record agrees. -/
theorem record_agrees_disk : nagiosEventService.Agrees strictAwk diskTrap.arguments :=
  (record_agrees_iff strictAwk_lawful nagiosEventService diskTrap (by decide) (by decide)).1
    (by decide) ⟨by decide, by decide, by decide, by decide, by decide⟩

/-- A trap about the host `h`, with an equality sign in the output. -/
def loadTrap : Trap :=
  { allocTrap with
    objects := [objectOf nagiosEventHost.hostname "h".toList,
      objectOf nagiosEventHost.stateID "down".toList,
      objectOf nagiosEventHost.output "load=9".toList] }

/-- The output of this trap is cut. -/
theorem not_record_agrees :
    ¬ ∀ awk : Awk, awk.Lawful → ∀ trap : Trap,
      (∃ o ∈ trap.arguments, o.1 = nagiosEventHost.stateID) →
      (∀ k ∈ nagiosEventHost.textKeys,
        IsRecordField (given k trap.arguments) ∧ '"' ∉ given k trap.arguments) →
      nagiosEventHost.Agrees awk trap.arguments := by
  intro h
  obtain ⟨r, hr, -, -, houtput, -⟩ :=
    h strictAwk strictAwk_lawful loadTrap (by decide) (by decide) bareDb .no none none true
  have hparse : parseResultStr bareDb
      (nagiosEventHost.main strictAwk (loadTrap.arguments.map toArgument)) .no none none true
        = .ok (some ⟨true, false, true, .unset, none, some ['h'], none, 1, some "load".toList,
          none, true, 0⟩) := by
    decide
  rw [hparse] at hr
  obtain rfl := Option.some.inj (Except.ok.inj hr)
  exact absurd houtput (by decide)

end Trapd
