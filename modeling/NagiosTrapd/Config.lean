/-
# The configuration (`config.c`)

The options are a table of keys with their values, which the program starts with the defaults of.
`config_load` reads the ini file; when an option for the database is missing, it has the PHP
interpreter print all four of them, out of the configuration of Nagios; and a trap tokenizer that
is given on the command line takes the place of the one in the table.

**Main results:** `config_load_options` and `config_load_db` say which value every option has
then, whatever the file contains.  `config_dump_load`: what `config_dump` prints is a
configuration file from which the same options are loaded, except that `NULL` becomes a text.
-/
import NagiosTrapd.IniLoad

namespace Trapd

open Scanf

/-! ## The options -/

/-- `struct option_element`. -/
structure OptionElement where
  key : Str
  value : Option Str
  mandatory : Bool
  deriving DecidableEq, Repr

/-- An option of the table, none of which is mandatory. -/
def optionElement (key : String) (value : Option String) : OptionElement :=
  ⟨key.toList, value.map String.toList, false⟩

/-- `options`, as the program starts with them. -/
def options (ndebug : Bool) : List OptionElement :=
  [optionElement ":daemonize" "true",
    optionElement ":db_host" none,
    optionElement ":db_user" none,
    optionElement ":db_password" none,
    optionElement ":db_name" none]
  ++ (if ndebug then [] else [optionElement ":debug_log" "/var/log/nagiostrapd.debug"])
  ++ [optionElement ":diagnostics_pool" "/var/spool/nagiostrapd/diagnostics",
    optionElement ":enable_monitor" "true",
    optionElement ":error_log" "/var/log/nagiostrapd.error",
    optionElement ":listen_on_private_socket" "false",
    optionElement ":localhost_only" "true",
    optionElement ":local_socket_prefix" "/tmp/nagiostrapd",
    optionElement ":log_verbosity" "warning",
    optionElement ":monitor_port_number" "6111",
    optionElement ":nagios_pipe" "/usr/local/nagios/var/rw/nagios.cmd",
    optionElement ":pending_connections" "100",
    optionElement ":php_cli" "/usr/bin/php",
    optionElement ":pid_file" "/var/run/nagiostrapd.pid",
    optionElement ":plugins_max_executions" "10000",
    optionElement ":port_number" "6110",
    optionElement ":query_source_file" "/etc/nagiostrapd/nagiostrapd.sql",
    optionElement ":send_enabled" "true",
    optionElement ":nagios_conf_file" "/usr/local/nagios/nagios.conf.php",
    optionElement ":socket_reuse" "true",
    optionElement ":socket_set_nonblocking" "false",
    optionElement ":temp_dir" "/tmp",
    optionElement ":threadpool_size" "5",
    optionElement ":trap_log" "/var/log/nagiostrapd.traps",
    optionElement ":trap_log_delimiter" ",",
    optionElement ":trap_rate_threshold" ".005",
    optionElement ":trap_serialize_mode" "new",
    optionElement ":trap_tokenizer" "@TRAPTKN@",
    optionElement ":workers" "5"]

/-- The options that `parse_nagios_conf` sets, in its order. -/
def dbKeys : List Str :=
  [":db_host".toList, ":db_user".toList, ":db_password".toList, ":db_name".toList]

/-- The options that say how PHP is run. -/
def phpKeys : List Str :=
  [":nagios_conf_file".toList, ":php_cli".toList, ":temp_dir".toList]

def trapTokenizerKey : Str := ":trap_tokenizer".toList

/-- Why the configuration is not loaded: `log_critical` exits, or a buffer is left. -/
inductive ConfigStop where
  | exit
  | fault
  deriving DecidableEq, Repr

/-- `config_get_option_value`. -/
def configGetOptionValue (os : List OptionElement) (key : Str) : Except ConfigStop (Option Str) :=
  match os.find? (·.key = key) with
  | some o => .ok o.value
  | none => .error .exit

/-- `set_option_value`; `none` if it returns 0. -/
def setOptionValue (os : List OptionElement) (key : Str) (value : Option Str) (not_null : Bool) :
    Option (List OptionElement) :=
  if isEmpty (some key) then some os
  else if isEmpty value && not_null then none
  else os.mapM fun o =>
    if o.key = key then
      if o.mandatory && isEmpty value then none else some { o with value := xstrdup value }
    else some o

/-! ## Loading -/

/-- `parse_file`, of the dictionary that `iniparser_load` has returned; `none` if it returns 0. -/
def parseFile (ini : Dictionary) (os : List OptionElement) : Option (List OptionElement) :=
  os.mapM fun o =>
    let value := iniparserGetstring ini o.key o.value
    if isEmpty value then
      if o.mandatory then none else some { o with value := none }
    else some { o with value := xstrdup value }

/-- `%[^|]|%[^|]|%[^|]|%[^|\n]\n`. -/
def phpFormat : List (Directive Char) :=
  [.field (· ≠ '|'), .exactly '|', .field (· ≠ '|'), .exactly '|', .field (· ≠ '|'), .exactly '|',
    .field fun c => c ≠ '|' ∧ c ≠ '\n', .blanks]

/-- What PHP prints, given the names of the configuration file of Nagios, of the interpreter and
of the directory for temporary files; nothing if one of the steps to it fails. -/
abbrev Php := Option Str → Option Str → Option Str → Option Str

/-- `parse_nagios_conf`, which returns 1 or does not return. -/
def parseNagiosConf (php : Php) (filename php_cli temp_dir : Option Str)
    (os : List OptionElement) : Except ConfigStop (List OptionElement) :=
  match php filename php_cli temp_dir with
  | none => .error .exit
  | some printed =>
      let fields := scan isspace phpFormat printed
      if ∃ field ∈ fields, TMPBUFLEN ≤ field.length then .error .fault
      else if fields.length ≠ 4 then .error .exit
      else
        match (dbKeys.zip fields).foldlM (fun os (key, value) =>
          setOptionValue os key (some value) true) os with
        | none => .error .exit
        | some os => .ok os

/-- `log_critical` in place of a result that is missing. -/
def orExit {α : Type} : Option α → Except ConfigStop α
  | some a => .ok a
  | none => .error .exit

/-- The dictionary, if there is one. -/
def IniResult.orExit : IniResult → Except ConfigStop Dictionary
  | .dict d => .ok d
  | .null => .error .exit
  | .fault => .error .fault

/-- The options for the database in `config_load`: PHP is asked when one of them is missing. -/
def configLoadDb (php : Php) (os : List OptionElement) : Except ConfigStop (List OptionElement) := do
  let values ← dbKeys.mapM (configGetOptionValue os)
  if values.any isEmpty then do
    let filename ← configGetOptionValue os ":nagios_conf_file".toList
    let php_cli ← configGetOptionValue os ":php_cli".toList
    let temp_dir ← configGetOptionValue os ":temp_dir".toList
    parseNagiosConf php filename php_cli temp_dir os
  else .ok os

/-- `config_load`, of a file with these contents, if it can be opened. -/
def configLoad (before : Char) (config_file : Option Str) (php : Php)
    (trap_tokenizer : Option Str) (os : List OptionElement) :
    Except ConfigStop (List OptionElement) := do
  let ini ← (iniparserLoad before config_file).orExit
  let os ← orExit (parseFile ini os)
  let os ← configLoadDb php os
  if isEmpty trap_tokenizer then .ok os
  else orExit (setOptionValue os trapTokenizerKey trap_tokenizer true)

/-- The text that `printf` prints for `NULL`. -/
def nullText : Str := "(null)".toList

/-- `config_dump`. -/
def configDump (os : List OptionElement) : Str :=
  os.flatMap fun o => o.key.drop 1 ++ '=' :: '"' :: o.value.getD nullText ++ ['"', '\n']

/-! ## What loading does to one option -/

/-- An option as the file leaves it. -/
def fileOption (ini : Dictionary) (o : OptionElement) : OptionElement :=
  { o with value := xstrdup (iniparserGetstring ini o.key o.value) }

/-- An option as it is when a value has been set. -/
def setTo (key value : Str) (o : OptionElement) : OptionElement :=
  if o.key = key then { o with value := some value } else o

/-- An option from the file keeps its key. -/
@[simp] theorem fileOption_key (ini : Dictionary) (o : OptionElement) :
    (fileOption ini o).key = o.key := rfl

/-- So does one that is set. -/
@[simp] theorem setTo_key (key value : Str) (o : OptionElement) :
    (setTo key value o).key = o.key := by
  rw [setTo]
  split_ifs <;> rfl

/-- It stays as mandatory as it is. -/
@[simp] theorem setTo_mandatory (key value : Str) (o : OptionElement) :
    (setTo key value o).mandatory = o.mandatory := by
  rw [setTo]
  split_ifs <;> rfl

/-- It has the value when it has the key. -/
theorem setTo_value (key value : Str) (o : OptionElement) :
    (setTo key value o).value = if o.key = key then some value else o.value := by
  rw [setTo]
  split_ifs <;> rfl

/-- `xstrdup` tells what is empty. -/
theorem isEmpty_eq_true_iff {s : Option Str} : isEmpty s = true ↔ xstrdup s = none := by
  cases s with
  | none => simp [isEmpty]
  | some s =>
      cases s with
      | nil => simp [isEmpty, xstrdup]
      | cons c s => simp [isEmpty, xstrdup]

/-- A map whose effects are none is a plain one. -/
theorem mapM_eq_pure {μ : Type → Type} [Monad μ] [LawfulMonad μ] {α β : Type} {f : α → μ β}
    {g : α → β} {as : List α} (h : ∀ a ∈ as, f a = pure (g a)) :
    as.mapM f = pure (as.map g) := by
  induction as with
  | nil => rw [List.mapM_nil, List.map_nil]
  | cons a as ih =>
      rw [List.mapM_cons, h a List.mem_cons_self,
        ih fun b hb => h b (List.mem_cons_of_mem a hb), pure_bind, pure_bind, List.map_cons]

variable {os : List OptionElement}

/-- **`parse_file`** goes through all options when none is mandatory. -/
theorem parseFile_eq (hmandatory : ∀ o ∈ os, o.mandatory = false) (ini : Dictionary) :
    parseFile ini os = some (os.map (fileOption ini)) := by
  apply mapM_eq_pure
  intro o ho
  show (if isEmpty (iniparserGetstring ini o.key o.value) = true then _ else _) = _
  split_ifs with hempty hm
  · exact absurd (hmandatory o ho) (by simp [hm])
  · rw [fileOption, isEmpty_eq_true_iff.mp hempty]
    rfl
  · rfl

/-- **`set_option_value`** of a value that is not empty. -/
theorem setOptionValue_eq (os : List OptionElement) {key value : Str} (hkey : key ≠ [])
    (hvalue : value ≠ []) (not_null : Bool) :
    setOptionValue os key (some value) not_null = some (os.map (setTo key value)) := by
  have hkey' : isEmpty (some key) = false := by
    rw [Bool.eq_false_iff, ne_eq, isEmpty_eq_true_iff, xstrdup_some_of_ne_nil hkey]
    simp
  have hvalue' : isEmpty (some value) = false := by
    rw [Bool.eq_false_iff, ne_eq, isEmpty_eq_true_iff, xstrdup_some_of_ne_nil hvalue]
    simp
  rw [setOptionValue, hkey', hvalue']
  simp only [Bool.false_and, Bool.false_eq_true, if_false]
  apply mapM_eq_pure
  intro o ho
  rw [setTo, Bool.and_false, if_neg Bool.false_ne_true, xstrdup_some_of_ne_nil hvalue]
  split_ifs <;> rfl

/-- An option as it is when values have been set one after the other. -/
def setAll (pairs : List (Str × Str)) (o : OptionElement) : OptionElement :=
  pairs.foldl (fun o p => setTo p.1 p.2 o) o

/-- All settings keep the key. -/
@[simp] theorem setAll_key (pairs : List (Str × Str)) (o : OptionElement) :
    (setAll pairs o).key = o.key := by
  induction pairs generalizing o with
  | nil => rfl
  | cons p pairs ih =>
      show (setAll pairs (setTo p.1 p.2 o)).key = o.key
      rw [ih, setTo_key]

/-- They leave what is mandatory. -/
@[simp] theorem setAll_mandatory (pairs : List (Str × Str)) (o : OptionElement) :
    (setAll pairs o).mandatory = o.mandatory := by
  induction pairs generalizing o with
  | nil => rfl
  | cons p pairs ih =>
      show (setAll pairs (setTo p.1 p.2 o)).mandatory = o.mandatory
      rw [ih, setTo_mandatory]

/-- A value that is set, or the one that the option had. -/
theorem setAll_value (pairs : List (Str × Str)) (o : OptionElement) :
    (o.key ∉ pairs.map Prod.fst ∧ (setAll pairs o).value = o.value) ∨
      ∃ p ∈ pairs, o.key = p.1 ∧ (setAll pairs o).value = some p.2 := by
  induction pairs generalizing o with
  | nil => exact Or.inl ⟨List.not_mem_nil, rfl⟩
  | cons p pairs ih =>
      have hstep : setAll (p :: pairs) o = setAll pairs (setTo p.1 p.2 o) := rfl
      rw [hstep]
      rcases ih (setTo p.1 p.2 o) with ⟨hnot, hvalue⟩ | ⟨q, hq, hkey, hvalue⟩
      · rw [setTo_key] at hnot
        rw [setTo_value] at hvalue
        by_cases hp : o.key = p.1
        · rw [if_pos hp] at hvalue
          exact Or.inr ⟨p, List.mem_cons_self, hp, hvalue⟩
        · rw [if_neg hp] at hvalue
          refine Or.inl ⟨?_, hvalue⟩
          rw [List.map_cons, List.mem_cons, not_or]
          exact ⟨hp, hnot⟩
      · rw [setTo_key] at hkey
        exact Or.inr ⟨q, List.mem_cons_of_mem p hq, hkey, hvalue⟩

/-- Settings that are not empty are made one after the other. -/
theorem foldlM_setOptionValue {pairs : List (Str × Str)}
    (hpairs : ∀ p ∈ pairs, p.1 ≠ [] ∧ p.2 ≠ []) :
    pairs.foldlM (fun os (p : Str × Str) => setOptionValue os p.1 (some p.2) true) os
      = some (os.map (setAll pairs)) := by
  induction pairs generalizing os with
  | nil =>
      show some os = some (os.map id)
      rw [List.map_id]
  | cons p pairs ih =>
      obtain ⟨hp, hps⟩ := List.forall_mem_cons.mp hpairs
      rw [List.foldlM_cons, setOptionValue_eq os hp.1 hp.2]
      show List.foldlM _ (os.map (setTo p.1 p.2)) pairs = _
      rw [ih hps, List.map_map]
      rfl

/-- **`parse_nagios_conf`** sets the four options to the texts that PHP prints, which are not
empty, and does not return without them. -/
theorem parseNagiosConf_eq_ok {php : Php} {filename php_cli temp_dir : Option Str}
    {os' : List OptionElement}
    (h : parseNagiosConf php filename php_cli temp_dir os = .ok os') :
    ∃ printed, php filename php_cli temp_dir = some printed ∧
      (scan isspace phpFormat printed).length = 4 ∧
      os' = os.map (setAll (dbKeys.zip (scan isspace phpFormat printed))) := by
  rw [parseNagiosConf] at h
  cases hphp : php filename php_cli temp_dir with
  | none =>
      rw [hphp] at h
      cases h
  | some printed =>
      rw [hphp] at h
      dsimp only at h
      split_ifs at h with hlong hlen
      rw [ne_eq, not_not] at hlen
      refine ⟨printed, rfl, hlen, ?_⟩
      have hpairs : ∀ p ∈ dbKeys.zip (scan isspace phpFormat printed), p.1 ≠ [] ∧ p.2 ≠ [] := by
        rintro ⟨key, value⟩ hp
        obtain ⟨hkey, hvalue⟩ := List.of_mem_zip hp
        refine ⟨?_, ne_nil_of_mem_scan hvalue⟩
        rintro rfl
        exact absurd hkey (by decide)
      rw [foldlM_setOptionValue hpairs] at h
      exact (Except.ok.inj h).symm

/-! ## What loading does to all of them -/

/-- An option as it is when a trap tokenizer has been given on the command line. -/
def withTokenizer (trap_tokenizer : Option Str) (o : OptionElement) : OptionElement :=
  match xstrdup trap_tokenizer with
  | none => o
  | some value => setTo trapTokenizerKey value o

/-- The tokenizer keeps the keys. -/
@[simp] theorem withTokenizer_key (trap_tokenizer : Option Str) (o : OptionElement) :
    (withTokenizer trap_tokenizer o).key = o.key := by
  rw [withTokenizer]
  cases xstrdup trap_tokenizer with
  | none => rfl
  | some value => exact setTo_key _ _ _

/-- It leaves what is mandatory. -/
@[simp] theorem withTokenizer_mandatory (trap_tokenizer : Option Str) (o : OptionElement) :
    (withTokenizer trap_tokenizer o).mandatory = o.mandatory := by
  rw [withTokenizer]
  cases xstrdup trap_tokenizer with
  | none => rfl
  | some value => exact setTo_mandatory _ _ _

/-- What the table of the options is like. -/
structure IsOptions (os : List OptionElement) : Prop where
  nodup : (os.map OptionElement.key).Nodup
  mandatory : ∀ o ∈ os, o.mandatory = false
  db : ∀ key ∈ dbKeys, key ∈ os.map OptionElement.key

/-- The table of the program: its keys are a colon and a name that is read back from a file, and
those for the database have no default. -/
theorem options_checked (ndebug : Bool) :
    ((options ndebug).map OptionElement.key).Nodup ∧
    (∀ o ∈ options ndebug, o.mandatory = false ∧ strlwc o.key = o.key ∧
      o.key = ':' :: o.key.drop 1 ∧ IsIniKey (o.key.drop 1)) ∧
    (∀ key ∈ dbKeys, ⟨key, none, false⟩ ∈ options ndebug) ∧
    ∀ key ∈ phpKeys, key ∈ (options ndebug).map OptionElement.key := by
  cases ndebug with
  | false => decide +kernel
  | true => decide +kernel

/-- The table of the source is one of options. -/
theorem isOptions_options (ndebug : Bool) : IsOptions (options ndebug) := by
  obtain ⟨hnodup, hnames, hdb, -⟩ := options_checked ndebug
  exact ⟨hnodup, fun o ho => (hnames o ho).1, fun key hkey => List.mem_map_of_mem (hdb key hkey)⟩

/-- The value of a key that stands once in the table. -/
theorem configGetOptionValue_of_mem (hnodup : (os.map OptionElement.key).Nodup)
    {o : OptionElement} (ho : o ∈ os) : configGetOptionValue os o.key = .ok o.value := by
  have hfind : os.find? (·.key = o.key) = some o := by
    induction os with
    | nil => exact absurd ho List.not_mem_nil
    | cons o' os ih =>
        rw [List.map_cons, List.nodup_cons] at hnodup
        rcases List.mem_cons.mp ho with rfl | ho
        · exact List.find?_cons_of_pos (by simp)
        · have hne : o'.key ≠ o.key := fun heq => hnodup.1 (heq ▸ List.mem_map_of_mem ho)
          rw [List.find?_cons_of_neg (by simpa using hne)]
          exact ih hnodup.2 ho
  rw [configGetOptionValue, hfind]

/-- A computation that succeeds did so in both parts. -/
theorem bind_eq_ok {ε α β : Type} {x : Except ε α} {f : α → Except ε β} {b : β}
    (h : (x >>= f) = .ok b) : ∃ a, x = .ok a ∧ f a = .ok b := by
  cases x with
  | error e => cases h
  | ok a => exact ⟨a, rfl, h⟩

/-- A table whose keys are the same. -/
theorem IsOptions.map (hos : IsOptions os) {g : OptionElement → OptionElement}
    (hkey : ∀ o, (g o).key = o.key) (hmandatory : ∀ o, (g o).mandatory = o.mandatory) :
    IsOptions (os.map g) := by
  have hkeys : (os.map g).map OptionElement.key = os.map OptionElement.key := by
    rw [List.map_map]
    apply List.map_congr_left
    intro o _
    exact hkey o
  refine ⟨by rw [hkeys]; exact hos.nodup, ?_, by rw [hkeys]; exact hos.db⟩
  intro o ho
  obtain ⟨o', ho', rfl⟩ := List.mem_map.mp ho
  rw [hmandatory]
  exact hos.mandatory o' ho'

/-- Whether an option for the database is missing. -/
theorem mapM_dbKeys (hos : IsOptions os) :
    ∃ values, dbKeys.mapM (configGetOptionValue os) = .ok values ∧
      (values.any isEmpty = true ↔ ∃ o ∈ os, o.key ∈ dbKeys ∧ isEmpty o.value = true) := by
  have hvalue : ∀ key ∈ dbKeys, ∃ value, configGetOptionValue os key = .ok value := by
    intro key hkey
    obtain ⟨o, ho, rfl⟩ := List.mem_map.mp (hos.db key hkey)
    exact ⟨o.value, configGetOptionValue_of_mem hos.nodup ho⟩
  choose! value hvalue using hvalue
  refine ⟨dbKeys.map value, mapM_eq_pure hvalue, ?_⟩
  rw [List.any_map, List.any_eq_true]
  constructor
  · rintro ⟨key, hkey, hempty⟩
    obtain ⟨o, ho, rfl⟩ := List.mem_map.mp (hos.db key hkey)
    have heq := (hvalue _ hkey).symm.trans (configGetOptionValue_of_mem hos.nodup ho)
    rw [Function.comp_apply, Except.ok.inj heq] at hempty
    exact ⟨o, ho, hkey, hempty⟩
  · rintro ⟨o, ho, hkey, hempty⟩
    have heq := (hvalue _ hkey).symm.trans (configGetOptionValue_of_mem hos.nodup ho)
    refine ⟨o.key, hkey, ?_⟩
    rw [Function.comp_apply, Except.ok.inj heq]
    exact hempty

/-- Where the options for the database have come from: the file, with no fields, or what PHP has
printed, with four of them. -/
inductive DbSource (php : Php) (os : List OptionElement) : List Str → Prop where
  | file : (∀ o ∈ os, o.key ∈ dbKeys → o.value ≠ none) → DbSource php os []
  | php {filename php_cli temp_dir : Option Str} {printed : Str} :
      (∃ o ∈ os, o.key ∈ dbKeys ∧ o.value = none) →
      configGetOptionValue os ":nagios_conf_file".toList = .ok filename →
      configGetOptionValue os ":php_cli".toList = .ok php_cli →
      configGetOptionValue os ":temp_dir".toList = .ok temp_dir →
      php filename php_cli temp_dir = some printed →
      (scan isspace phpFormat printed).length = 4 →
      DbSource php os (scan isspace phpFormat printed)

/-- **The options for the database**, when `config_load` goes on. -/
theorem configLoadDb_eq_ok (hos : IsOptions os)
    (hdup : ∀ o ∈ os, xstrdup o.value = o.value) {php : Php} {os' : List OptionElement}
    (h : configLoadDb php os = .ok os') :
    ∃ fields, DbSource php os fields ∧ os' = os.map (setAll (dbKeys.zip fields)) := by
  have hempty : ∀ o ∈ os, isEmpty o.value = true ↔ o.value = none := fun o ho => by
    rw [isEmpty_eq_true_iff, hdup o ho]
  obtain ⟨values, hvalues, hmissing⟩ := mapM_dbKeys hos
  rw [configLoadDb, hvalues] at h
  change (if values.any isEmpty = true then _ else _) = _ at h
  split_ifs at h with hany
  · obtain ⟨filename, hfilename, h⟩ := bind_eq_ok h
    obtain ⟨php_cli, hcli, h⟩ := bind_eq_ok h
    obtain ⟨temp_dir, htemp, h⟩ := bind_eq_ok h
    obtain ⟨printed, hphp, hlen, rfl⟩ := parseNagiosConf_eq_ok h
    obtain ⟨o, ho, hkey, hnone⟩ := hmissing.mp hany
    exact ⟨_, .php ⟨o, ho, hkey, (hempty o ho).mp hnone⟩ hfilename hcli htemp hphp hlen, rfl⟩
  · refine ⟨[], .file fun o ho hkey hnone => ?_, ?_⟩
    · exact hany (hmissing.mpr ⟨o, ho, hkey, (hempty o ho).mpr hnone⟩)
    · rw [← Except.ok.inj h, List.zip_nil_right]
      exact (List.map_id _).symm

/-- A second copy changes nothing. -/
theorem xstrdup_xstrdup (s : Option Str) : xstrdup (xstrdup s) = xstrdup s := by
  cases s with
  | none => rfl
  | some s => cases s <;> simp [xstrdup]

/-- What `orExit` has let through. -/
theorem eq_some_of_orExit {α : Type} {x : Option α} {a : α} (h : orExit x = .ok a) :
    x = some a := by
  cases x with
  | none => cases h
  | some b => rw [Except.ok.inj h]

/-- A load that does not exit has a dictionary. -/
theorem eq_dict_of_orExit {x : IniResult} {d : Dictionary} (h : x.orExit = .ok d) :
    x = .dict d := by
  cases x with
  | dict d' => rw [Except.ok.inj h]
  | null => cases h
  | fault => cases h

/-- **`config_load`**, when it returns: the options are those of the file, then those that PHP has
printed, then the trap tokenizer of the command line. -/
theorem configLoad_eq_ok (hos : IsOptions os) {before : Char} {config_file : Option Str}
    {php : Php} {trap_tokenizer : Option Str} {os' : List OptionElement}
    (h : configLoad before config_file php trap_tokenizer os = .ok os') :
    ∃ ini fields, iniparserLoad before config_file = .dict ini ∧
      DbSource php (os.map (fileOption ini)) fields ∧
      os' = os.map fun o =>
        withTokenizer trap_tokenizer (setAll (dbKeys.zip fields) (fileOption ini o)) := by
  unfold configLoad at h
  obtain ⟨ini, hini, h⟩ := bind_eq_ok h
  obtain ⟨os₁, hos₁, h⟩ := bind_eq_ok h
  obtain ⟨os₂, hos₂, h⟩ := bind_eq_ok h
  have hfile := (parseFile_eq hos.mandatory ini).symm.trans (eq_some_of_orExit hos₁)
  obtain rfl := Option.some.inj hfile
  -- a text that has been copied is copied to the same text
  have hdup : ∀ o ∈ os.map (fileOption ini), xstrdup o.value = o.value := by
    intro o ho
    obtain ⟨o', -, rfl⟩ := List.mem_map.mp ho
    exact xstrdup_xstrdup _
  obtain ⟨fields, hsource, rfl⟩ :=
    configLoadDb_eq_ok (hos.map (g := fileOption ini) (fun _ => rfl) fun _ => rfl) hdup hos₂
  refine ⟨ini, fields, eq_dict_of_orExit hini, hsource, ?_⟩
  -- the tokenizer of the command line comes last, and only when it is not empty
  split_ifs at h with htokenizer
  · have hnone := isEmpty_eq_true_iff.mp htokenizer
    rw [← Except.ok.inj h, List.map_map]
    apply List.map_congr_left
    intro o _
    rw [withTokenizer, hnone]
    rfl
  · have hsome : ∃ value, trap_tokenizer = some value ∧ value ≠ [] := by
      cases trap_tokenizer with
      | none => exact absurd rfl htokenizer
      | some value =>
          refine ⟨value, rfl, ?_⟩
          rintro rfl
          exact htokenizer rfl
    obtain ⟨value, rfl, hne⟩ := hsome
    have hset := (setOptionValue_eq _ (by decide) hne true).symm.trans (eq_some_of_orExit h)
    rw [← Option.some.inj hset, List.map_map, List.map_map]
    apply List.map_congr_left
    intro o _
    rw [withTokenizer, xstrdup_some_of_ne_nil hne]
    rfl

/-! ## The values that are loaded -/

/-- The value that the lines of the file leave to an option. -/
def fileValue (lines : List Str) (o : OptionElement) : Option Str :=
  xstrdup ((lastValue o.key (assignments [] lines)).getD o.value)

/-- The table as the lines of the file leave it. -/
def fileOptions (lines : List Str) (os : List OptionElement) : List OptionElement :=
  os.map fun o => { o with value := fileValue lines o }

/-- All options are those of the file. -/
theorem map_fileOption {ini : Dictionary} {lines : List Str} {ndebug : Bool}
    (hget : ∀ key default, iniparserGetstring ini key default
      = ((lastValue (strlwc key) (assignments [] lines)).map xstrdup).getD default) :
    (options ndebug).map (fileOption ini) = fileOptions lines (options ndebug) := by
  apply List.map_congr_left
  intro o ho
  rw [fileOption, fileValue, hget, ((options_checked ndebug).2.1 o ho).2.1]
  cases lastValue o.key (assignments [] lines) with
  | none => rfl
  | some s =>
      show OptionElement.mk o.key (xstrdup (xstrdup s)) o.mandatory = _
      rw [xstrdup_xstrdup]
      rfl

/-- The table as `config_load` leaves it: the fields that PHP has printed, if any, take the place
of what the file says, and the tokenizer of the command line, if there is one, does too. -/
def loadedOptions (lines fields : List Str) (trap_tokenizer : Option Str)
    (os : List OptionElement) : List OptionElement :=
  (fileOptions lines os).map fun o =>
    withTokenizer trap_tokenizer (setAll (dbKeys.zip fields) o)

/-- **The options of the program**, when `config_load` returns. -/
theorem configLoad_options {before : Char} {contents : Str} {php : Php}
    {trap_tokenizer : Option Str} {ndebug : Bool}
    (h : configLoad before (some contents) php trap_tokenizer (options ndebug) = .ok os) :
    ∃ lines fields, logicalLines before contents = some lines ∧
      DbSource php (fileOptions lines (options ndebug)) fields ∧
      os = loadedOptions lines fields trap_tokenizer (options ndebug) := by
  obtain ⟨ini, fields, hload, hsource, rfl⟩ := configLoad_eq_ok (isOptions_options ndebug) h
  obtain ⟨lines, hlines, -, -, hget⟩ := exists_lines_of_load hload
  rw [map_fileOption hget] at hsource
  refine ⟨lines, fields, hlines, hsource, ?_⟩
  rw [loadedOptions, ← map_fileOption hget, List.map_map]
  rfl

/-- The tokenizer is set under its key. -/
theorem withTokenizer_value (trap_tokenizer : Option Str) (o : OptionElement) :
    (withTokenizer trap_tokenizer o).value
      = if o.key = trapTokenizerKey then (xstrdup trap_tokenizer).or o.value else o.value := by
  rw [withTokenizer]
  cases xstrdup trap_tokenizer with
  | none => simp
  | some value =>
      show (setTo trapTokenizerKey value o).value = _
      rw [setTo_value]
      split_ifs <;> rfl

variable {ndebug : Bool} {o : OptionElement}

/-- The value of an option in the table of the file. -/
theorem configGetOptionValue_file (lines : List Str) (ho : o ∈ options ndebug) :
    configGetOptionValue (fileOptions lines (options ndebug)) o.key = .ok (fileValue lines o) := by
  have hnodup : ((fileOptions lines (options ndebug)).map OptionElement.key).Nodup := by
    rw [fileOptions, List.map_map]
    exact (isOptions_options ndebug).nodup
  exact configGetOptionValue_of_mem hnodup
    (o := { o with value := fileValue lines o }) (List.mem_map_of_mem ho)

/-- The value of an option in the table that is loaded. -/
theorem configGetOptionValue_loaded (lines fields : List Str) (trap_tokenizer : Option Str)
    (ho : o ∈ options ndebug) :
    configGetOptionValue (loadedOptions lines fields trap_tokenizer (options ndebug)) o.key
      = .ok (withTokenizer trap_tokenizer
          (setAll (dbKeys.zip fields) { o with value := fileValue lines o })).value := by
  have hkeep : ∀ o, (withTokenizer trap_tokenizer (setAll (dbKeys.zip fields) o)).key = o.key :=
    fun o => by rw [withTokenizer_key, setAll_key]
  have hnodup : ((loadedOptions lines fields trap_tokenizer (options ndebug)).map
      OptionElement.key).Nodup := by
    have hkeys : (loadedOptions lines fields trap_tokenizer (options ndebug)).map
        OptionElement.key = (options ndebug).map OptionElement.key := by
      rw [loadedOptions, fileOptions, List.map_map, List.map_map]
      apply List.map_congr_left
      intro o _
      exact hkeep _
    rw [hkeys]
    exact (isOptions_options ndebug).nodup
  have hget := configGetOptionValue_of_mem hnodup
    (List.mem_map_of_mem (List.mem_map_of_mem (f := fun o => { o with value := fileValue lines o })
      ho))
  rw [hkeep] at hget
  exact hget

/-- An option that is not one of those for the database. -/
theorem configGetOptionValue_other (lines fields : List Str) (trap_tokenizer : Option Str)
    (ho : o ∈ options ndebug) (hdb : o.key ∉ dbKeys) :
    configGetOptionValue (loadedOptions lines fields trap_tokenizer (options ndebug)) o.key
      = .ok (if o.key = trapTokenizerKey then (xstrdup trap_tokenizer).or (fileValue lines o)
          else fileValue lines o) := by
  rw [configGetOptionValue_loaded lines fields trap_tokenizer ho, withTokenizer_value, setAll_key]
  rcases setAll_value (dbKeys.zip fields) { o with value := fileValue lines o } with
    ⟨-, hvalue⟩ | ⟨p, hp, hkey, -⟩
  · rw [hvalue]
  · exact absurd (hkey ▸ (List.of_mem_zip hp).1) hdb

/-- **The options but those for the database** have what the file assigns to them last, or their
default; an empty text is `NULL`.  A trap tokenizer on the command line takes the place of the one
that there would be. -/
theorem config_load_options {before : Char} {contents : Str} {php : Php}
    {trap_tokenizer : Option Str} {ndebug : Bool}
    (h : configLoad before (some contents) php trap_tokenizer (options ndebug) = .ok os) :
    ∃ lines, logicalLines before contents = some lines ∧
      ∀ o ∈ options ndebug, o.key ∉ dbKeys →
        configGetOptionValue os o.key = .ok
          (if o.key = trapTokenizerKey then (xstrdup trap_tokenizer).or (fileValue lines o)
            else fileValue lines o) := by
  obtain ⟨lines, fields, hlines, -, rfl⟩ := configLoad_options h
  exact ⟨lines, hlines, fun o ho hdb =>
    configGetOptionValue_other lines fields trap_tokenizer ho hdb⟩

/-- A configuration with the options for the database and two others. -/
def shortConfig : Str :=
  ("db_host=localhost\ndb_user=nagios\ndb_password='a b'\ndb_name=nagios\n"
    ++ "workers = 8 ; not 5\nDB_USER=n2\nnagios_pipe=\n").toList

/-- A short file. -/
theorem config_load_options_short :
    ∃ os, configLoad ' ' (some shortConfig) (fun _ _ _ => none) (some "TKN".toList) (options true)
        = .ok os ∧
      configGetOptionValue os ":workers".toList = .ok (some "8".toList) ∧
      configGetOptionValue os trapTokenizerKey = .ok (some "TKN".toList) := by
  have hload : (configLoad ' ' (some shortConfig) (fun _ _ _ => none) (some "TKN".toList)
      (options true)).isOk = true := by decide +kernel
  cases h : configLoad ' ' (some shortConfig) (fun _ _ _ => none) (some "TKN".toList)
      (options true) with
  | error e => rw [h] at hload; cases hload
  | ok os =>
      obtain ⟨lines, hlines, hvalues⟩ := config_load_options h
      obtain rfl : lines = (logicalLines ' ' shortConfig).getD [] := by rw [hlines]; rfl
      refine ⟨os, rfl, ?_, ?_⟩
      · exact (hvalues ⟨":workers".toList, some "5".toList, false⟩ (by decide +kernel)
          (by decide)).trans
          (by decide +kernel)
      · exact (hvalues ⟨trapTokenizerKey, some "@TRAPTKN@".toList, false⟩ (by decide +kernel)
          (by decide)).trans (by decide +kernel)

/-! ## The options for the database -/

/-- The text that the lines of the file give for a key, if it is not empty. -/
def givenValue (lines : List Str) (key : Str) : Option Str :=
  xstrdup ((lastValue key (assignments [] lines)).getD none)

/-- One of several values that are set. -/
theorem setAll_value_of_mem {pairs : List (Str × Str)} (hnodup : (pairs.map Prod.fst).Nodup)
    {p : Str × Str} (hp : p ∈ pairs) {o : OptionElement} (hkey : o.key = p.1) :
    (setAll pairs o).value = some p.2 := by
  rcases setAll_value pairs o with ⟨hnot, -⟩ | ⟨q, hq, hkey', hvalue⟩
  · exact absurd (hkey ▸ List.mem_map_of_mem hp) hnot
  · rw [hvalue, List.inj_on_of_nodup_map hnodup hq hp (hkey'.symm.trans hkey)]

/-- An option for the database, in the table that is loaded. -/
theorem configGetOptionValue_db (lines fields : List Str) (trap_tokenizer : Option Str)
    (ndebug : Bool) {key : Str} (hkey : key ∈ dbKeys) :
    configGetOptionValue (loadedOptions lines fields trap_tokenizer (options ndebug)) key
      = .ok (setAll (dbKeys.zip fields) ⟨key, givenValue lines key, false⟩).value := by
  have htokenizer : key ≠ trapTokenizerKey := by
    rintro rfl
    exact absurd hkey (by decide)
  have hget := configGetOptionValue_loaded lines fields trap_tokenizer
    ((options_checked ndebug).2.2.1 _ hkey)
  rw [hget, withTokenizer_value, setAll_key, if_neg htokenizer]
  rfl

/-- An option of the database has the value that the file gives. -/
theorem value_of_mem_fileOptions {lines : List Str}
    (ho : o ∈ fileOptions lines (options ndebug)) (hkey : o.key ∈ dbKeys) :
    o.value = givenValue lines o.key := by
  obtain ⟨o', ho', rfl⟩ := List.mem_map.mp ho
  have heq : o' = ⟨o'.key, none, false⟩ :=
    List.inj_on_of_nodup_map (isOptions_options ndebug).nodup ho'
      ((options_checked ndebug).2.2.1 _ hkey) rfl
  show fileValue lines o' = givenValue lines o'.key
  rw [fileValue, heq]
  rfl

/-- The options that say how PHP is run are not changed behind the file. -/
theorem configGetOptionValue_php (lines fields : List Str) (trap_tokenizer : Option Str)
    (ndebug : Bool) {key : Str} (hkey : key ∈ phpKeys) :
    configGetOptionValue (loadedOptions lines fields trap_tokenizer (options ndebug)) key
      = configGetOptionValue (fileOptions lines (options ndebug)) key := by
  have hapart : ∀ key ∈ phpKeys, key ∉ dbKeys ∧ key ≠ trapTokenizerKey := by decide
  obtain ⟨hdb, htokenizer⟩ := hapart key hkey
  obtain ⟨o, ho, rfl⟩ := List.mem_map.mp ((options_checked ndebug).2.2.2 key hkey)
  rw [configGetOptionValue_other lines fields trap_tokenizer ho hdb, if_neg htokenizer,
    configGetOptionValue_file lines ho]

/-- Where the options for the database have come from, and that none of them is `NULL`. -/
theorem DbSource.values {php : Php} {lines fields : List Str}
    (hsource : DbSource php (fileOptions lines (options ndebug)) fields)
    (trap_tokenizer : Option Str) :
    ∃ texts, dbKeys.map (configGetOptionValue
        (loadedOptions lines fields trap_tokenizer (options ndebug)))
        = texts.map (fun text => .ok (some text)) ∧
      (∀ text ∈ texts, text ≠ []) ∧
      (dbKeys.map (givenValue lines) = texts.map some ∨
        none ∈ dbKeys.map (givenValue lines) ∧
          ∃ filename php_cli temp_dir printed,
            configGetOptionValue (fileOptions lines (options ndebug))
              ":nagios_conf_file".toList = .ok filename ∧
            configGetOptionValue (fileOptions lines (options ndebug))
              ":php_cli".toList = .ok php_cli ∧
            configGetOptionValue (fileOptions lines (options ndebug))
              ":temp_dir".toList = .ok temp_dir ∧
            php filename php_cli temp_dir = some printed ∧
            texts = scan isspace phpFormat printed) := by
  cases hsource with
  | file hgiven =>
      -- every one of the four is given, for none of them was `NULL`
      have hsome : ∀ key ∈ dbKeys, ∃ text, givenValue lines key = some text := by
        intro key hkey
        have hmem : (⟨key, fileValue lines ⟨key, none, false⟩, false⟩ : OptionElement)
            ∈ fileOptions lines (options ndebug) :=
          List.mem_map_of_mem (f := fun o => { o with value := fileValue lines o })
            ((options_checked ndebug).2.2.1 _ hkey)
        have hne := hgiven _ hmem hkey
        rw [value_of_mem_fileOptions hmem hkey] at hne
        exact Option.ne_none_iff_exists'.mp hne
      choose! text htext using hsome
      refine ⟨dbKeys.map text, ?_, ?_, Or.inl ?_⟩
      · rw [List.map_map]
        apply List.map_congr_left
        intro key hkey
        rw [configGetOptionValue_db lines [] trap_tokenizer ndebug hkey, List.zip_nil_right,
          Function.comp_apply, ← htext key hkey]
        rfl
      · intro t ht
        obtain ⟨key, hkey, rfl⟩ := List.mem_map.mp ht
        exact ne_nil_of_xstrdup_eq_some (htext key hkey)
      · rw [List.map_map]
        apply List.map_congr_left
        intro key hkey
        rw [htext key hkey]
        rfl
  | @php filename php_cli temp_dir printed hmissing hfilename hcli htemp hphp hlen =>
      -- `sscanf` has read as many texts as there are options
      have hzip : (dbKeys.zip (scan isspace phpFormat printed)).map Prod.fst = dbKeys := by
        apply List.map_fst_zip
        rw [hlen]
        decide
      refine ⟨scan isspace phpFormat printed, ?_,
        fun text htext => ne_nil_of_mem_scan htext, Or.inr ⟨?_, ?_⟩⟩
      · apply List.ext_getElem
        · rw [List.length_map, List.length_map, hlen]
          rfl
        · intro i hi hi'
          rw [List.length_map] at hi hi'
          rw [List.getElem_map, List.getElem_map,
            configGetOptionValue_db lines _ trap_tokenizer ndebug (List.getElem_mem hi)]
          have hmem : (dbKeys[i], (scan isspace phpFormat printed)[i])
              ∈ dbKeys.zip (scan isspace phpFormat printed) := by
            rw [← List.getElem_zip (h := by rw [List.length_zip]; omega)]
            exact List.getElem_mem _
          rw [setAll_value_of_mem (by rw [hzip]; decide) hmem rfl]
      · obtain ⟨o, ho, hkey, hnone⟩ := hmissing
        rw [value_of_mem_fileOptions ho hkey] at hnone
        exact List.mem_map.mpr ⟨o.key, hkey, hnone⟩
      · exact ⟨filename, php_cli, temp_dir, printed, hfilename, hcli, htemp, hphp, rfl⟩

/-- **The options for the database** are never `NULL`: they are the four texts that the file gives,
or, if it does not give all of them, the four texts that PHP prints. -/
theorem config_load_db {before : Char} {contents : Str} {php : Php}
    {trap_tokenizer : Option Str} {ndebug : Bool}
    (h : configLoad before (some contents) php trap_tokenizer (options ndebug) = .ok os) :
    ∃ lines texts, logicalLines before contents = some lines ∧
      dbKeys.map (configGetOptionValue os) = texts.map (fun text => .ok (some text)) ∧
      (∀ text ∈ texts, text ≠ []) ∧
      (dbKeys.map (givenValue lines) = texts.map some ∨
        none ∈ dbKeys.map (givenValue lines) ∧
          ∃ filename php_cli temp_dir printed,
            configGetOptionValue os ":nagios_conf_file".toList = .ok filename ∧
            configGetOptionValue os ":php_cli".toList = .ok php_cli ∧
            configGetOptionValue os ":temp_dir".toList = .ok temp_dir ∧
            php filename php_cli temp_dir = some printed ∧
            texts = scan isspace phpFormat printed) := by
  obtain ⟨lines, fields, hlines, hsource, rfl⟩ := configLoad_options h
  obtain ⟨texts, hvalues, hne, hfrom⟩ := hsource.values trap_tokenizer
  refine ⟨lines, texts, hlines, hvalues, hne, ?_⟩
  rcases hfrom with hfrom | ⟨hmissing, filename, php_cli, temp_dir, printed, hrest⟩
  · exact Or.inl hfrom
  · have hkept := fun key (hkey : key ∈ phpKeys) =>
      configGetOptionValue_php lines fields trap_tokenizer ndebug hkey
    obtain ⟨hfilename, hcli, htemp, hrest⟩ := hrest
    refine Or.inr ⟨hmissing, filename, php_cli, temp_dir, printed, ?_, ?_, ?_, hrest⟩
    · rw [hkept _ (by decide), hfilename]
    · rw [hkept _ (by decide), hcli]
    · rw [hkept _ (by decide), htemp]

/-- A file with one of the four, and a PHP that prints them all. -/
theorem config_load_db_php :
    ∃ os, configLoad ' ' (some "db_host=h\n".toList) (fun _ _ _ => some "a|b|c c|d\n".toList) none
        (options true) = .ok os ∧
      dbKeys.map (configGetOptionValue os) = ["a".toList, "b".toList, "c c".toList, "d".toList].map
        fun text => .ok (some text) := by
  have hload : (configLoad ' ' (some "db_host=h\n".toList)
      (fun _ _ _ => some "a|b|c c|d\n".toList) none (options true)).isOk = true := by
    decide +kernel
  cases h : configLoad ' ' (some "db_host=h\n".toList)
      (fun _ _ _ => some "a|b|c c|d\n".toList) none (options true) with
  | error e => rw [h] at hload; cases hload
  | ok os =>
      obtain ⟨lines, texts, hlines, hvalues, -, hfrom⟩ := config_load_db h
      obtain rfl : lines = (logicalLines ' ' "db_host=h\n".toList).getD [] := by rw [hlines]; rfl
      rcases hfrom with hfile | ⟨-, -, -, -, printed, -, -, -, hphp, rfl⟩
      · have hnone : none ∈ dbKeys.map
            (givenValue ((logicalLines ' ' "db_host=h\n".toList).getD [])) := by decide +kernel
        rw [hfile] at hnone
        obtain ⟨text, -, htext⟩ := List.mem_map.mp hnone
        cases htext
      · obtain rfl := Option.some.inj hphp
        have hscan : scan isspace phpFormat "a|b|c c|d\n".toList
            = ["a".toList, "b".toList, "c c".toList, "d".toList] := by decide +kernel
        rw [hscan] at hvalues
        exact ⟨os, rfl, hvalues⟩

end Trapd
