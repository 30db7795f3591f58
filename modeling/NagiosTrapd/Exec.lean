/-
# Execution of traps (`exec.c`)

`exec_trap` puts the initial execution list on a stack and runs the stack until it
is empty.  A plugin prints lines of fields; a line with a status is a complete
result and goes to `do_output`, a line without one asks for a second execution
list, which is pushed on the stack.

A plugin is a function from the number of executions so far and the full command
to the lines printed.  `exec_command` keeps a line as `getline` returns it, and all that
follows reads it as a C string: a line ends at its first NUL.  Undefined behaviour ends a
run as a `Fault`.
-/
import NagiosTrapd.Trap
import NagiosTrapd.Execlist

namespace Trapd

/-! ## Running a command -/

/-- The text `exec_command` hands to `popen`. -/
def fullCommand (command trap_contents : Str) : Str := command ++ ' ' :: trap_contents

/-- `exec_command`: the lines printed, each up to its first NUL. -/
def execCommand (plugin : Str → List Str) (command trap_contents : Option Str) : List Str :=
  if xstrlen command = 0 then []
  else if xstrlen trap_contents = 0 then []
  else (plugin (fullCommand (command.getD []) (trap_contents.getD []))).map cString

/-! ## Parsing a result -/

/-- `parse_result_str_status_t`. -/
inductive FieldStatus
  | started | hostAddress | hostName | svcDesc | retValue | output | perfdata | svcId
  deriving DecidableEq, Repr

/-- The seven fields of a line, as `parse_result_str` collects them. -/
structure Fields where
  host_address : Option Str
  host_name : Option Str
  svc_desc : Option Str
  ret_value : Option Str
  output : Option Str
  perfdata : Option Str
  svc_id : Option Str
  deriving DecidableEq, Repr

/-- No field read. -/
def Fields.none : Fields :=
  ⟨Option.none, Option.none, Option.none, Option.none, Option.none, Option.none, Option.none⟩

/-- The `switch` of `parse_result_str`. -/
def readField (s : FieldStatus × Fields) (token : Str) : FieldStatus × Fields :=
  match s.1 with
  | .started => (.hostAddress, { s.2 with host_address := some token })
  | .hostAddress => (.hostName, { s.2 with host_name := some token })
  | .hostName => (.svcDesc, { s.2 with svc_desc := some token })
  | .svcDesc => (.retValue, { s.2 with ret_value := some token })
  | .retValue => (.output, { s.2 with output := some token })
  | .output => (.perfdata, { s.2 with perfdata := some token })
  | .perfdata => (.svcId, { s.2 with svc_id := some token })
  | .svcId => s

/-- The `strsep` loop of `parse_result_str`. -/
def readFields (str : Str) : Fields :=
  ((str.splitOn '|').foldl readField (.started, Fields.none)).2

/-- `struct exec_result_t`. -/
structure ExecResult where
  is_complete : Bool
  is_service : Bool
  use_sender_address : Bool
  timestamp : Slot ℕ
  host_address : Option Str
  host_name : Option Str
  svc_desc : Option Str
  ret_value : ℤ
  output : Option Str
  perfdata : Option Str
  is_valid_svc_id : Bool
  svc_id : ℤ
  deriving DecidableEq, Repr

/-- Fill a field the plugin left empty with what is stored, if anything is. -/
def fillField (field stored : Option Str) : Option Str :=
  if isEmpty field then
    if isEmpty stored then field else xstrdup stored
  else field

/-- The last part of `parse_result_str`: empty fields of a complete result. -/
def fillResult (db : Db) (host svc : Option ℕ) (result : ExecResult) : ExecResult :=
  if result.is_complete then
    if !result.is_service then
      { result with
        host_address := fillField result.host_address (dbExtractHostAddress db host none)
        host_name := fillField result.host_name (dbExtractHostName db host none) }
    else
      { result with
        host_address := fillField result.host_address (dbExtractHostAddress db none svc)
        host_name := fillField result.host_name (dbExtractHostName db none svc)
        svc_desc := fillField result.svc_desc (dbExtractSvcDesc db svc) }
  else result

/-- Whether a result is for a service; where it is open, the plugin has chosen by
printing a description. -/
def chooseService (is_service : IsService) (svc_desc : Option Str) : Bool :=
  match is_service with
  | .no => false
  | .yes => true
  | .maybe => !isEmpty svc_desc

/-- The result `parse_result_str` makes of the fields of a line, given the texts of
the status and of the service id. -/
def makeResult (db : Db) (is_service : IsService) (host svc : Option ℕ)
    (use_sender_address : Bool) (f : Fields) (ret_value svc_id : Str) : ExecResult :=
  fillResult db host svc
    { is_complete := isInteger (some ret_value)
      is_service := chooseService is_service f.svc_desc
      use_sender_address := use_sender_address
      timestamp := .unset
      host_address := xstrdup f.host_address
      host_name := xstrdup f.host_name
      svc_desc := xstrdup f.svc_desc
      ret_value := atoi ret_value
      output := xstrdup f.output
      perfdata := xstrdup f.perfdata
      is_valid_svc_id := isInteger (some svc_id)
      svc_id := atoi svc_id }

/-- `parse_result_str`: NULL on a blank line.  `result_str` is a C string, so that a printed
line gets here up to its first NUL. -/
def parseResultStr (db : Db) (result_str : Str) (is_service : IsService) (host svc : Option ℕ)
    (use_sender_address : Bool) : Except Fault (Option ExecResult) :=
  match removeChars (some result_str) ['\n', '\r'] with
  | none => .ok none
  | some str =>
      let f := readFields str
      match f.ret_value, f.svc_id with
      | some ret_value, some svc_id =>
          .ok (some (makeResult db is_service host svc use_sender_address f ret_value svc_id))
      -- atoi(NULL)
      | _, _ => .error .nullString

/-! ## The stack -/

/-- `struct execitem_t` has the fields of an item of an execution list. -/
abbrev ExecItem : Type := ExeclistItem

/-- `push_execitem`, for a command that is not NULL. -/
def pushExecitem (stack : List ExecItem) (command : Str) (is_service : IsService)
    (host svc : Option ℕ) : List ExecItem :=
  ⟨xstrdup (some command), is_service, host, svc⟩ :: stack

/-- `push_execlist`: the stack, and whether all items went onto it. -/
def pushExeclist (stack : List ExecItem) : List ExeclistItem → List ExecItem × Bool
  | [] => (stack, true)
  | item :: execlist =>
      match item.command with
      | none => (stack, false)
      | some command =>
          pushExeclist (pushExecitem stack command item.is_service item.host item.svc) execlist

/-- What `exec_trap` has settled before its loop: the database, the plugins, the
limit, and its own local variables. -/
structure ExecCtx where
  db : Db
  plugin : ℕ → Str → List Str
  stack_max_executions : ℤ
  command : Option Str
  cmd_id : ℤ
  use_sender_address : Bool
  sender_address : Option Str
  trap_contents : Option Str
  trap_timestamp : ℕ

/-- How an execution ends: undefined behaviour, NULL, or a result. -/
inductive RunEnd
  | fault (f : Fault)
  | null
  | result (r : ExecResult)
  deriving DecidableEq, Repr

/-- What the loop over the lines leaves: the stack, and what is returned. -/
structure LineLoop where
  stack : List ExecItem
  ending : RunEnd
  deriving DecidableEq, Repr

/-- What `stack_run` returns, its last result being `exec_result`. -/
def RunEnd.ofResult (trap_timestamp : ℕ) : Option ExecResult → RunEnd
  | none => .null
  | some r => .result { r with timestamp := .set trap_timestamp }

/-- The `while` loop of `stack_run` over the lines of a plugin, and what follows it. -/
def lineLoop (c : ExecCtx) (item : ExecItem) :
    List ExecItem → Option ExecResult → List Str → LineLoop
  | stack, exec_result, [] => ⟨stack, .ofResult c.trap_timestamp exec_result⟩
  | stack, _, line :: buffer =>
      match parseResultStr c.db line item.is_service item.host item.svc c.use_sender_address with
      | .error f => ⟨stack, .fault f⟩
      -- exec_result->is_complete through NULL
      | .ok none => ⟨stack, .fault .nullResult⟩
      | .ok (some r) =>
          if r.is_complete then ⟨stack, .ofResult c.trap_timestamp (some r)⟩
          else
            match execlistBuild c.db c.command c.cmd_id c.use_sender_address c.sender_address
                r.host_address r.host_name with
            | .error f => ⟨stack, .fault f⟩
            -- nothing found: the lines behind are not read
            | .ok [] => ⟨stack, .null⟩
            | .ok (i :: l) =>
                match pushExeclist stack (i :: l) with
                | (stack, false) => ⟨stack, .null⟩
                | (stack, true) => lineLoop c item stack (some r) buffer

/-- The lines an execution reads, as C strings. -/
def ExecCtx.lines (c : ExecCtx) (executions : ℕ) (item : ExecItem) : List Str :=
  execCommand (c.plugin executions) item.command c.trap_contents

/-- `stack_run` on a stack with `item` on top, which is all `exec_trap` calls it on;
`none` when the limit is reached. -/
def stackRun (c : ExecCtx) (executions : ℕ) (item : ExecItem) (rest : List ExecItem) :
    Option LineLoop :=
  if executions > c.stack_max_executions then none
  else some (lineLoop c item rest none (c.lines executions item))

/-! ## Output -/

/-- The arguments of a call of `channel_write`. -/
structure ChannelWrite where
  timestamp : Slot ℕ
  host_name : Option Str
  svc_desc : Option Str
  return_code : ℤ
  plugin_output : Option Str
  perfdata : Option Str
  is_service : Bool
  deriving DecidableEq, Repr

/-- The loop over services of `do_output`: is one of them described by `svc_desc`? -/
def svcDescLoop (db : Db) (next : ℕ → Except Fault (Option ℕ)) (svc_desc : Option Str) :
    ℕ → Option ℕ → Except Fault Bool
  | _, none => .ok false
  | 0, some _ => .error .endless
  | bound + 1, some svc =>
      match svc_desc, dbExtractSvcDesc db (some svc) with
      | some d, some e =>
          if d = e then .ok true
          else do
            let svc ← next svc
            svcDescLoop db next svc_desc bound svc
      | _, _ => .error .nullString

/-- The head of a chain, and the loop over it. -/
def confirmSvc (db : Db) (lookup : Option ℕ → LookupFlag → Except Fault (Option ℕ))
    (flags : LookupFlag) (svc_desc : Option Str) : Except Fault Bool := do
  let svc ← lookup none .none
  svcDescLoop db (fun svc => lookup (some svc) flags) svc_desc db.svcs.nodes.length svc

/-- `output_confirmed` before the tests of `do_output` for empty fields. -/
def outputConfirmed (db : Db) (r : ExecResult) : Except Fault Bool :=
  if r.use_sender_address then .ok true
  else if !r.is_service then do
    let host ← dbLookupHostByHostName db r.host_name
    if host.isSome then .ok true
    else do
      let host ← dbLookupHostByAddress db r.host_address
      .ok host.isSome
  else do
    let confirmed ← confirmSvc db (dbLookupSvcByHostName db r.host_name) .nextByHostName r.svc_desc
    if confirmed then .ok true
    else confirmSvc db (dbLookupSvcByHostAddress db r.host_address) .nextByHostAddress r.svc_desc

/-- The call of `channel_write` for a result. -/
def ExecResult.channelWrite (r : ExecResult) : ChannelWrite :=
  ⟨r.timestamp, r.host_name, r.svc_desc, r.ret_value, r.output, r.perfdata, r.is_service⟩

/-- `do_output`: the call of `channel_write` it makes, if any. -/
def doOutput (db : Db) (r : ExecResult) : Except Fault (Option ChannelWrite) := do
  let confirmed ← outputConfirmed db r
  -- the last word is with the plugin's own fields
  if isEmpty r.host_name then .ok none
  else if r.is_service && isEmpty r.svc_desc then .ok none
  else if confirmed then .ok (some r.channelWrite)
  else .ok none

/-! ## A whole trap -/

/-- One turn of the loop of `exec_trap`: the number of executions before it, the item
taken from the stack and what lay below, what `stack_run` left, and the call of
`channel_write` made. -/
structure Round where
  executions : ℕ
  item : ExecItem
  rest : List ExecItem
  run : LineLoop
  write : Option ChannelWrite
  deriving DecidableEq, Repr

/-- Why the loop of `exec_trap` ends: the stack is empty, the limit is reached, an
execution returned NULL, undefined behaviour, or the model's own bound. -/
inductive Halt
  | finished | limit | null
  | fault (f : Fault)
  | outOfFuel
  deriving DecidableEq, Repr

/-- The loop of `exec_trap`: its turns, and why it ends. -/
def execLoop (c : ExecCtx) : ℕ → ℕ → List ExecItem → List Round × Halt
  | 0, _, _ => ([], .outOfFuel)
  | _ + 1, _, [] => ([], .finished)
  | fuel + 1, executions, item :: rest =>
      match stackRun c executions item rest with
      | none => ([], .limit)
      | some run =>
          match run.ending with
          | .fault f => ([⟨executions, item, rest, run, none⟩], .fault f)
          -- return 0, whatever is left on the stack
          | .null => ([⟨executions, item, rest, run, none⟩], .null)
          | .result r =>
              match doOutput c.db r with
              | .error f => ([⟨executions, item, rest, run, none⟩], .fault f)
              | .ok write =>
                  let later := execLoop c fuel (executions + 1) run.stack
                  (⟨executions, item, rest, run, write⟩ :: later.1, later.2)

/-- Turns enough to meet the limit. -/
def ExecCtx.fuel (c : ExecCtx) : ℕ := (c.stack_max_executions + 1).toNat + 1

/-- The loop of `exec_trap` from its first turn on. -/
def ExecCtx.run (c : ExecCtx) (stack : List ExecItem) : List Round × Halt :=
  execLoop c c.fuel 0 stack

/-- What `exec_trap` finds around it; `set_permissions` says whether the plugin's file
could be made executable. -/
structure Env where
  db : Db
  plugin : ℕ → Str → List Str
  set_permissions : Str → Bool
  stack_max_executions : ℤ

/-- The choice of plugin at the start of `exec_trap`: command id, file name and
`use_sender_address`; `none` where it returns 0. -/
def choosePlugin (db : Db) (trap_oid command : Option Str) :
    Except Fault (Option (ℤ × Str × Bool)) :=
  match command with
  | none => do
      let cmd_id ← dbLookupCmdIdByOid db trap_oid
      if cmd_id = -1 then .ok none
      else do
        let filename ← dbLookupFilenameByCmdId db cmd_id
        let use_sender_address ← dbLookupUseSenderAddressByCmdId db cmd_id
        match filename, use_sender_address with
        | some filename, some use_sender_address =>
            .ok (some (cmd_id, filename, use_sender_address))
        | _, _ => .ok none
  | some _ =>
      match extractFilename command with
      | none => .ok none
      | some filename => .ok (some (0, filename, false))

/-- The first items on the stack; `none` where `exec_trap` returns 0. -/
def initialStack (db : Db) (command : Option Str) (cmd_id : ℤ) (use_sender_address : Bool)
    (sender_address : Option Str) : Except Fault (Option (List ExecItem)) :=
  match command with
  | none => do
      let execlist ← execlistBuild db none cmd_id use_sender_address sender_address none none
      match execlist with
      | [] => .ok none
      | i :: l =>
          match pushExeclist [] (i :: l) with
          | (_, false) => .ok none
          | (stack, true) => .ok (some stack)
  | some command => .ok (some (pushExecitem [] command .no none none))

/-- `exec_trap` up to its loop: what is settled, and the stack; `none` where it
returns 0. -/
def execTrapStart (env : Env) (trap : Option Trap) (oid command : Option Str) :
    Except Fault (Option (ExecCtx × List ExecItem)) :=
  match trap with
  | none => .ok none
  | some trap =>
      if isEmpty trap.oid then .ok none
      else if oid ≠ none ∧ oid ≠ trap.oid then .ok none
      else do
        match ← choosePlugin env.db trap.oid command with
        | none => .ok none
        | some (cmd_id, filename, use_sender_address) =>
            if env.set_permissions filename = false then .ok none
            else match trapGetContents trap with
              | none => .error .nullString
              | some none => .ok none
              | some (some trap_contents) =>
                  if trapGetTimestamp trap = 0 then .ok none
                  else match trap.ipaddress with
                    | none => .ok none
                    | some sender_address => do
                        let stack ← initialStack env.db command cmd_id use_sender_address
                          (some sender_address)
                        .ok (stack.map fun stack =>
                          ({ db := env.db
                             plugin := env.plugin
                             stack_max_executions := env.stack_max_executions
                             command := command
                             cmd_id := cmd_id
                             use_sender_address := use_sender_address
                             sender_address := some sender_address
                             trap_contents := some trap_contents
                             trap_timestamp := trapGetTimestamp trap }, stack))

/-- `exec_trap`: the turns of its loop, and why it ends; `none` where it returns 0
before the loop. -/
def execTrap (env : Env) (trap : Option Trap) (oid command : Option Str) :
    Except Fault (Option (List Round × Halt)) := do
  let start ← execTrapStart env trap oid command
  .ok (start.map fun s => s.1.run s.2)

end Trapd
