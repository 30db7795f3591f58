/-
# Standalone mode (`standalone.c`)

`standalone_start_main_loop` expands the command of the user once and hands it to
`exec_trap`, which pushes it as it stands, for a host.  In the daemon `exec_trap` is given
no command: `execlist_build` expands the text of the trap handler a second time and leaves
it to the plugin whether its result is for a service.

**Main result:** `first_never_same`: the first command executed is never treated alike in
the two modes, and its text is the same exactly when the second expansion changes nothing.
-/
import NagiosTrapd.CommandShape
import NagiosTrapd.ExecLimits

namespace Trapd

/-! ## The first command -/

/-- The command that `standalone_start_main_loop` hands to `exec_trap`. -/
def standaloneHandler (env : Env) (command : Str) : Option Str :=
  commandExpand1 (dbLookupResource env.db.resources) (some command)

/-- The first command that a call of `exec_trap` executes, with its `is_service`. -/
def firstItem (env : Env) (trap : Trap) (oid command : Option Str) : Option ExecItem :=
  match execTrap env (some trap) oid command with
  | .ok (some run) => run.1.head?.map Round.item
  | _ => none

/-- The first command is what lies on top of the stack that the loop starts with. -/
theorem firstItem_eq_some {env : Env} {trap : Trap} {oid command : Option Str} {item : ExecItem}
    (h : firstItem env trap oid command = some item) :
    ∃ (c : ExecCtx) (rest : List ExecItem), c.StartedFrom env trap command ∧
      initialStack c.db c.command c.cmd_id c.use_sender_address c.sender_address
        = .ok (some (item :: rest)) := by
  unfold firstItem at h
  rcases hrun : execTrap env (some trap) oid command with f | _ | run
  · simp [hrun] at h
  · simp [hrun] at h
  obtain ⟨c, stack, hstart, rfl⟩ := execTrap_eq_some hrun
  obtain ⟨tr, htr, hstarted, hstack⟩ := execTrapStart_eq_some hstart
  obtain rfl := Option.some_inj.mp htr
  simp only [hrun, ExecCtx.run, ExecCtx.fuel] at h
  cases stack with
  | nil => simp [execLoop] at h
  | cons first rest =>
      refine ⟨c, rest, hstarted, ?_⟩
      rcases execLoop_cases c (c.stack_max_executions + 1).toNat 0 first rest with
        ⟨-, hloop⟩ | ⟨-, rd, -, hitem, -, -, ⟨halt, -, hloop⟩ | ⟨-, hloop⟩⟩
      · simp [hloop] at h
      · simp only [hloop, List.head?_cons, Option.map_some, Option.some_inj] at h
        rw [← h, hitem, hstack]
      · simp only [hloop, List.head?_cons, Option.map_some, Option.some_inj] at h
        rw [← h, hitem, hstack]

/-- A command given by the user is executed as it stands, for a host. -/
theorem firstItem_standalone {env : Env} {trap : Trap} {oid : Option Str} {text : Str}
    {item : ExecItem} (h : firstItem env trap oid (some text) = some item) :
    item = ⟨some text, .no, none, none⟩ := by
  obtain ⟨c, rest, hstarted, hstack⟩ := firstItem_eq_some h
  have hgiven := hstarted.given.2
  rw [hstarted.command_eq] at hgiven hstack
  have hne : text ≠ [] := by simpa using hgiven
  have hitems : pushExecitem [] text .no none none = item :: rest :=
    Option.some_inj.mp (Except.ok.inj hstack)
  rw [pushExecitem, xstrdup_some_of_ne_nil hne] at hitems
  exact (List.cons.inj hitems).1.symm

/-! ## The handler of the daemon -/

/-- The daemon has a handler for a trap, without `use_sender_address`, whose expanded text
is what the user's command expands to in standalone mode. -/
structure SameHandler (standalone daemon : Env) (trap : Trap) (command : Str) (cmd_id : ℤ) :
    Prop where
  cmd_id_eq : dbLookupCmdIdByOid daemon.db trap.oid = .ok cmd_id
  use_sender_address_eq : dbLookupUseSenderAddressByCmdId daemon.db cmd_id = .ok (some false)
  expanded_text_eq :
    dbLookupExpandedTextByCmdId daemon.db cmd_id = .ok (standaloneHandler standalone command)

/-- The choice of the plugin is that of the handler. -/
theorem SameHandler.choice {standalone daemon : Env} {trap : Trap} {command filename : Str}
    {cmd_id cmd_id' : ℤ} {use_sender_address : Bool}
    (h : SameHandler standalone daemon trap command cmd_id)
    (hchoice : choosePlugin daemon.db trap.oid none
      = .ok (some (cmd_id', filename, use_sender_address))) :
    cmd_id' = cmd_id ∧ use_sender_address = false := by
  unfold choosePlugin at hchoice
  simp only [h.cmd_id_eq, bind, Except.bind] at hchoice
  by_cases hnone : cmd_id = -1
  · simp [hnone] at hchoice
  · rcases hfile : dbLookupFilenameByCmdId daemon.db cmd_id with f | _ | file
    · simp [hnone, hfile] at hchoice
    · simp [hnone, hfile, h.use_sender_address_eq] at hchoice
    · simp only [if_neg hnone, hfile, h.use_sender_address_eq, Except.ok.injEq,
        Option.some_inj, Prod.mk.injEq] at hchoice
      exact ⟨hchoice.1.symm, hchoice.2.2.symm⟩

/-- The text of the handler is expanded again, and the plugin decides about the service. -/
theorem firstItem_daemon {standalone daemon : Env} {trap : Trap} {command : Str} {cmd_id : ℤ}
    (h : SameHandler standalone daemon trap command cmd_id) {item : ExecItem}
    (hitem : firstItem daemon trap none none = some item) :
    item.command = commandExpand2 (standaloneHandler standalone command) none trap.ipaddress
      ∧ item.is_service = .maybe := by
  obtain ⟨c, rest, hstarted, hstack⟩ := firstItem_eq_some hitem
  obtain ⟨filename, hchoice, -⟩ := hstarted.choice
  obtain ⟨hcmd, huse⟩ := h.choice hchoice
  rw [hstarted.command_eq, huse, hcmd, hstarted.db_eq, hstarted.sender_address.1] at hstack
  obtain ⟨-, template, text, htemplate, hexpand, hitems⟩ := initialStack_eq_some hstack
  obtain rfl : standaloneHandler standalone command = template :=
    Except.ok.inj (h.expanded_text_eq.symm.trans htemplate)
  obtain rfl := (List.cons.inj hitems).1
  exact ⟨hexpand.symm, rfl⟩

/-! ## The two modes -/

/-- A first command is executed in both modes, the same text with the same `is_service`. -/
def SameFirst (first first' : Option ExecItem) : Prop :=
  ∃ item item', first = some item ∧ first' = some item' ∧
    item.command = item'.command ∧ item.is_service = item'.is_service

/-- **The two modes never treat the first command alike**: `is_service` differs; and its
text is the same exactly when it stays as it is under `command_expand_2`. -/
theorem first_never_same {standalone daemon : Env} {trap : Trap} {command : Str} {cmd_id : ℤ}
    (h : SameHandler standalone daemon trap command cmd_id) (oid : Option Str) :
    ¬ SameFirst (firstItem standalone trap oid (standaloneHandler standalone command))
        (firstItem daemon trap none none)
      ∧ ∀ item item',
          firstItem standalone trap oid (standaloneHandler standalone command) = some item →
          firstItem daemon trap none none = some item' →
          (item.command = item'.command
            ↔ commandExpand2 (standaloneHandler standalone command) none trap.ipaddress
                = standaloneHandler standalone command) := by
  obtain ⟨text, htext⟩ : ∃ text, standaloneHandler standalone command = some text := ⟨_, rfl⟩
  constructor
  · rintro ⟨item, item', hitem, hitem', -, hservice⟩
    rw [htext] at hitem
    rw [firstItem_standalone hitem, (firstItem_daemon h hitem').2] at hservice
    exact IsService.noConfusion hservice
  · intro item item' hitem hitem'
    rw [(firstItem_daemon h hitem').1]
    rw [htext] at hitem ⊢
    rw [firstItem_standalone hitem, eq_comm]

/-- A handler of the OID `o` that asks for the address of the sender. -/
def senderRows : DbRows where
  resources := []
  commands :=
    [⟨['1'], Text.single 'p', ⟨"/p $SENDERADDRESS$".toList, by decide⟩, ['0']⟩]
  hosts := []
  svcs := []
  trap_handlers := [⟨Text.single 'o', ['1']⟩]

/-- A daemon with this handler. -/
def senderEnv : Env :=
  { standaloneEnv [] with db := daemonDb HashTable.empty senderRows }

theorem sameHandler_sender :
    SameHandler (standaloneEnv []) senderEnv plainTrap "/p $SENDERADDRESS$".toList 1 :=
  ⟨rfl, rfl, rfl⟩

/-- The command in the two modes. -/
theorem first_never_same_sender :
    ¬ SameFirst (firstItem (standaloneEnv []) plainTrap none
          (standaloneHandler (standaloneEnv []) "/p $SENDERADDRESS$".toList))
        (firstItem senderEnv plainTrap none none)
      ∧ ∀ item item',
          firstItem (standaloneEnv []) plainTrap none
              (standaloneHandler (standaloneEnv []) "/p $SENDERADDRESS$".toList) = some item →
          firstItem senderEnv plainTrap none none = some item' →
          (item.command = item'.command
            ↔ commandExpand2 (standaloneHandler (standaloneEnv []) "/p $SENDERADDRESS$".toList)
                  none plainTrap.ipaddress
                = standaloneHandler (standaloneEnv []) "/p $SENDERADDRESS$".toList) :=
  first_never_same sameHandler_sender none

/-- Standalone mode executes the macro as it stands and for a host, the daemon puts the
address in its place and leaves the rest to the plugin. -/
theorem not_first_same :
    ¬ ∀ (standalone daemon : Env) (trap : Trap) (command : Str) (cmd_id : ℤ),
        SameHandler standalone daemon trap command cmd_id →
        SameFirst (firstItem standalone trap trap.oid (standaloneHandler standalone command))
          (firstItem daemon trap none none) := by
  intro h
  obtain ⟨item, item', hitem, hitem', hcommand, -⟩ := h _ _ _ _ _ sameHandler_sender
  have hstandalone : firstItem (standaloneEnv []) plainTrap plainTrap.oid
      (standaloneHandler (standaloneEnv []) "/p $SENDERADDRESS$".toList)
        = some ⟨some "/p $SENDERADDRESS$".toList, .no, none, none⟩ := by decide
  have hdaemon : firstItem senderEnv plainTrap none none
      = some ⟨some "/p s".toList, .maybe, none, none⟩ := by decide
  rw [← Option.some_inj.mp (hstandalone.symm.trans hitem),
    ← Option.some_inj.mp (hdaemon.symm.trans hitem')] at hcommand
  exact absurd hcommand (by decide)

end Trapd
