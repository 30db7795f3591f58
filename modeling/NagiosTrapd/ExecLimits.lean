/-
# Limits of a run of `exec_trap`

How often the plugin of a trap is run, and which tables a run uses.

* `run_bounded_iff`: `stack_run` tests the count of executions before it counts, with
  `>`; a run keeps to `plugins_max_executions` exactly when the trap asks for no more.
* `standalone_tables_iff`: outside a daemon `do_output` looks names and addresses up in
  tables that were never created; a run does not exactly when no plugin reports any.
-/
import NagiosTrapd.ExecRuns

namespace Trapd

/-! ## Faults -/

/-- `parse_result_str` has one fault. -/
theorem parseResultStr_error {db : Db} {line : Str} {is_service : IsService} {host svc : Option ℕ}
    {u : Bool} {f : Fault} (h : parseResultStr db line is_service host svc u = .error f) :
    f = .nullString := by
  by_cases hm : Malformed line
  · have hp : parseResultStr db line is_service host svc u = .ok none ∨
        parseResultStr db line is_service host svc u = .error .nullString :=
      parseResultStr_malformed hm
    rcases hp with hp | hp
    · simp [hp] at h
    · rw [hp] at h
      exact (Except.error.inj h).symm
  · obtain ⟨r, hr⟩ : ∃ r, parseResultStr db line is_service host svc u = .ok (some r) :=
      parseResultStr_of_not_malformed is_service host svc u hm
    simp [hr] at h

/-- A fault of the loop over the lines goes through NULL, or it is one of the second
execution list. -/
theorem lineLoop_fault {c : ExecCtx} {item : ExecItem} {f : Fault} (lines : List Str) :
    ∀ {stack : List ExecItem} {er : Option ExecResult},
      (lineLoop c item stack er lines).ending = .fault f →
      f = .nullString ∨ f = .nullResult ∨ ∃ address name,
        execlistBuild c.db c.command c.cmd_id c.use_sender_address c.sender_address address name
          = .error f := by
  induction lines with
  | nil =>
      intro stack er h
      cases er <;> simp [lineLoop, RunEnd.ofResult] at h
  | cons line lines ih =>
      intro stack er h
      rw [lineLoop] at h
      split at h
      · next g hp =>
          obtain rfl : g = f := by simpa using h
          exact Or.inl (parseResultStr_error hp)
      · obtain rfl : Fault.nullResult = f := by simpa using h
        exact Or.inr (Or.inl rfl)
      · split_ifs at h
        · simp [RunEnd.ofResult] at h
        · split at h
          · next g hb =>
              obtain rfl : g = f := by simpa using h
              exact Or.inr (Or.inr ⟨_, _, hb⟩)
          · simp at h
          · split at h
            · simp at h
            · exact ih h

/-- A turn meets a fault. -/
def Round.Faults (c : ExecCtx) (rd : Round) (f : Fault) : Prop := rd.halt c = some (.fault f)

/-- The faults of a turn: of the lines, or of `do_output`. -/
theorem Round.faults_iff {c : ExecCtx} {rd : Round} {f : Fault} :
    rd.Faults c f ↔ rd.run.ending = .fault f ∨
      ∃ r, rd.run.ending = .result r ∧ doOutput c.db r = .error f := by
  unfold Round.Faults Round.halt
  cases rd.run.ending with
  | fault g => simp
  | null => simp
  | result r => cases hout : doOutput c.db r <;> simp [hout]

/-- **The loop ends in a fault** exactly when one of its turns meets it. -/
theorem execLoop_fault_iff {c : ExecCtx} {f : Fault} (fuel : ℕ) :
    ∀ (executions : ℕ) (stack : List ExecItem),
      (execLoop c fuel executions stack).2 = .fault f ↔
        ∃ rd ∈ (execLoop c fuel executions stack).1, rd.Faults c f := by
  induction fuel with
  | zero => intro executions stack; simp [execLoop]
  | succ fuel ih =>
      intro executions stack
      cases stack with
      | nil => simp [execLoop]
      | cons item rest =>
          rcases execLoop_cases c fuel executions item rest with
            ⟨-, h⟩ | ⟨-, rd, -, -, -, -, ⟨halt, hhalt, h⟩ | ⟨hon, h⟩⟩
          · simp [h]
          · rw [h]
            simp [Round.Faults, hhalt]
          · have hno : ¬ rd.Faults c f := by
              simp [Round.Faults, Round.goesOn_iff_halt.mp hon]
            rw [h]
            simp [ih, hno]

/-- A walk over a chain always ends. -/
theorem run_ne_endless (c : ExecCtx) (stack : List ExecItem) :
    (c.run stack).2 ≠ .fault .endless := by
  intro h
  obtain ⟨rd, hrd, hfault⟩ := (execLoop_fault_iff c.fuel 0 stack).mp h
  have hsound := sound_of_mem_run hrd
  rcases Round.faults_iff.mp hfault with hend | ⟨r, -, hout⟩
  · rw [hsound.run_eq] at hend
    rcases lineLoop_fault _ hend with h | h | ⟨address, name, h⟩
    · exact absurd h (by simp)
    · exact absurd h (by simp)
    · rcases execlistBuild_error h with h | h <;> exact absurd h (by simp)
  · rcases doOutput_error hout with h | h <;> exact absurd h (by simp)

/-! ## The number of executions -/

/-- After `executions` runs of plugins, and with `stack` left, the trap asks for more than
`n` further ones: there is an item on the stack, and when it is run, it reports a result
that `do_output` can handle and the items then on the stack ask for more than `n - 1`. -/
inductive AsksForMore (c : ExecCtx) : ℕ → ℕ → List ExecItem → Prop
  | now {executions : ℕ} {item : ExecItem} {rest : List ExecItem} :
      AsksForMore c executions 0 (item :: rest)
  | later {executions n : ℕ} {item : ExecItem} {rest : List ExecItem} {r : ExecResult}
      (hr : Reports c item (c.lines executions item) r) (hout : ¬ OutputFaults c.db r)
      (h : AsksForMore c (executions + 1) n
        ((c.pushed item (c.lines executions item)).reverse ++ rest)) :
      AsksForMore c executions (n + 1) (item :: rest)

/-- An empty stack asks for nothing, and nothing is run for it. -/
theorem length_execLoop_nil_iff {c : ExecCtx} (n fuel executions : ℕ) :
    n < (execLoop c fuel executions []).1.length ↔ AsksForMore c executions n [] := by
  refine iff_of_false ?_ nofun
  cases fuel <;> simp [execLoop]

/-- **The loop makes more than `n` turns** exactly when the stack asks for them, as far as
the limit lets it. -/
theorem length_execLoop_iff {c : ExecCtx} (n : ℕ) :
    ∀ (fuel executions : ℕ) (stack : List ExecItem), n < fuel →
      (executions + n : ℤ) ≤ c.stack_max_executions →
      (n < (execLoop c fuel executions stack).1.length ↔ AsksForMore c executions n stack) := by
  -- on the turns that are asked for
  induction n with
  | zero =>
      intro fuel executions stack hfuel hmax
      obtain ⟨fuel, rfl⟩ : ∃ k, fuel = k + 1 := ⟨fuel - 1, by omega⟩
      cases stack with
      | nil => exact length_execLoop_nil_iff ..
      | cons item rest =>
          refine iff_of_true ?_ .now
          rcases execLoop_cases c fuel executions item rest with
            ⟨hlimit, -⟩ | ⟨-, rd, -, -, -, -, ⟨halt, -, h⟩ | ⟨-, h⟩⟩
          · omega
          · simp [h]
          · simp [h]
  | succ n ih =>
      intro fuel executions stack hfuel hmax
      obtain ⟨fuel, rfl⟩ : ∃ k, fuel = k + 1 := ⟨fuel - 1, by omega⟩
      cases stack with
      | nil => exact length_execLoop_nil_iff ..
      | cons item rest =>
          rcases execLoop_cases c fuel executions item rest with
            ⟨hlimit, -⟩ | ⟨-, rd, rfl, rfl, rfl, hsound, ⟨halt, hhalt, h⟩ | ⟨hon, h⟩⟩
          · omega
          · -- the last turn reports nothing that `do_output` can handle
            have hstop : ¬ rd.GoesOn c := by simp [Round.goesOn_iff_halt, hhalt]
            rw [h]
            refine iff_of_false (by simp) ?_
            rintro (_ | ⟨hr, hout, -⟩)
            exact hstop (hsound.goesOn_iff.mpr ⟨_, hr, hout⟩)
          · obtain ⟨r, hr, hout⟩ := hsound.goesOn_iff.mp hon
            have hlater := ih fuel (rd.executions + 1) rd.run.stack (by omega)
              (by push_cast at hmax ⊢; omega)
            have hstack : rd.run.stack
                = (c.pushed rd.item (c.lines rd.executions rd.item)).reverse ++ rd.rest :=
              hsound.stack_eq
            rw [h, List.length_cons, Nat.succ_lt_succ_iff, hlater, hstack]
            constructor
            · exact fun hasks => .later hr hout hasks
            · rintro (_ | ⟨-, -, hasks⟩)
              exact hasks

/-- **Bounded execution**: the loop ends, and has run the plugin no more than
`plugins_max_executions` times. -/
structure Bounded (c : ExecCtx) (stack : List ExecItem) : Prop where
  ends : (c.run stack).2 ≠ .outOfFuel ∧ (c.run stack).2 ≠ .fault .endless
  executions : (c.run stack).1.length ≤ c.stack_max_executions.toNat

/-- **Execution is bounded** exactly when the limit is negative, which lets nothing run, or
the trap does not ask for more executions than the limit.  (A trap that asks for more gets
one too many; where the limit is the largest `int`, the count overflows there.) -/
theorem run_bounded_iff (c : ExecCtx) (stack : List ExecItem) :
    Bounded c stack ↔ c.stack_max_executions < 0 ∨
      ¬ AsksForMore c 0 c.stack_max_executions.toNat stack := by
  have hends : (c.run stack).2 ≠ .outOfFuel ∧ (c.run stack).2 ≠ .fault .endless :=
    ⟨execLoop_ne_outOfFuel c.fuel 0 stack (by unfold ExecCtx.fuel; omega),
      run_ne_endless c stack⟩
  have hiff : Bounded c stack ↔ (c.run stack).1.length ≤ c.stack_max_executions.toNat :=
    ⟨fun h => h.executions, fun h => ⟨hends, h⟩⟩
  rw [hiff]
  by_cases hneg : c.stack_max_executions < 0
  · refine iff_of_true ?_ (Or.inl hneg)
    have hnil : (c.run stack).1 = [] := by
      unfold ExecCtx.run ExecCtx.fuel
      cases stack with
      | nil => rfl
      | cons item rest =>
          rcases execLoop_cases c (c.stack_max_executions + 1).toNat 0 item rest with
            ⟨-, h⟩ | ⟨hbound, -⟩
          · rw [h]
          · push_cast at hbound
            omega
    simp [hnil]
  · have hlength := length_execLoop_iff (c := c) c.stack_max_executions.toNat c.fuel 0 stack
      (by unfold ExecCtx.fuel; omega) (by omega)
    rw [← not_lt]
    unfold ExecCtx.run
    rw [hlength]
    simp [hneg]

/-- A plugin that always names a known host and no status. -/
def namingCtx : ExecCtx :=
  { twoHostsCtx with plugin := fun _ _ => ["|k||-|out||\n".toList], stack_max_executions := 1 }

/-- With a limit of one execution it is run twice. -/
theorem not_run_bounded :
    ¬ ∀ (c : ExecCtx) (stack : List ExecItem),
        initialStack c.db none c.cmd_id c.use_sender_address c.sender_address = .ok (some stack) →
        Bounded c stack := by
  intro h
  exact absurd (h namingCtx [templateItem] (by decide)).executions (by decide)

/-! ## The tables of standalone mode -/

/-- A command given by the user is not looked up. -/
theorem ExecCtx.StartedFrom.given {c : ExecCtx} {env : Env} {tr : Trap} {command : Str}
    (h : c.StartedFrom env tr (some command)) :
    c.use_sender_address = false ∧ isEmpty c.command = false := by
  obtain ⟨filename, hchoice, -⟩ := h.choice
  rw [h.command_eq]
  unfold choosePlugin extractFilename at hchoice
  by_cases hempty : command.length = 0
  · simp [hempty] at hchoice
  · have huse : false = c.use_sender_address := by
      simp only [if_neg hempty] at hchoice
      split at hchoice
      · simp at hchoice
      · exact (Prod.mk.inj (Prod.mk.inj (Option.some_inj.mp (Except.ok.inj hchoice))).2).2
    exact ⟨huse.symm, by simpa using hempty⟩

/-- Before the loop there is no table to look anything up in. -/
theorem execTrapStart_given_error {env : Env} {trap : Option Trap} {oid : Option Str}
    {command : Str} {f : Fault} (h : execTrapStart env trap oid (some command) = .error f) :
    f = .nullString := by
  rcases execTrapStart_cases env trap oid (some command) with
    hnone | ⟨tr, rfl, ⟨f', hchoose, -⟩ | herror | ⟨c, hstart, hstack⟩⟩
  · simp [hnone] at h
  · unfold choosePlugin at hchoose
    cases hname : extractFilename (some command) <;> simp [hname] at hchoose
  · rw [herror] at h
    exact (Except.error.inj h).symm
  · rw [hstack, hstart.command_eq] at h
    simp [initialStack, Except.map] at h

/-- A run of `exec_trap` looks nothing up in a table that does not exist. -/
def UsesBuiltTables (env : Env) (trap : Option Trap) (oid command : Option Str) : Prop :=
  execTrap env trap oid command ≠ .error .noTable ∧
    ∀ out, execTrap env trap oid command = .ok (some out) → out.2 ≠ .fault .noTable

/-- A turn of a standalone run uses a missing table exactly when it reports a result with a
host name or an address. -/
theorem Round.Sound.faults_noTable_iff {c : ExecCtx} {rd : Round} (hsound : rd.Sound c)
    (hdb : c.db.daemon = none) (huse : c.use_sender_address = false)
    (hcommand : isEmpty c.command = false) :
    rd.Faults c .noTable ↔ ∃ r, Reports c rd.item (rd.lines c) r ∧
      ¬ (isEmpty r.host_name = true ∧ isEmpty r.host_address = true) := by
  have hlines : rd.run.ending ≠ .fault .noTable := by
    rw [hsound.run_eq]
    intro h
    rcases lineLoop_fault _ h with h | h | ⟨address, name, h⟩
    · exact absurd h (by simp)
    · exact absurd h (by simp)
    · -- the second list is made of the command itself
      unfold execlistBuild at h
      rw [if_pos (by simp [hcommand])] at h
      exact absurd h (by simp)
  rw [Round.faults_iff, or_iff_right hlines]
  simp only [hsound.ending_eq_result]
  refine exists_congr fun r => and_congr_right fun hr => ?_
  have hr_use : r.use_sender_address = false := (use_sender_address_of_reports hr).trans huse
  have hconfirmed := outputConfirmed_standalone hdb hr_use
  unfold doOutput
  rw [hconfirmed]
  by_cases hempty : isEmpty r.host_name = true ∧ isEmpty r.host_address = true
  · simp [hempty, bind, Except.bind]
  · simp [hempty, bind, Except.bind]

/-- **A standalone run uses the tables it has** exactly when no plugin reports a result
with a host name or an address. -/
theorem standalone_tables_iff {rows : DbRows} {env : Env} (hdb : dbInit false rows = some env.db)
    (trap : Option Trap) (oid : Option Str) (command : Str) :
    UsesBuiltTables env trap oid (some command) ↔
      ∀ c stack, execTrapStart env trap oid (some command) = .ok (some (c, stack)) →
        ∀ rd ∈ (c.run stack).1, ∀ r, Reports c rd.item (rd.lines c) r →
          isEmpty r.host_name = true ∧ isEmpty r.host_address = true := by
  have hdaemon : env.db.daemon = none := by
    obtain ⟨resources, -, hresources⟩ := Option.map_eq_some_iff.mp hdb
    rw [← hresources]
    rfl
  -- a run stops for a missing table exactly when one of its turns does
  have hturns : ∀ c stack, execTrapStart env trap oid (some command) = .ok (some (c, stack)) →
      ((c.run stack).2 = .fault .noTable ↔ ∃ rd ∈ (c.run stack).1,
        ∃ r, Reports c rd.item (rd.lines c) r ∧
          ¬ (isEmpty r.host_name = true ∧ isEmpty r.host_address = true)) := by
    intro c stack hstart
    obtain ⟨tr, -, hstarted, -⟩ := execTrapStart_eq_some hstart
    obtain ⟨huse, hcommand⟩ := hstarted.given
    unfold ExecCtx.run
    rw [execLoop_fault_iff]
    refine exists_congr fun rd => and_congr_right fun hrd => ?_
    exact (sound_of_mem_run hrd).faults_noTable_iff (by rw [hstarted.db_eq, hdaemon]) huse hcommand
  constructor
  · rintro ⟨-, h⟩ c stack hstart rd hrd r hr
    by_contra hne
    refine h (c.run stack) ?_ ((hturns c stack hstart).mpr ⟨rd, hrd, r, hr, hne⟩)
    simp [execTrap, hstart, bind, Except.bind]
  · intro h
    refine ⟨fun herror => ?_, fun out hout hfault => ?_⟩
    · unfold execTrap at herror
      cases hstart : execTrapStart env trap oid (some command) with
      | ok start => simp [hstart, bind, Except.bind] at herror
      | error f =>
          obtain rfl := execTrapStart_given_error hstart
          simp [hstart, bind, Except.bind] at herror
    · obtain ⟨c, stack, hstart, rfl⟩ := execTrap_eq_some hout
      obtain ⟨rd, hrd, r, hr, hne⟩ := (hturns c stack hstart).mp hfault
      exact hne (h c stack hstart rd hrd r hr)

/-- A standalone run without resources, with a plugin that prints `lines`. -/
def standaloneEnv (lines : List Str) : Env where
  db := ⟨HashTable.empty, none⟩
  plugin := fun _ _ => lines
  set_permissions := fun _ => true
  stack_max_executions := 10

/-- A database without rows. -/
def noRows : DbRows := ⟨[], [], [], [], []⟩

/-- A trap with its own OID as its only object. -/
def plainTrap : Trap :=
  ⟨1, 0, some ['h'], some ['s'], some ['o'],
    [⟨some snmpTrapOIDName, some ⟨2, ['o'], true⟩, .set (some ['"', 'o', '"'])⟩]⟩

/-- A plugin without output. -/
theorem standalone_tables_silent :
    dbInit false noRows = some (standaloneEnv []).db ∧
      (UsesBuiltTables (standaloneEnv []) (some plainTrap) none (some ['p']) ↔
        ∀ c stack, execTrapStart (standaloneEnv []) (some plainTrap) none (some ['p'])
            = .ok (some (c, stack)) →
          ∀ rd ∈ (c.run stack).1, ∀ r, Reports c rd.item (rd.lines c) r →
            isEmpty r.host_name = true ∧ isEmpty r.host_address = true) :=
  ⟨rfl, @standalone_tables_iff noRows _ rfl (some plainTrap) none ['p']⟩

/-- A plugin that reports a host is looked up among hosts that were never loaded. -/
theorem not_standalone_tables :
    ¬ ∀ (rows : DbRows) (env : Env), dbInit false rows = some env.db →
        ∀ (trap : Option Trap) (oid : Option Str) (command : Str),
          UsesBuiltTables env trap oid (some command) := by
  intro h
  have huses := (h noRows (standaloneEnv ["|k||0|up||\n".toList]) rfl (some plainTrap) none
    ['p']).2
  have hfault : ∀ run, execTrap (standaloneEnv ["|k||0|up||\n".toList]) (some plainTrap) none
      (some ['p']) = run → run.toOption.join.map Prod.snd = some (.fault .noTable) := by
    rintro _ rfl
    decide
  cases hrun : execTrap (standaloneEnv ["|k||0|up||\n".toList]) (some plainTrap) none
      (some ['p']) with
  | error f => simpa [Except.toOption] using hfault _ hrun
  | ok run =>
      obtain ⟨out, rfl, hout⟩ : ∃ out, run = some out ∧ out.2 = .fault .noTable := by
        simpa [Except.toOption] using hfault _ hrun
      exact huses out hrun hout

end Trapd
