/-
# Whole runs of `exec_trap`

What holds of every turn of the loop of `exec_trap`, and what that makes of a run.
`execTrap_eq_some` leads from `exec_trap` to its loop, and `sound_of_mem_run` says what
a turn is; the results follow from what is known of the loop over the lines
(`ExecLines`) and of `do_output` (`ExecOutput`):

* `nullSafe_iff`: an execution goes through NULL;
* `run_verdicts_iff`: what is written comes from complete lines;
* `run_all_executed_iff`: every item on the stack is executed once;
* `run_associated_iff`: what is written is bound to the command of the trap.

Each has an exact condition on what the plugins print.
-/
import NagiosTrapd.ExecStatus
import NagiosTrapd.Worklist

namespace Trapd

/-! ## The loop of `exec_trap` -/

/-- What `exec_trap` starts its loop with, for a trap that it executes. -/
structure ExecCtx.StartedFrom (c : ExecCtx) (env : Env) (trap : Trap) (command : Option Str) :
    Prop where
  db_eq : c.db = env.db
  plugin_eq : c.plugin = env.plugin
  stack_max_executions_eq : c.stack_max_executions = env.stack_max_executions
  command_eq : c.command = command
  choice : ∃ filename,
    choosePlugin env.db trap.oid command = .ok (some (c.cmd_id, filename, c.use_sender_address)) ∧
      env.set_permissions filename = true
  trap_contents : trapGetContents trap = some c.trap_contents ∧ c.trap_contents ≠ none
  timestamp : trapGetTimestamp trap ≠ 0
  sender_address : c.sender_address = trap.ipaddress ∧ trap.ipaddress ≠ none

/-- **What `exec_trap` does before its loop**: it returns 0, it fails in the choice of the
plugin or in the contents of the trap, or it settles with what to make its stack. -/
theorem execTrapStart_cases (env : Env) (trap : Option Trap) (oid command : Option Str) :
    execTrapStart env trap oid command = .ok none ∨
      ∃ tr, trap = some tr ∧
        ((∃ f, choosePlugin env.db tr.oid command = .error f ∧
            execTrapStart env trap oid command = .error f) ∨
          execTrapStart env trap oid command = .error .nullString ∨
          ∃ c : ExecCtx, c.StartedFrom env tr command ∧
            execTrapStart env trap oid command
              = (initialStack c.db c.command c.cmd_id c.use_sender_address c.sender_address).map
                  (Option.map fun stack => (c, stack))) := by
  rcases trap with _ | trap
  · exact .inl rfl
  unfold execTrapStart
  -- the checks of `exec_trap` in their order
  by_cases hempty : isEmpty trap.oid
  · simp [hempty]
  by_cases hoid : oid ≠ none ∧ oid ≠ trap.oid
  · simp [hempty, hoid]
  simp only [if_neg hempty, if_neg hoid, bind, Except.bind]
  rcases hchoose : choosePlugin env.db trap.oid command with
    f | _ | ⟨cmd_id, filename, use_sender_address⟩
  · exact .inr ⟨trap, rfl, .inl ⟨f, hchoose, rfl⟩⟩
  · exact .inl rfl
  by_cases hpermissions : env.set_permissions filename = false
  · simp [hpermissions]
  rcases hcontents : trapGetContents trap with _ | _ | contents
  · simp [hpermissions]
  · simp [hpermissions]
  by_cases htime : trapGetTimestamp trap = 0
  · simp [hpermissions, htime]
  rcases haddress : trap.ipaddress with _ | sender_address
  · simp [hpermissions, htime]
  refine .inr ⟨trap, rfl, .inr (.inr ⟨⟨env.db, env.plugin, env.stack_max_executions, command,
    cmd_id, use_sender_address, some sender_address, some contents, trapGetTimestamp trap⟩,
    ?_, ?_⟩)⟩
  · exact ⟨rfl, rfl, rfl, rfl, ⟨filename, hchoose, Bool.eq_true_of_not_eq_false hpermissions⟩,
      ⟨hcontents, by simp⟩, htime, ⟨haddress.symm, by simp [haddress]⟩⟩
  · simp only [if_neg hpermissions, if_neg htime]
    cases initialStack env.db command cmd_id use_sender_address (some sender_address) <;> rfl

theorem execTrapStart_eq_some {env : Env} {trap : Option Trap} {oid command : Option Str}
    {c : ExecCtx} {stack : List ExecItem}
    (h : execTrapStart env trap oid command = .ok (some (c, stack))) :
    ∃ tr, trap = some tr ∧ c.StartedFrom env tr command ∧
      initialStack c.db c.command c.cmd_id c.use_sender_address c.sender_address
        = .ok (some stack) := by
  rcases execTrapStart_cases env trap oid command with
    hnone | ⟨tr, rfl, ⟨f, -, herror⟩ | herror | ⟨c', hstart, hstack⟩⟩
  · simp [hnone] at h
  · simp [herror] at h
  · simp [herror] at h
  · rw [hstack] at h
    rcases hinitial : initialStack c'.db c'.command c'.cmd_id c'.use_sender_address
      c'.sender_address with f | _ | stack'
    · simp [hinitial, Except.map] at h
    · simp [hinitial, Except.map] at h
    · rw [hinitial] at h
      obtain ⟨rfl, rfl⟩ := Prod.mk.inj (Option.some_inj.mp (Except.ok.inj h))
      exact ⟨tr, rfl, hstart, hinitial⟩

/-- **A run of `exec_trap`** is a run of its loop on the stack that `initialStack` makes. -/
theorem execTrap_eq_some {env : Env} {trap : Option Trap} {oid command : Option Str}
    {out : List Round × Halt} (h : execTrap env trap oid command = .ok (some out)) :
    ∃ (c : ExecCtx) (stack : List ExecItem),
      execTrapStart env trap oid command = .ok (some (c, stack)) ∧ out = c.run stack := by
  unfold execTrap at h
  rcases hstart : execTrapStart env trap oid command with f | _ | ⟨c, stack⟩
  · simp [hstart, bind, Except.bind] at h
  · simp [hstart, bind, Except.bind] at h
  simp only [hstart, bind, Except.bind, Option.map_some, Except.ok.injEq, Option.some_inj] at h
  exact ⟨c, stack, rfl, h.symm⟩

/-! ## Turns -/

/-- The call of `channel_write` behind an execution. -/
def RunEnd.write (db : Db) : RunEnd → Option ChannelWrite
  | .result r =>
      match doOutput db r with
      | .ok write => write
      | .error _ => none
  | _ => none

/-- The lines read in a turn. -/
def Round.lines (c : ExecCtx) (rd : Round) : List Str := c.lines rd.executions rd.item

/-- What a turn consists of. -/
structure Round.Sound (c : ExecCtx) (rd : Round) : Prop where
  run_eq : rd.run = lineLoop c rd.item rd.rest none (rd.lines c)
  write_eq : rd.write = rd.run.ending.write c.db

/-- Why the loop ends with a turn; `none` when it goes on. -/
def Round.halt (c : ExecCtx) (rd : Round) : Option Halt :=
  match rd.run.ending with
  | .fault f => some (.fault f)
  | .null => some .null
  | .result r =>
      match doOutput c.db r with
      | .error f => some (.fault f)
      | .ok _ => none

/-- The turn is followed by the next one: it has a result, and `do_output` returns. -/
def Round.GoesOn (c : ExecCtx) (rd : Round) : Prop :=
  ∃ r w, rd.run.ending = .result r ∧ doOutput c.db r = .ok w

/-- The turn that an execution makes. -/
def turnOf (c : ExecCtx) (executions : ℕ) (item : ExecItem) (rest : List ExecItem) : Round :=
  let run := lineLoop c item rest none (c.lines executions item)
  ⟨executions, item, rest, run, run.ending.write c.db⟩

theorem turnOf_sound (c : ExecCtx) (executions : ℕ) (item : ExecItem) (rest : List ExecItem) :
    (turnOf c executions item rest).Sound c := ⟨rfl, rfl⟩

/-- The loop goes on exactly when it does not end. -/
theorem Round.goesOn_iff_halt {c : ExecCtx} {rd : Round} : rd.GoesOn c ↔ rd.halt c = none := by
  unfold Round.GoesOn Round.halt
  cases rd.run.ending with
  | fault f => simp
  | null => simp
  | result r => cases hout : doOutput c.db r <;> simp [hout]

/-- A turn ends the loop with NULL or with a fault. -/
theorem Round.halt_cases {c : ExecCtx} {rd : Round} {halt : Halt} (h : rd.halt c = some halt) :
    halt = .null ∨ ∃ f, halt = .fault f := by
  unfold Round.halt at h
  split at h
  · exact Or.inr ⟨_, (Option.some_inj.mp h).symm⟩
  · exact Or.inl (Option.some_inj.mp h).symm
  · split at h
    · exact Or.inr ⟨_, (Option.some_inj.mp h).symm⟩
    · simp at h

/-- Below the limit the loop makes a turn, and ends with it or goes on. -/
theorem execLoop_turn {c : ExecCtx} {executions : ℕ} (h : executions ≤ c.stack_max_executions)
    (fuel : ℕ) (item : ExecItem) (rest : List ExecItem) :
    let rd := turnOf c executions item rest
    (∀ halt, rd.halt c = some halt →
        execLoop c (fuel + 1) executions (item :: rest) = ([rd], halt)) ∧
      (rd.GoesOn c →
        execLoop c (fuel + 1) executions (item :: rest)
          = (rd :: (execLoop c fuel (executions + 1) rd.run.stack).1,
              (execLoop c fuel (executions + 1) rd.run.stack).2)) := by
  have hrun : stackRun c executions item rest
      = some (lineLoop c item rest none (c.lines executions item)) := if_neg (by omega)
  rw [execLoop, hrun]
  unfold turnOf Round.GoesOn Round.halt RunEnd.write
  generalize lineLoop c item rest none (c.lines executions item) = run
  obtain ⟨stack, ending⟩ := run
  cases ending with
  | fault f => simp
  | null => simp
  | result r => cases hout : doOutput c.db r <;> simp [hout]

/-- **What one turn can do**: meet the limit, be the last, or be followed by others. -/
theorem execLoop_cases (c : ExecCtx) (fuel executions : ℕ) (item : ExecItem)
    (rest : List ExecItem) :
    (c.stack_max_executions < executions ∧
        execLoop c (fuel + 1) executions (item :: rest) = ([], .limit)) ∨
      (executions ≤ c.stack_max_executions ∧ ∃ rd : Round,
        rd.executions = executions ∧ rd.item = item ∧ rd.rest = rest ∧ rd.Sound c ∧
        ((∃ halt, rd.halt c = some halt ∧
            execLoop c (fuel + 1) executions (item :: rest) = ([rd], halt)) ∨
          (rd.GoesOn c ∧
            execLoop c (fuel + 1) executions (item :: rest)
              = (rd :: (execLoop c fuel (executions + 1) rd.run.stack).1,
                  (execLoop c fuel (executions + 1) rd.run.stack).2)))) := by
  by_cases hlimit : c.stack_max_executions < executions
  · refine Or.inl ⟨hlimit, ?_⟩
    have hrun : stackRun c executions item rest = none := if_pos hlimit
    rw [execLoop, hrun]
  · have hbound := not_lt.mp hlimit
    obtain ⟨hlast, hnext⟩ := execLoop_turn hbound fuel item rest
    refine Or.inr ⟨hbound, turnOf c executions item rest, rfl, rfl, rfl,
      turnOf_sound c executions item rest, ?_⟩
    cases hhalt : (turnOf c executions item rest).halt c with
    | some halt => exact Or.inl ⟨halt, rfl, hlast halt hhalt⟩
    | none =>
        have hgoes := Round.goesOn_iff_halt.mpr hhalt
        exact Or.inr ⟨hgoes, hnext hgoes⟩

/-- The bound of the model is never met. -/
theorem execLoop_ne_outOfFuel {c : ExecCtx} (fuel : ℕ) :
    ∀ (executions : ℕ) (stack : List ExecItem),
      (c.stack_max_executions + 1 - executions).toNat < fuel →
      (execLoop c fuel executions stack).2 ≠ .outOfFuel := by
  induction fuel with
  | zero => intro executions stack h; omega
  | succ fuel ih =>
      intro executions stack h
      cases stack with
      | nil => simp [execLoop]
      | cons item rest =>
          rcases execLoop_cases c fuel executions item rest with
            ⟨-, hloop⟩ | ⟨hbound, rd, -, -, -, -, ⟨halt, hhalt, hloop⟩ | ⟨-, hloop⟩⟩
          · simp [hloop]
          · rw [hloop]
            rcases Round.halt_cases hhalt with rfl | ⟨f, rfl⟩ <;> simp
          · -- a turn brings the count one nearer to the limit
            rw [hloop]
            exact ih (executions + 1) rd.run.stack (by omega)

/-- **Every turn of the loop** runs the item on top of the stack and writes what
`do_output` makes of its result. -/
theorem sound_of_mem_execLoop {c : ExecCtx} (fuel : ℕ) :
    ∀ (executions : ℕ) (stack : List ExecItem), ∀ rd ∈ (execLoop c fuel executions stack).1,
      rd.Sound c := by
  induction fuel with
  | zero => intro executions stack rd hrd; exact absurd hrd List.not_mem_nil
  | succ fuel ih =>
      intro executions stack rd hrd
      cases stack with
      | nil => exact absurd hrd List.not_mem_nil
      | cons item rest =>
          rcases execLoop_cases c fuel executions item rest with
            ⟨-, h⟩ | ⟨-, first, -, -, -, hfirst, ⟨halt, -, h⟩ | ⟨-, h⟩⟩
          · rw [h] at hrd
            exact absurd hrd List.not_mem_nil
          · rw [h] at hrd
            obtain rfl := List.mem_singleton.mp hrd
            exact hfirst
          · rw [h] at hrd
            rcases List.mem_cons.mp hrd with rfl | hrd
            · exact hfirst
            · exact ih _ _ rd hrd

theorem sound_of_mem_run {c : ExecCtx} {stack : List ExecItem} {rd : Round}
    (h : rd ∈ (c.run stack).1) : rd.Sound c :=
  sound_of_mem_execLoop c.fuel 0 stack rd h

/-- A turn ends with the result that its lines report. -/
theorem Round.Sound.ending_eq_result {c : ExecCtx} {rd : Round} (h : rd.Sound c)
    {r : ExecResult} : rd.run.ending = .result r ↔ Reports c rd.item (rd.lines c) r := by
  rw [h.run_eq, lineLoop_result]
  simp

/-- **What a turn writes**: the confirmed result that its lines report. -/
theorem Round.Sound.write_eq_some {c : ExecCtx} {rd : Round} (h : rd.Sound c)
    {w : ChannelWrite} :
    rd.write = some w ↔
      ∃ r, Reports c rd.item (rd.lines c) r ∧ Confirmed c.db r ∧ w = r.channelWrite := by
  rw [h.write_eq]
  constructor
  · intro hw
    cases hend : rd.run.ending with
    | fault f => simp [hend, RunEnd.write] at hw
    | null => simp [hend, RunEnd.write] at hw
    | result r =>
        cases hout : doOutput c.db r with
        | error f => simp [hend, RunEnd.write, hout] at hw
        | ok write =>
            obtain rfl : write = some w := by simpa [hend, RunEnd.write, hout] using hw
            exact ⟨r, h.ending_eq_result.mp hend, doOutput_eq_some.mp hout⟩
  · rintro ⟨r, hr, hconfirmed, hw⟩
    rw [h.ending_eq_result.mpr hr, RunEnd.write, doOutput_eq_some.mpr ⟨hconfirmed, hw⟩]

/-! ## NULL in an execution -/

/-- The run of `stack_run` on the lines `printed`, which are read as C strings, and of
`do_output` on its result, does not go through NULL. -/
def NullSafe (c : ExecCtx) (item : ExecItem) (rest : List ExecItem) (printed : List Str) : Prop :=
  let run := lineLoop c item rest none (printed.map cString)
  ¬ run.ending.NullFault ∧
    ∀ r, run.ending = .result r →
      doOutput c.db r ≠ .error .nullString ∧ doOutput c.db r ≠ .error .nullResult

/-- Where a result is compared through NULL, by what it is about. -/
theorem undescribed_iff (db : Db) {r : ExecResult} {s : Subject} (h : IsAbout r s) :
    (r.is_service = true ∧ r.svc_desc = none ∧ KnownSvcHost db r) ↔ s.Undescribed db := by
  unfold KnownSvcHost Subject.Undescribed
  rw [h.is_service, h.svc_desc, h.host_name, h.host_address, xstrdup_some_eq_none_iff]
  simp only [some_text_eq_xstrdup_iff]

/-- The plugin prints lines that all schedule something, the last of them naming
something known. -/
def ReportsUnverdicted (c : ExecCtx) (item : ExecItem) (lines : List Str) : Prop :=
  (∀ line ∈ lines, c.scheduled item line ≠ []) ∧
    ∃ line r, lines.getLast? = some line ∧ c.parse item line = .ok (some r) ∧ Confirmed c.db r

/-- What is reported is the result of a complete line, or of the last line behind
lines that all schedule something. -/
theorem reports_iff {c : ExecCtx} {item : ExecItem} {lines : List Str} {r : ExecResult} :
    Reports c item lines r →
      (∃ line ∈ lines, c.complete item line = some r) ∨
        ((∀ line ∈ lines, c.scheduled item line ≠ []) ∧
          ∃ line r', lines.getLast? = some line ∧ c.parse item line = .ok (some r') ∧
            r = c.stamp r') := by
  intro h
  induction h with
  | @complete line lines r hc => exact Or.inl ⟨line, List.mem_cons_self, hc⟩
  | @last line r hs hp =>
      exact Or.inr ⟨fun l hl => List.mem_singleton.mp hl ▸ hs, line, r, rfl, hp, rfl⟩
  | @later line lines r hs h ih =>
      rcases ih with ⟨l, hl, hc⟩ | ⟨hall, l, r', hlast, hp, hr⟩
      · exact Or.inl ⟨l, List.mem_cons_of_mem _ hl, hc⟩
      · refine Or.inr ⟨?_, l, r', ?_, hp, hr⟩
        · intro m hm
          rcases List.mem_cons.mp hm with rfl | hm
          · exact hs
          · exact hall m hm
        · rw [List.getLast?_cons, hlast]
          rfl

/-- Lines that all schedule something report the result of the last. -/
theorem reports_of_all_scheduled {c : ExecCtx} {item : ExecItem} {lines : List Str} :
    (∀ line ∈ lines, c.scheduled item line ≠ []) → ∀ {line : Str} {r : ExecResult},
      lines.getLast? = some line → c.parse item line = .ok (some r) →
      Reports c item lines (c.stamp r) := by
  induction lines with
  | nil => intro _ line r hlast _; simp at hlast
  | cons l lines ih =>
      intro hall line r hlast hp
      have hs := hall l List.mem_cons_self
      cases lines with
      | nil =>
          obtain rfl : l = line := by simpa using hlast
          exact .last hs hp
      | cons m lines =>
          refine .later hs (ih (fun x hx => hall x (List.mem_cons_of_mem l hx)) ?_ hp)
          simpa [List.getLast?_cons] using hlast

/-- **Only verdicts are written**: in every run, each call of `channel_write` is for a
complete line of the plugin, exactly when no execution prints lines that all schedule
something, the last of them naming something known. -/
theorem run_verdicts_iff (c : ExecCtx) (stack : List ExecItem) :
    (∀ rd ∈ (c.run stack).1, ∀ w, rd.write = some w →
        ∃ line ∈ rd.lines c, ∃ r, c.complete rd.item line = some r ∧ w = r.channelWrite)
      ↔ ∀ rd ∈ (c.run stack).1, ¬ ReportsUnverdicted c rd.item (rd.lines c) := by
  refine forall_congr' fun rd => forall_congr' fun hrd => ?_
  have hsound := sound_of_mem_run hrd
  constructor
  · rintro h ⟨hall, line, r, hlast, hp, hconfirmed⟩
    have hwrite := hsound.write_eq_some.mpr
      ⟨c.stamp r, reports_of_all_scheduled hall hlast hp, hconfirmed, rfl⟩
    obtain ⟨l, hl, r', hc, -⟩ := h _ hwrite
    rw [complete_of_scheduled (hall l hl)] at hc
    exact absurd hc (by simp)
  · intro h w hw
    obtain ⟨r, hr, hconfirmed, rfl⟩ := hsound.write_eq_some.mp hw
    rcases reports_iff hr with ⟨line, hline, hc⟩ | ⟨hall, line, r', hlast, hp, rfl⟩
    · exact ⟨line, hline, r, hc, rfl⟩
    · exact absurd ⟨hall, line, r', hlast, hp, hconfirmed⟩ h

/-- A plugin whose first run prints a known host without status, and nothing later. -/
def unverdictedCtx : ExecCtx :=
  { twoHostsCtx with plugin := fun n _ => if n = 0 then ["|k||-|out||\n".toList] else [] }

/-- The host is reported with status 0. -/
theorem not_run_verdicts :
    ¬ ∀ (c : ExecCtx) (stack : List ExecItem),
        initialStack c.db none c.cmd_id c.use_sender_address c.sender_address = .ok (some stack) →
        ∀ rd ∈ (c.run stack).1, ∀ w, rd.write = some w →
          ∃ line ∈ rd.lines c, ∃ r, c.complete rd.item line = some r ∧ w = r.channelWrite := by
  intro h
  have hline : ∀ rd ∈ (unverdictedCtx.run [templateItem]).1, rd.write ≠ none →
      ∃ line ∈ rd.lines unverdictedCtx, unverdictedCtx.complete rd.item line ≠ none := by
    intro rd hrd hwrite
    obtain ⟨w, hw⟩ := Option.ne_none_iff_exists'.mp hwrite
    obtain ⟨line, hline, r, hr, -⟩ := h unverdictedCtx [templateItem] (by decide) rd hrd w hw
    exact ⟨line, hline, by rw [hr]; simp⟩
  exact absurd hline (by decide)

/-! ## Every item is executed -/

/-- A turn as a work list sees it: the item taken, and the items pushed. -/
def Round.turn (c : ExecCtx) (rd : Round) : ExecItem × List ExecItem :=
  (rd.item, (c.pushed rd.item (rd.lines c)).reverse)

/-- The stack a turn leaves. -/
theorem Round.Sound.stack_eq {c : ExecCtx} {rd : Round} (h : rd.Sound c) :
    rd.run.stack = (rd.turn c).2 ++ rd.rest := by
  rw [h.run_eq, lineLoop_stack]
  rfl

/-- **A run works off the stack**; where it does not end at the limit, it has emptied
the stack exactly when every turn went on or left the stack empty. -/
theorem execLoop_runs {c : ExecCtx} (fuel : ℕ) :
    ∀ (executions : ℕ) (stack : List ExecItem), ∃ final,
      Worklist.Runs stack ((execLoop c fuel executions stack).1.map (Round.turn c)) final ∧
        ((execLoop c fuel executions stack).2 ≠ .limit →
          (execLoop c fuel executions stack).2 ≠ .outOfFuel →
          (final = [] ↔ ∀ rd ∈ (execLoop c fuel executions stack).1,
            rd.GoesOn c ∨ rd.run.stack = [])) := by
  induction fuel with
  | zero =>
      intro executions stack
      exact ⟨stack, .stop stack, fun _ h => absurd rfl h⟩
  | succ fuel ih =>
      intro executions stack
      cases stack with
      | nil => exact ⟨[], .stop [], fun _ _ => by simp [execLoop]⟩
      | cons item rest =>
          rcases execLoop_cases c fuel executions item rest with
            ⟨-, h⟩ | ⟨-, rd, -, rfl, rfl, hrd, ⟨halt, hhalt, h⟩ | ⟨hon, h⟩⟩
          · rw [h]
            exact ⟨_, .stop _, fun hlimit => absurd rfl hlimit⟩
          · rw [h]
            have hstop : ¬ rd.GoesOn c := by simp [Round.goesOn_iff_halt, hhalt]
            refine ⟨rd.run.stack, ?_, fun _ _ => by simp [hstop]⟩
            rw [hrd.stack_eq]
            exact .turn (.stop _)
          · rw [h]
            obtain ⟨final, hruns, hfinal⟩ := ih (executions + 1) rd.run.stack
            refine ⟨final, ?_, fun hlimit hfuel => ?_⟩
            · have hstack := hrd.stack_eq
              rw [hstack] at hruns ⊢
              exact .turn hruns
            · rw [hfinal hlimit hfuel]
              simp [hon]

/-- A turn goes on when its lines report a result that `do_output` can handle. -/
theorem Round.Sound.goesOn_iff {c : ExecCtx} {rd : Round} (h : rd.Sound c) :
    rd.GoesOn c ↔ ∃ r, Reports c rd.item (rd.lines c) r ∧ ¬ OutputFaults c.db r := by
  unfold Round.GoesOn
  simp only [h.ending_eq_result, ← doOutput_returns_iff]
  constructor
  · rintro ⟨r, w, hr, hw⟩
    exact ⟨r, hr, w, hw⟩
  · rintro ⟨r, hr, w, hw⟩
    exact ⟨r, w, hr, hw⟩

/-- **Every item is executed once**: in every run that does not end at the limit, the
items executed are those the stack held and those pushed, exactly when every execution
reports a result that `do_output` can handle, or nothing else was on the stack and it
has pushed nothing. -/
theorem run_all_executed_iff (c : ExecCtx) (stack : List ExecItem)
    (hlimit : (c.run stack).2 ≠ .limit) :
    ((c.run stack).1.map Round.item).Perm
        (stack ++ (c.run stack).1.flatMap fun rd => c.pushed rd.item (rd.lines c))
      ↔ ∀ rd ∈ (c.run stack).1,
          (∃ r, Reports c rd.item (rd.lines c) r ∧ ¬ OutputFaults c.db r) ∨
            (rd.rest = [] ∧ c.pushed rd.item (rd.lines c) = []) := by
  have hfuel : (c.run stack).2 ≠ .outOfFuel :=
    execLoop_ne_outOfFuel c.fuel 0 stack (by unfold ExecCtx.fuel; omega)
  obtain ⟨final, hruns, hfinal⟩ := execLoop_runs (c := c) c.fuel 0 stack
  have hitems : ((c.run stack).1.map (Round.turn c)).map Prod.fst
      = (c.run stack).1.map Round.item := by
    rw [List.map_map]
    rfl
  have hpushed : (((c.run stack).1.map (Round.turn c)).flatMap Prod.snd).Perm
      ((c.run stack).1.flatMap fun rd => c.pushed rd.item (rd.lines c)) := by
    rw [List.flatMap_map]
    exact List.Perm.flatMap_left _ fun rd _ => List.reverse_perm _
  -- what is left on the stack at the end is what has not been executed
  have hperm := hruns.final_eq_nil_iff.symm.trans (hfinal hlimit hfuel)
  change (((c.run stack).1.map (Round.turn c)).map Prod.fst).Perm
    (stack ++ ((c.run stack).1.map (Round.turn c)).flatMap Prod.snd) ↔ _ at hperm
  rw [hitems] at hperm
  calc ((c.run stack).1.map Round.item).Perm
        (stack ++ (c.run stack).1.flatMap fun rd => c.pushed rd.item (rd.lines c))
      ↔ ((c.run stack).1.map Round.item).Perm
          (stack ++ ((c.run stack).1.map (Round.turn c)).flatMap Prod.snd) :=
        ⟨fun h => h.trans (hpushed.symm.append_left stack),
          fun h => h.trans (hpushed.append_left stack)⟩
    _ ↔ ∀ rd ∈ (c.run stack).1, rd.GoesOn c ∨ rd.run.stack = [] := hperm
    _ ↔ _ := by
        refine forall_congr' fun rd => forall_congr' fun hrd => ?_
        have hsound := sound_of_mem_run hrd
        rw [hsound.goesOn_iff, hsound.stack_eq]
        simp [Round.turn, and_comm]

/-- Two hosts of one command at one address. -/
def oneAddress : DbRows where
  resources := []
  commands := [⟨['1'], Text.single 'p', Text.single 'p', ['1']⟩]
  hosts :=
    [⟨Text.single 'h', Text.single 'a', ['1'], none⟩,
      ⟨Text.single 'k', Text.single 'a', ['1'], none⟩]
  svcs := []
  trap_handlers := []

/-- A trap from the address of both hosts, for their plugins that print `lines`. -/
def oneAddressCtx (lines : List Str) : ExecCtx :=
  { twoHostsCtx with
    db := daemonDb HashTable.empty oneAddress
    plugin := fun _ _ => lines
    use_sender_address := true
    sender_address := some ['a'] }

/-- The items for both hosts, the older one on top. -/
def oneAddressStack : List ExecItem :=
  [⟨some ['p'], .no, some 0, none⟩, ⟨some ['p'], .no, some 1, none⟩]

/-- Both plugins report their own host. -/
def bothReportCtx : ExecCtx := oneAddressCtx ["|||0|up||\n".toList]

/-- A run over the two items. -/
theorem run_all_executed_two :
    (bothReportCtx.run oneAddressStack).2 ≠ .limit ∧
      (((bothReportCtx.run oneAddressStack).1.map Round.item).Perm
          (oneAddressStack ++ (bothReportCtx.run oneAddressStack).1.flatMap fun rd =>
            bothReportCtx.pushed rd.item (rd.lines bothReportCtx))
        ↔ ∀ rd ∈ (bothReportCtx.run oneAddressStack).1,
            (∃ r, Reports bothReportCtx rd.item (rd.lines bothReportCtx) r ∧
              ¬ OutputFaults bothReportCtx.db r) ∨
            (rd.rest = [] ∧ bothReportCtx.pushed rd.item (rd.lines bothReportCtx) = [])) :=
  ⟨by decide, run_all_executed_iff bothReportCtx oneAddressStack (by decide)⟩

/-- The first of the two plugins prints nothing: the other is never executed. -/
theorem not_run_all_executed :
    ¬ ∀ (c : ExecCtx) (stack : List ExecItem),
        initialStack c.db none c.cmd_id c.use_sender_address c.sender_address = .ok (some stack) →
        (c.run stack).2 ≠ .limit →
        ((c.run stack).1.map Round.item).Perm
          (stack ++ (c.run stack).1.flatMap fun rd => c.pushed rd.item (rd.lines c)) := by
  intro h
  have hperm := h (oneAddressCtx []) oneAddressStack (by decide) (by decide)
  exact absurd hperm.length_eq (by decide)

/-! ## What is written is bound to the command of the trap -/

/-- A stored host or service of the names written is bound to a command. -/
def BoundWrite (db : Db) (cmd_id : ℤ) (w : ChannelWrite) : Prop :=
  (w.is_service = false ∧
    ∃ n ∈ db.hosts.nodes, n.cmd_id = cmd_id ∧ some n.host_name.1 = w.host_name) ∨
  (w.is_service = true ∧
    ∃ n ∈ db.svcs.nodes, n.cmd_id = cmd_id ∧ some n.host_name.1 = w.host_name ∧
      some n.description.1 = w.svc_desc)

instance (db : Db) (cmd_id : ℤ) (w : ChannelWrite) : Decidable (BoundWrite db cmd_id w) :=
  inferInstanceAs (Decidable ((_ ∧ ∃ n ∈ db.hosts.nodes, _) ∨ (_ ∧ ∃ n ∈ db.svcs.nodes, _)))

theorem use_sender_address_of_reports {c : ExecCtx} {item : ExecItem} {lines : List Str}
    {r : ExecResult} (h : Reports c item lines r) :
    r.use_sender_address = c.use_sender_address := by
  obtain ⟨line, -, r', hp, rfl⟩ := reports_iff_line.mp h
  have hparsed : r'.use_sender_address = c.use_sender_address := use_sender_address_of_parse hp
  exact hparsed

/-- A confirmed result that is about a subject is bound to a command when the subject is
verified. -/
theorem boundWrite_iff_verified {db : Db} {cmd_id : ℤ} {r : ExecResult} {s : Subject}
    (h : IsAbout r s) :
    (isEmpty r.host_name = false → Known db r → BoundWrite db cmd_id r.channelWrite) ↔
      s.Verified db cmd_id := by
  unfold Known KnownHost KnownSvc BoundWrite ExecResult.channelWrite Subject.Verified
  rw [h.is_service, h.svc_desc, h.host_name, h.host_address, isEmpty_xstrdup, isEmpty_some]
  simp only [some_text_eq_xstrdup_iff, List.isEmpty_eq_false_iff]
  -- without a name nothing is written
  by_cases hname : s.name = []
  · simp [hname]
  -- a host and a service are looked up in tables of their own, by name or by address
  cases s.service with
  | false =>
      simp only [hname, Bool.false_eq_true, if_false, false_or, false_and, or_false, true_and,
        not_false_eq_true, forall_const, ne_eq]
      unfold Subject.HostVerified
      constructor
      · intro hbound
        by_cases hknown : ∃ n ∈ db.hosts.nodes, n.host_name.1 = s.name ∨ n.host_address.1 = s.address
        · exact Or.inl (hbound hknown)
        · push Not at hknown
          exact Or.inr hknown
      · rintro (hbound | hunknown) ⟨n, hn, hmatch⟩
        · exact hbound
        · exact absurd hmatch (not_or.mpr (hunknown n hn))
  | true =>
      simp only [hname, Bool.true_eq_false, if_true, false_or, false_and, true_and,
        not_false_eq_true, forall_const, ne_eq]
      unfold Subject.SvcVerified
      constructor
      · intro hbound
        by_cases hknown : ∃ n ∈ db.svcs.nodes,
            (n.host_name.1 = s.name ∨ n.host_address.1 = s.address) ∧ n.description.1 = s.desc
        · exact Or.inl (hbound hknown)
        · refine Or.inr fun n hn hdesc => not_or.mp fun hmatch => hknown ⟨n, hn, hmatch, hdesc⟩
      · rintro (hbound | hunknown) ⟨n, hn, hmatch, hdesc⟩
        · exact hbound
        · exact absurd hmatch (not_or.mpr (hunknown n hn hdesc))

/-- **What is written is bound to the command of the trap**: in every run of a trap that does
not use the sender's address, exactly when the subject of each line that is reported has no
name, is stored under the command, or is not known at all. -/
theorem run_associated_iff (c : ExecCtx) (stack : List ExecItem)
    (huse : c.use_sender_address = false) :
    (∀ rd ∈ (c.run stack).1, ∀ w, rd.write = some w → BoundWrite c.db c.cmd_id w)
      ↔ ∀ rd ∈ (c.run stack).1, ∀ line, ReportingLine c rd.item (rd.lines c) line →
          (subjectOf c.db rd.item (fieldsRead line)).Verified c.db c.cmd_id := by
  refine forall_congr' fun rd => forall_congr' fun hrd => ?_
  have hsound := sound_of_mem_run hrd
  constructor
  · intro h line hreport
    obtain ⟨r, hp⟩ := hreport.parse_eq_some
    refine (boundWrite_iff_verified (isAbout_of_parse hp)).mp fun hname hknown => ?_
    have hdesc : r.is_service = true → isEmpty r.svc_desc = false := by
      intro hs
      rcases hknown with ⟨hs', -⟩ | ⟨-, n, -, -, hd⟩
      · rw [hs] at hs'
        exact absurd hs' (by simp)
      · rw [← hd]
        exact isEmpty_text _
    exact h (c.stamp r).channelWrite (hsound.write_eq_some.mpr
      ⟨c.stamp r, reports_iff_line.mpr ⟨line, hreport, r, hp, rfl⟩,
        ⟨hname, hdesc, Or.inr hknown⟩, rfl⟩)
  · intro h w hw
    obtain ⟨r, hr, ⟨hname, -, hconfirmed⟩, rfl⟩ := hsound.write_eq_some.mp hw
    obtain ⟨line, hreport, r', hp, rfl⟩ := reports_iff_line.mp hr
    have hknown : Known c.db r' := hconfirmed.resolve_left fun hu => by
      have hu' : r'.use_sender_address = true := hu
      rw [use_sender_address_of_parse hp, huse] at hu'
      exact absurd hu' (by simp)
    exact (boundWrite_iff_verified (isAbout_of_parse hp)).mpr (h line hreport) hname hknown

/-- A run for a trap that does not use the sender's address. -/
theorem run_associated_twoHosts :
    twoHostsCtx.use_sender_address = false ∧
      ((∀ rd ∈ (twoHostsCtx.run [templateItem]).1, ∀ w, rd.write = some w →
          BoundWrite twoHostsCtx.db twoHostsCtx.cmd_id w)
        ↔ ∀ rd ∈ (twoHostsCtx.run [templateItem]).1, ∀ line,
            ReportingLine twoHostsCtx rd.item (rd.lines twoHostsCtx) line →
            (subjectOf twoHostsCtx.db rd.item (fieldsRead line)).Verified twoHostsCtx.db
              twoHostsCtx.cmd_id) :=
  ⟨rfl, run_associated_iff twoHostsCtx [templateItem] rfl⟩

/-- A plugin for the command of host `h` (`sharedAddress`) that reports on host `k`,
which is bound to another command. -/
def otherHostCtx : ExecCtx :=
  { twoHostsCtx with
    db := daemonDb HashTable.empty sharedAddress
    plugin := fun _ _ => ["|k||0|up||\n".toList] }

/-- The result for the host of the other command is written. -/
theorem not_run_associated :
    ¬ ∀ (c : ExecCtx) (stack : List ExecItem), c.use_sender_address = false →
        initialStack c.db none c.cmd_id c.use_sender_address c.sender_address = .ok (some stack) →
        ∀ rd ∈ (c.run stack).1, ∀ w, rd.write = some w → BoundWrite c.db c.cmd_id w := by
  intro h
  have hbound : ∀ rd ∈ (otherHostCtx.run [templateItem]).1, ∀ w ∈ rd.write,
      BoundWrite otherHostCtx.db otherHostCtx.cmd_id w :=
    fun rd hrd w hw => h otherHostCtx [templateItem] rfl (by decide) rd hrd w hw
  exact absurd hbound (by decide)

end Trapd
