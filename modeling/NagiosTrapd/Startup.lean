/-
# Start-up of the daemon (`daemon.c`, `monitor.c`)

`daemon_init` detaches from the terminal, opens the socket and forks the workers.  Every
process has its own copy of the globals of `monitor.c`: the table of the workers that had been
forked when the copy was made, and the flag `i_am_monitor`, which is set when all have been
forked.  `log_critical` signals the workers of the table, if the flag is set, and exits.

**Main result:** `startup_orphans`: when a process calls `log_critical`, SIGTERM has been sent
to exactly the workers that it has forked, in every run in which the fork of a worker does not
fail but for the first; where a later one fails, none of the earlier ones is signalled.  A
worker signals nobody in any run.
-/
import Mathlib.Logic.Function.Basic
import NagiosTrapd.Transition
import NagiosTrapd.Util

namespace Trapd

open Transition

/-! ## The table of workers -/

/-- `pid_t`. -/
abbrev Pid := ℕ

inductive Signal
  | SIGTERM
  | SIGHUP
  deriving DecidableEq, Repr

/-- The calls of a process that others notice. -/
inductive SysCall
  | kill (pid : Pid) (signal : Signal)
  | exit (status : ℕ)
  deriving DecidableEq, Repr

/-- `MAX_WORKERS`. -/
def MAX_WORKERS : ℕ := 32

/-- `EXIT_FAILURE`. -/
def EXIT_FAILURE : ℕ := 1

/-- The globals of `monitor.c`. -/
structure Monitor where
  children : Vector Pid MAX_WORKERS
  workers : ℕ
  workers_le : workers ≤ MAX_WORKERS
  i_am_monitor : Bool
  deriving DecidableEq, Repr

/-- The globals as they are initialised. -/
def Monitor.start : Monitor := ⟨Vector.replicate MAX_WORKERS 0, 0, Nat.zero_le _, false⟩

/-- The workers of the table. -/
def Monitor.registered (m : Monitor) : List Pid := m.children.toList.take m.workers

/-- `signal_all_children`. -/
def signalAllChildren (m : Monitor) (signal : Signal) : List SysCall :=
  m.registered.map fun pid => .kill pid signal

/-- `monitor_register_pid`; `none` is the failed assertion. -/
def monitorRegisterPid (m : Monitor) (my_pid : Pid) (my_workers : ℕ) : Option Monitor :=
  if h : my_workers < MAX_WORKERS then
    some
      { m with
        children := m.children.set my_workers my_pid h
        workers := my_workers + 1
        workers_le := h }
  else none

/-- `monitor_kill_children`. -/
def monitorKillChildren (m : Monitor) : List SysCall :=
  if m.i_am_monitor then signalAllChildren m .SIGTERM else []

/-- `log_critical`, behind its entry in the log. -/
def logCritical (m : Monitor) : List SysCall := monitorKillChildren m ++ [.exit EXIT_FAILURE]

/-! ## Processes -/

/-- The options that `daemon_init` reads. -/
structure DaemonOptions where
  daemonize : Str
  enable_monitor : Str
  workers : Str
  deriving DecidableEq, Repr

/-- The number of workers. -/
def DaemonOptions.workerCount (o : DaemonOptions) : ℕ :=
  let workers := atoi o.workers
  let workers := if workers < 1 then 1 else workers
  (if workers > MAX_WORKERS then (MAX_WORKERS : ℤ) else workers).toNat

/-- Where a process is. -/
inductive StartupPhase
  /-- The options are read, and the first fork made. -/
  | starting
  | setpgrp
  | secondFork
  /-- The socket is opened, and the number of workers read. -/
  | socket
  /-- At the head of the loop. -/
  | forking (i : ℕ)
  /-- The parent, behind the fork. -/
  | registering (res : Pid) (i : ℕ)
  /-- In `worker_init` or `worker_start_main_loop`, called in the loop. -/
  | worker (i : ℕ)
  /-- There too, without a monitor. -/
  | soleWorker
  /-- Behind the loop, where the socket is closed. -/
  | closing
  /-- In `monitor_init`, behind its first statement. -/
  | monitorInit
  | monitorLoop
  /-- In `log_critical`, which has made these calls. -/
  | critical (calls : List SysCall)
  | exited
  deriving DecidableEq, Repr

structure Process where
  phase : StartupPhase
  monitor : Monitor
  worker_id : ℤ
  /-- The workers that the process has forked; the code keeps no such record. -/
  forked : List Pid
  deriving DecidableEq, Repr

namespace Process

/-- The process that calls `daemon_init`. -/
def start : Process := ⟨.starting, .start, -1, []⟩

/-- The process goes on. -/
def goTo (p : Process) (phase : StartupPhase) : Process := { p with phase := phase }

/-- What a process does without a fork. -/
def go (o : DaemonOptions) (p : Process) : Option Process :=
  match p.phase with
  | .starting => if o.daemonize = "true".toList then none else some (p.goTo .socket)
  | .setpgrp => some (p.goTo .secondFork)
  | .socket =>
      some (if o.enable_monitor = "true".toList then p.goTo (.forking 0)
        else { p with phase := .soleWorker, worker_id := 0 })
  | .forking i => if i < o.workerCount then none else some (p.goTo .closing)
  | .registering res i =>
      (monitorRegisterPid p.monitor res i).map fun m =>
        { p with phase := .forking (i + 1), monitor := m }
  -- `worker_start_main_loop` has returned
  | .soleWorker => some (p.goTo .closing)
  | .closing =>
      some { p with phase := .monitorInit, monitor := { p.monitor with i_am_monitor := true } }
  | .monitorInit => some (p.goTo .monitorLoop)
  | _ => none

/-- Parent and child behind a fork, which copies the memory. -/
def fork (o : DaemonOptions) (child : Pid) (p : Process) : Option (Process × Process) :=
  match p.phase with
  | .starting =>
      if o.daemonize = "true".toList then some (p.goTo .exited, p.goTo .setpgrp) else none
  | .secondFork => some (p.goTo .exited, p.goTo .socket)
  | .forking i =>
      if i < o.workerCount then
        some ({ p with phase := .registering child i, forked := p.forked ++ [child] },
          { p with phase := .worker i, worker_id := i, forked := [] })
      else none
  | _ => none

/-- The code that the process is in may call `log_critical`. -/
def MayFail (o : DaemonOptions) (p : Process) : Prop :=
  match p.phase with
  | .forking i => i < o.workerCount
  | .registering .. | .closing | .critical _ | .exited => False
  | _ => True

/-- `log_critical` is called. -/
def fail (p : Process) : Process := p.goTo (.critical (logCritical p.monitor))

end Process

/-! ## All processes -/

/-- The processes, by their ids. -/
abbrev Processes := Pid → Option Process

/-- What can happen; a process may also exit, or be killed, at any time. -/
inductive StartupEvent
  | go (pid : Pid)
  | fork (pid child : Pid)
  | critical (pid : Pid)
  | exit (pid : Pid)
  deriving DecidableEq, Repr

/-- One step. -/
inductive StartupStep (o : DaemonOptions) : Processes → StartupEvent → Processes → Prop
  | go {s : Processes} {pid : Pid} {p p' : Process} (hp : s pid = some p)
      (hgo : p.go o = some p') :
      StartupStep o s (.go pid) (Function.update s pid (some p'))
  | fork {s : Processes} {pid child : Pid} {p parent copy : Process} (hp : s pid = some p)
      (hchild : s child = none) (hfork : p.fork o child = some (parent, copy)) :
      StartupStep o s (.fork pid child)
        (Function.update (Function.update s pid (some parent)) child (some copy))
  | critical {s : Processes} {pid : Pid} {p : Process} (hp : s pid = some p)
      (hfail : p.MayFail o) :
      StartupStep o s (.critical pid) (Function.update s pid (some p.fail))
  | exit {s : Processes} {pid : Pid} {p : Process} (hp : s pid = some p)
      (hrunning : ∀ calls, p.phase ≠ .critical calls) :
      StartupStep o s (.exit pid) (Function.update s pid (some (p.goTo .exited)))

/-- One process calls `daemon_init`. -/
def startupSystem (o : DaemonOptions) : System Processes StartupEvent where
  init s := ∃ pid, s = Function.update (fun _ => none) pid (some .start)
  step := StartupStep o

/-- What is so of every process. -/
def Everywhere (P : Process → Prop) (s : Processes) : Prop := ∀ pid p, s pid = some p → P p

/-- A process that has called `log_critical` has sent SIGTERM to the workers that it has
forked, to each once, and nothing to any other process, before it exits. -/
def Process.Answered (p : Process) : Prop :=
  ∀ calls, p.phase = .critical calls →
    calls = p.forked.map (SysCall.kill · .SIGTERM) ++ [.exit EXIT_FAILURE]

/-- A worker that has called `log_critical` has signalled nobody. -/
def Process.Silent (p : Process) : Prop :=
  0 ≤ p.worker_id → ∀ calls, p.phase = .critical calls → calls = [.exit EXIT_FAILURE]

/-- The fork of a second or later worker does not fail. -/
def StartupEvent.Harmless (s : Processes) : StartupEvent → Prop
  | .critical pid => ∀ p i, s pid = some p → p.phase = .forking i → i = 0
  | _ => True

/-! ## The table and the workers that have been forked -/

/-- At the start no worker is registered. -/
@[simp] theorem registered_start : Monitor.start.registered = [] := List.take_zero

/-- As many processes are registered as the monitor counts. -/
theorem Monitor.length_registered (m : Monitor) : m.registered.length = m.workers := by
  have hsize : m.children.toList.length = MAX_WORKERS := m.children.length_toList
  rw [Monitor.registered, List.length_take, hsize]
  exact Nat.min_eq_left m.workers_le

/-- A monitor without workers has none registered. -/
theorem Monitor.registered_eq_nil {m : Monitor} (h : m.workers = 0) : m.registered = [] :=
  List.eq_nil_of_length_eq_zero (m.length_registered.trans h)

/-- The table grows at its end. -/
theorem monitorRegisterPid_eq_some {m m' : Monitor} {my_pid : Pid} {i : ℕ} (hi : m.workers = i)
    (h : monitorRegisterPid m my_pid i = some m') :
    m'.registered = m.registered ++ [my_pid] ∧ m'.workers = i + 1 ∧
      m'.i_am_monitor = m.i_am_monitor := by
  subst hi
  unfold monitorRegisterPid at h
  split_ifs at h with hlt
  obtain rfl := Option.some_inj.mp h
  refine ⟨?_, rfl, rfl⟩
  have hlen : m.workers < (m.children.toList.set m.workers my_pid).length := by simpa using hlt
  simp only [Monitor.registered, Vector.toList_set]
  rw [List.take_succ_eq_append_getElem hlen, List.take_set_of_le (le_refl _), List.getElem_set_self]

/-- What `log_critical` does in a process with a table. -/
theorem logCritical_of_monitor {m : Monitor} (h : m.i_am_monitor = true) :
    logCritical m = m.registered.map (SysCall.kill · .SIGTERM) ++ [.exit EXIT_FAILURE] := by
  rw [logCritical, monitorKillChildren, if_pos h, signalAllChildren]

/-- A process that is no monitor exits. -/
theorem logCritical_of_not_monitor {m : Monitor} (h : m.i_am_monitor = false) :
    logCritical m = [.exit EXIT_FAILURE] := by
  rw [logCritical, monitorKillChildren, if_neg (by simp [h]), List.nil_append]

/-- So does a monitor that has no workers. -/
theorem logCritical_of_no_workers {m : Monitor} (h : m.workers = 0) :
    logCritical m = [.exit EXIT_FAILURE] := by
  unfold logCritical monitorKillChildren signalAllChildren
  rw [Monitor.registered_eq_nil h, List.map_nil, ite_self, List.nil_append]

namespace Process

/-- The table has the workers that the process has forked, and the flag is set behind the
loop; a worker has the table of its parent, and has forked nobody. -/
def TableAgrees (p : Process) : Prop :=
  match p.phase with
  | .forking i =>
      p.monitor.registered = p.forked ∧ p.monitor.workers = i ∧ p.monitor.i_am_monitor = false
  | .registering res i =>
      p.monitor.registered ++ [res] = p.forked ∧ p.monitor.workers = i ∧
        p.monitor.i_am_monitor = false
  | .worker _ => p.forked = [] ∧ p.monitor.i_am_monitor = false
  | .closing => p.monitor.registered = p.forked ∧ p.monitor.i_am_monitor = false
  | .monitorInit | .monitorLoop =>
      p.monitor.registered = p.forked ∧ p.monitor.i_am_monitor = true
  | .critical _ | .exited => True
  | _ => p.forked = [] ∧ p.monitor.workers = 0 ∧ p.monitor.i_am_monitor = false

/-- Where a worker can be: one that has been forked in the loop stays out of the rest of
`daemon_init`, and a sole one has no table. -/
def WorkerKept (p : Process) : Prop :=
  0 ≤ p.worker_id →
    match p.phase with
    | .worker _ => p.monitor.i_am_monitor = false
    | .soleWorker | .closing | .monitorInit | .monitorLoop => p.monitor.workers = 0
    | .critical calls => calls = [.exit EXIT_FAILURE]
    | .exited => True
    | _ => False

/-- The table agrees before anything is forked. -/
theorem tableAgrees_start : start.TableAgrees := ⟨rfl, rfl, rfl⟩

/-- The first process is no worker. -/
theorem workerKept_start : start.WorkerKept := fun h => absurd h (by decide)

/-- A process that goes on keeps to its table. -/
theorem TableAgrees.go {o : DaemonOptions} {p p' : Process} (h : p.TableAgrees)
    (hgo : p.go o = some p') : p'.TableAgrees := by
  obtain ⟨phase, m, worker_id, forked⟩ := p
  -- one case for each phase that has a next one; the table is written in `registering` alone
  cases phase with
  | starting =>
      simp only [Process.go] at hgo
      split_ifs at hgo
      obtain rfl := Option.some_inj.mp hgo
      exact h
  | socket =>
      obtain rfl := Option.some_inj.mp hgo
      obtain ⟨hforked, hworkers, hflag⟩ := h
      split_ifs
      · exact ⟨(Monitor.registered_eq_nil hworkers).trans hforked.symm, hworkers, hflag⟩
      · exact ⟨hforked, hworkers, hflag⟩
  | forking i =>
      simp only [Process.go] at hgo
      split_ifs at hgo
      obtain rfl := Option.some_inj.mp hgo
      exact ⟨h.1, h.2.2⟩
  | registering res i =>
      obtain ⟨hforked, hworkers, hflag⟩ := h
      obtain ⟨m', hm, rfl⟩ := Option.map_eq_some_iff.mp hgo
      obtain ⟨hregistered, hworkers, hkept⟩ := monitorRegisterPid_eq_some hworkers hm
      exact ⟨hregistered.trans hforked, hworkers, hkept.trans hflag⟩
  | soleWorker =>
      obtain rfl := Option.some_inj.mp hgo
      obtain ⟨hforked, hworkers, hflag⟩ := h
      exact ⟨(Monitor.registered_eq_nil hworkers).trans hforked.symm, hflag⟩
  | closing =>
      obtain rfl := Option.some_inj.mp hgo
      exact ⟨h.1, rfl⟩
  | setpgrp | monitorInit =>
      obtain rfl := Option.some_inj.mp hgo
      exact h
  | _ => simp [Process.go] at hgo

/-- A worker that goes on stays where workers can be. -/
theorem WorkerKept.go {o : DaemonOptions} {p p' : Process} (h : p.WorkerKept)
    (htable : p.TableAgrees) (hgo : p.go o = some p') : p'.WorkerKept := by
  obtain ⟨phase, m, worker_id, forked⟩ := p
  cases phase with
  | starting =>
      simp only [Process.go] at hgo
      split_ifs at hgo
      obtain rfl := Option.some_inj.mp hgo
      exact h
  | socket =>
      obtain rfl := Option.some_inj.mp hgo
      split_ifs
      · exact h
      · exact fun _ => htable.2.1
  | forking i =>
      simp only [Process.go] at hgo
      split_ifs at hgo
      obtain rfl := Option.some_inj.mp hgo
      exact fun hworker => absurd (h hworker) id
  | registering res i =>
      obtain ⟨m', -, rfl⟩ := Option.map_eq_some_iff.mp hgo
      exact h
  | setpgrp | soleWorker | closing | monitorInit =>
      obtain rfl := Option.some_inj.mp hgo
      exact h
  | _ => simp [Process.go] at hgo

/-- Parent and child of a fork have the table that they should have. -/
theorem TableAgrees.fork {o : DaemonOptions} {child : Pid} {p parent copy : Process}
    (h : p.TableAgrees) (hfork : p.fork o child = some (parent, copy)) :
    parent.TableAgrees ∧ copy.TableAgrees := by
  obtain ⟨phase, m, worker_id, forked⟩ := p
  cases phase with
  | starting =>
      simp only [Process.fork] at hfork
      split_ifs at hfork
      obtain ⟨rfl, rfl⟩ := Prod.mk.inj (Option.some_inj.mp hfork)
      exact ⟨trivial, h⟩
  | secondFork =>
      obtain ⟨rfl, rfl⟩ := Prod.mk.inj (Option.some_inj.mp hfork)
      exact ⟨trivial, h⟩
  | forking i =>
      simp only [Process.fork] at hfork
      split_ifs at hfork
      obtain ⟨rfl, rfl⟩ := Prod.mk.inj (Option.some_inj.mp hfork)
      obtain ⟨hforked, hworkers, hflag⟩ := h
      exact ⟨⟨congrArg (· ++ [child]) hforked, hworkers, hflag⟩, rfl, hflag⟩
  | _ => simp [Process.fork] at hfork

/-- A fork keeps this of the parent, and makes it true of the copy. -/
theorem WorkerKept.fork {o : DaemonOptions} {child : Pid} {p parent copy : Process}
    (h : p.WorkerKept) (htable : p.TableAgrees) (hfork : p.fork o child = some (parent, copy)) :
    parent.WorkerKept ∧ copy.WorkerKept := by
  obtain ⟨phase, m, worker_id, forked⟩ := p
  cases phase with
  | starting =>
      simp only [Process.fork] at hfork
      split_ifs at hfork
      obtain ⟨rfl, rfl⟩ := Prod.mk.inj (Option.some_inj.mp hfork)
      exact ⟨fun _ => trivial, h⟩
  | secondFork =>
      obtain ⟨rfl, rfl⟩ := Prod.mk.inj (Option.some_inj.mp hfork)
      exact ⟨fun _ => trivial, h⟩
  | forking i =>
      simp only [Process.fork] at hfork
      split_ifs at hfork
      obtain ⟨rfl, rfl⟩ := Prod.mk.inj (Option.some_inj.mp hfork)
      exact ⟨h, fun _ => htable.2.2⟩
  | _ => simp [Process.fork] at hfork

/-- A worker that fails signals nobody. -/
theorem WorkerKept.fail {o : DaemonOptions} {p : Process} (h : p.WorkerKept)
    (hfail : p.MayFail o) : p.fail.WorkerKept := by
  intro hworker
  have hkept := h hworker
  obtain ⟨phase, m, worker_id, forked⟩ := p
  cases phase with
  | worker i => exact logCritical_of_not_monitor hkept
  | soleWorker | monitorInit | monitorLoop => exact logCritical_of_no_workers hkept
  | closing | critical | exited => exact hfail.elim
  | _ => exact hkept.elim

/-- **A process that fails answers for its workers**, unless the fork of a later one has
failed. -/
theorem TableAgrees.answered_fail {o : DaemonOptions} {p : Process} (h : p.TableAgrees)
    (hfail : p.MayFail o) (hfork : ∀ i, p.phase = .forking i → i = 0) : p.fail.Answered := by
  rintro _ ⟨⟩
  show logCritical p.monitor = p.forked.map (SysCall.kill · .SIGTERM) ++ [.exit EXIT_FAILURE]
  obtain ⟨phase, m, worker_id, forked⟩ := p
  cases phase with
  | forking i =>
      obtain rfl := hfork i rfl
      obtain ⟨hforked, hworkers, -⟩ := h
      rw [logCritical_of_no_workers hworkers, ← hforked, Monitor.registered_eq_nil hworkers]
      rfl
  | worker i =>
      obtain ⟨rfl, hflag⟩ := h
      exact logCritical_of_not_monitor hflag
  | monitorInit | monitorLoop =>
      obtain ⟨hforked, hflag⟩ := h
      rw [logCritical_of_monitor hflag, hforked]
  | registering | closing | critical | exited => exact hfail.elim
  | _ =>
      obtain ⟨rfl, hworkers, -⟩ := h
      exact logCritical_of_no_workers hworkers

/-- Where the fork of a later worker fails, nobody is signalled. -/
theorem TableAgrees.not_answered_fail {p : Process} {i : ℕ} (h : p.TableAgrees)
    (hphase : p.phase = .forking i) (hi : i ≠ 0) : ¬ p.fail.Answered := by
  intro hanswered
  have hcalls := hanswered _ rfl
  unfold TableAgrees at h
  rw [hphase] at h
  obtain ⟨hforked, hworkers, hflag⟩ := h
  rw [logCritical_of_not_monitor hflag] at hcalls
  have hlen := congrArg List.length hcalls
  have hcount : p.forked.length = i := by rw [← hforked, Monitor.length_registered, hworkers]
  simp [Process.fail, Process.goTo, hcount] at hlen
  omega

/-- A process that is kept so ends silently. -/
theorem WorkerKept.silent {p : Process} (h : p.WorkerKept) : p.Silent := by
  intro hworker calls hcalls
  have hkept := h hworker
  rw [hcalls] at hkept
  exact hkept

/-- `log_critical` is called by its own steps only. -/
theorem phase_go_ne {o : DaemonOptions} {p p' : Process} (hgo : p.go o = some p')
    (calls : List SysCall) : p'.phase ≠ .critical calls := by
  unfold go at hgo
  grind [goTo, Option.map_eq_some_iff]

/-- Behind a fork no critical error is being handled. -/
theorem phase_fork_ne {o : DaemonOptions} {child : Pid} {p parent copy : Process}
    (hfork : p.fork o child = some (parent, copy)) (calls : List SysCall) :
    parent.phase ≠ .critical calls ∧ copy.phase ≠ .critical calls := by
  unfold fork at hfork
  grind [goTo]

end Process

/-! ## All processes -/

/-- What holds everywhere holds when one process is replaced by another it holds of. -/
theorem Everywhere.update {P : Process → Prop} {s : Processes} (h : Everywhere P s) (pid : Pid)
    {p : Process} (hp : P p) : Everywhere P (Function.update s pid (some p)) := by
  intro pid' p' hp'
  by_cases hpid : pid' = pid
  · subst hpid
    rw [Function.update_self] at hp'
    exact Option.some_inj.mp hp' ▸ hp
  · rw [Function.update_of_ne hpid] at hp'
    exact h pid' p' hp'

/-- What every process keeps by itself holds everywhere behind a step. -/
theorem Everywhere.step {o : DaemonOptions} {P : Process → Prop} {s s' : Processes}
    {e : StartupEvent} (h : Everywhere P s) (hstep : StartupStep o s e s')
    (hgo : ∀ p p', P p → p.go o = some p' → P p')
    (hfork : ∀ child p parent copy, P p → p.fork o child = some (parent, copy) →
      P parent ∧ P copy)
    (hfail : ∀ pid p, e = .critical pid → s pid = some p → P p → p.MayFail o → P p.fail)
    (hexit : ∀ p, P p → P (p.goTo .exited)) : Everywhere P s' := by
  cases hstep with
  | go hp hnext => exact h.update _ (hgo _ _ (h _ _ hp) hnext)
  | fork hp _ hnext =>
      obtain ⟨hparent, hcopy⟩ := hfork _ _ _ _ (h _ _ hp) hnext
      exact (h.update _ hparent).update _ hcopy
  | critical hp hmay => exact h.update _ (hfail _ _ rfl hp (h _ _ hp) hmay)
  | exit hp _ => exact h.update _ (hexit _ (h _ _ hp))

/-- What a process keeps to in every run. -/
def Process.Kept (p : Process) : Prop := p.TableAgrees ∧ p.WorkerKept

/-- A process that has ended is kept. -/
theorem Process.Kept.exited {p : Process} : (p.goTo .exited).Kept :=
  ⟨trivial, fun _ => trivial⟩

/-- Every step keeps all processes so. -/
theorem kept_step {o : DaemonOptions} {s s' : Processes} {e : StartupEvent}
    (h : Everywhere Process.Kept s) (hstep : StartupStep o s e s') :
    Everywhere Process.Kept s' := by
  apply h.step hstep
  · exact fun p p' hp hgo => ⟨hp.1.go hgo, hp.2.go hp.1 hgo⟩
  · intro child p parent copy hp hfork
    obtain ⟨hparent, hcopy⟩ := hp.1.fork hfork
    obtain ⟨hparent', hcopy'⟩ := hp.2.fork hp.1 hfork
    exact ⟨⟨hparent, hparent'⟩, hcopy, hcopy'⟩
  · exact fun _ p _ _ hp hmay => ⟨trivial, hp.2.fail hmay⟩
  · exact fun p _ => Process.Kept.exited

/-- They are so at the start. -/
theorem kept_start {o : DaemonOptions} {s : Processes} (h : (startupSystem o).init s) :
    Everywhere Process.Kept s := by
  obtain ⟨pid, rfl⟩ := h
  have hnone : Everywhere Process.Kept fun _ => none := fun _ _ hp => absurd hp (by simp)
  exact hnone.update pid ⟨Process.tableAgrees_start, Process.workerKept_start⟩

/-- So they are in every run. -/
theorem kept_of_reach {o : DaemonOptions} {ok : Processes → StartupEvent → Prop} {s : Processes}
    (h : (startupSystem o).Reach ok s) : Everywhere Process.Kept s :=
  h.invariant (fun _ => kept_start) fun _ _ _ hs _ hstep => kept_step hs hstep

/-- A harmless step keeps all processes answered. -/
theorem answered_step {o : DaemonOptions} {s s' : Processes} {e : StartupEvent}
    (hkept : Everywhere Process.Kept s) (h : Everywhere Process.Answered s)
    (hharmless : e.Harmless s) (hstep : StartupStep o s e s') :
    Everywhere Process.Answered s' := by
  apply h.step hstep
  · exact fun p p' _ hgo calls hcalls => absurd hcalls (Process.phase_go_ne hgo calls)
  · intro child p parent copy _ hfork
    exact ⟨fun calls hcalls => absurd hcalls (Process.phase_fork_ne hfork calls).1,
      fun calls hcalls => absurd hcalls (Process.phase_fork_ne hfork calls).2⟩
  · rintro pid p rfl hp _ hmay
    exact (hkept pid p hp).1.answered_fail hmay fun i => hharmless p i hp
  · exact fun p _ calls hcalls => absurd hcalls (by simp [Process.goTo])

/-- So they are in every run of harmless steps. -/
theorem answered_of_reach {o : DaemonOptions} {s : Processes}
    (h : (startupSystem o).Reach (fun s e => e.Harmless s) s) :
    Everywhere Process.Answered s := by
  suffices hboth : Everywhere Process.Kept s ∧ Everywhere Process.Answered s from hboth.2
  apply h.invariant (I := fun s => Everywhere Process.Kept s ∧ Everywhere Process.Answered s)
  · intro s hinit
    refine ⟨kept_start hinit, ?_⟩
    obtain ⟨pid, rfl⟩ := hinit
    have hnone : Everywhere Process.Answered fun _ => none := fun _ _ hp => absurd hp (by simp)
    exact hnone.update pid fun calls hcalls => absurd hcalls (by simp [Process.start])
  · rintro s e s' ⟨hkept, hanswered⟩ hharmless hstep
    exact ⟨kept_step hkept hstep, answered_step hkept hanswered hharmless hstep⟩

/-- **When a failed start-up leaves no orphans.**  In every run in which the fork of a second
or later worker does not fail, a process that calls `log_critical` sends SIGTERM to exactly the
workers that it has forked; where such a fork fails, it does not; and a worker that calls
`log_critical` signals nobody in any run. -/
theorem startup_orphans (o : DaemonOptions) :
    (∀ s, (startupSystem o).Reach (fun s e => e.Harmless s) s →
      Everywhere Process.Answered s) ∧
    (∀ s e s', (startupSystem o).Reachable s → (startupSystem o).step s e s' →
      ¬ e.Harmless s → ¬ Everywhere Process.Answered s') ∧
    (∀ s, (startupSystem o).Reachable s → Everywhere Process.Silent s) := by
  refine ⟨fun s hs => answered_of_reach hs, ?_, ?_⟩
  · intro s e s' hs hstep hnot h
    cases hstep with
    | critical hp hmay =>
        simp only [StartupEvent.Harmless, not_forall] at hnot
        obtain ⟨p', i, hp', hphase, hi⟩ := hnot
        obtain rfl := Option.some_inj.mp (hp.symm.trans hp')
        have htable := (kept_of_reach hs _ _ hp).1
        exact htable.not_answered_fail hphase hi (h _ _ (Function.update_self ..))
    | _ => exact hnot trivial
  · exact fun s hs pid p hp => ((kept_of_reach hs) pid p hp).2.silent

/-! ## A run -/

section

/-- Process 1 has forked process 2. -/
def parentAndChild (p q : Process) : Processes :=
  Function.update (Function.update (fun _ => none) 1 (some p)) 2 (some q)

/-- Another parent beside the same child. -/
theorem update_parentAndChild (p p' q : Process) :
    Function.update (parentAndChild p q) 1 (some p') = parentAndChild p' q := by
  unfold parentAndChild
  rw [Function.update_comm (by decide), Function.update_idem, Function.update_comm (by decide)]

/-- The parent, when it has registered its first worker. -/
def firstRegistered : Process :=
  ⟨.forking 1, ⟨(Vector.replicate MAX_WORKERS 0).set 0 2 (by decide), 1, by decide, false⟩, -1, [2]⟩

/-- Its first worker. -/
def firstWorker : Process := ⟨.worker 0, .start, 0, []⟩

/-- The options for so many workers. -/
def monitored (workers : Str) : DaemonOptions := ⟨"false".toList, "true".toList, workers⟩

variable {workers : Str} {ok : Processes → StartupEvent → Prop}

/-- Process 1 is alone. -/
theorem reach_alone_go {p : Process} (p' : Process)
    (h : (startupSystem (monitored workers)).Reach ok (Function.update (fun _ => none) 1 (some p)))
    (hok : ∀ s, ok s (.go 1)) (hgo : p.go (monitored workers) = some p') :
    (startupSystem (monitored workers)).Reach ok
      (Function.update (fun _ => none) 1 (some p')) := by
  have hstep := @StartupStep.go (monitored workers) (Function.update (fun _ => none) 1 (some p))
    1 p p' (Function.update_self ..) hgo
  rw [Function.update_idem] at hstep
  exact h.step (hok _) hstep

/-- The parent goes on. -/
theorem reach_parent_go {p q : Process} (p' : Process)
    (h : (startupSystem (monitored workers)).Reach ok (parentAndChild p q))
    (hok : ∀ s, ok s (.go 1)) (hgo : p.go (monitored workers) = some p') :
    (startupSystem (monitored workers)).Reach ok (parentAndChild p' q) := by
  have hstep := @StartupStep.go (monitored workers) (parentAndChild p q) 1 p p' rfl hgo
  rw [update_parentAndChild] at hstep
  exact h.step (hok _) hstep

/-- The parent fails. -/
theorem reach_parent_fail {p q : Process}
    (h : (startupSystem (monitored workers)).Reach ok (parentAndChild p q))
    (hok : ok (parentAndChild p q) (.critical 1)) (hfail : p.MayFail (monitored workers)) :
    (startupSystem (monitored workers)).Reach ok (parentAndChild p.fail q) := by
  have hstep := @StartupStep.critical (monitored workers) (parentAndChild p q) 1 p rfl hfail
  rw [update_parentAndChild] at hstep
  exact h.step hok hstep

/-- The start of every run that comes to the fork of a second worker. -/
theorem reach_firstRegistered (hcount : 0 < (monitored workers).workerCount)
    (hgo : ∀ s, ok s (.go 1)) (hfork : ∀ s, ok s (.fork 1 2)) :
    (startupSystem (monitored workers)).Reach ok
      (parentAndChild firstRegistered firstWorker) := by
  have hstart : (startupSystem (monitored workers)).Reach ok
      (Function.update (fun _ => none) 1 (some .start)) := System.Reach.init ⟨1, rfl⟩
  have hsocket := reach_alone_go (Process.start.goTo .socket) hstart hgo rfl
  have hloop := reach_alone_go (Process.start.goTo (.forking 0)) hsocket hgo rfl
  have hstep := @StartupStep.fork (monitored workers)
    (Function.update (fun _ => none) 1 (some (Process.start.goTo (.forking 0)))) 1 2
    (Process.start.goTo (.forking 0)) ⟨.registering 2 0, .start, -1, [2]⟩ firstWorker
    (Function.update_self ..) rfl (if_pos hcount)
  rw [Function.update_idem] at hstep
  have hforked : (startupSystem (monitored workers)).Reach ok
      (parentAndChild ⟨.registering 2 0, .start, -1, [2]⟩ firstWorker) :=
    hloop.step (hfork _) hstep
  exact reach_parent_go _ hforked hgo rfl

end

/-- The pid file cannot be written: one worker has been forked, and is signalled. -/
theorem startup_one_worker :
    Everywhere Process.Answered
      (parentAndChild
        (Process.fail
          ⟨.monitorInit, { firstRegistered.monitor with i_am_monitor := true }, -1, [2]⟩)
        firstWorker) := by
  apply (startup_orphans (monitored ['1'])).1
  have hloop : (startupSystem (monitored ['1'])).Reach (fun s e => e.Harmless s)
      (parentAndChild firstRegistered firstWorker) :=
    reach_firstRegistered (by decide) (fun _ => trivial) fun _ => trivial
  have hclosing := reach_parent_go (firstRegistered.goTo .closing) hloop
    (fun _ => trivial) (by decide)
  have hinit := reach_parent_go _ hclosing (fun _ => trivial) rfl
  refine reach_parent_fail hinit ?_ trivial
  rintro p i hp hphase
  obtain rfl := Option.some_inj.mp hp
  simp at hphase

/-- The second fork of two fails, and the first worker is left alone. -/
theorem not_startup_orphans :
    ¬ ∀ (o : DaemonOptions) (s : Processes), (startupSystem o).Reachable s →
        Everywhere Process.Answered s := by
  intro h
  have hloop : (startupSystem (monitored ['2'])).Reachable
      (parentAndChild firstRegistered firstWorker) :=
    reach_firstRegistered (by decide) (fun _ => trivial) fun _ => trivial
  have hfailed := reach_parent_fail hloop trivial (show 1 < _ by decide)
  have hcalls := h _ _ hfailed 1 _ rfl _ rfl
  exact absurd hcalls (by decide)

end Trapd
