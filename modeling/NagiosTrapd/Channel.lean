/-
# Writing to the Nagios channel and to the trap log (`channel.c`, `traplog.c`)

Every thread of every worker process writes to the same two files.  `channel_write`
and `traplog_log` guard what they write by a record lock of the process
(`get_file_lock`) and the lock of the stream (`flockfile`), in this order.

**Main result:** `workers_exclusive_iff` — two threads come between their `flockfile`
and `funlockfile` only in a run in which one thread's `release_file_lock` takes the
record lock away from another thread of its process.  `workers_exclusive_iff_procs`
says which sets of workers have no such run.
-/
import NagiosTrapd.Util
import NagiosTrapd.FileLocks

namespace Trapd

open FileLocks

/-! ## The lines written to the channel -/

/-- A string, as the C library's `%s` prints it. -/
def printed (s : Option Str) : Str := s.getD "(null)".toList

/-- The format shared by `channel_process_host_check_result` and
`channel_process_svc_check_result`. -/
def checkResult (timestamp : ℕ) (command : Str) (names : List (Option Str)) (return_code : ℤ)
    (plugin_output perfdata : Option Str) : Str :=
  '[' :: decimal timestamp ++ "] ".toList ++ command
    ++ names.flatMap (fun name => ';' :: printed name)
    ++ ';' :: decimal return_code ++ ';' :: printed plugin_output
    ++ if isEmpty perfdata then [] else " | ".toList ++ printed perfdata

/-- `channel_process_host_check_result`: the line it writes. -/
def channelProcessHostCheckResult (timestamp : ℕ) (host_name : Option Str) (return_code : ℤ)
    (plugin_output perfdata : Option Str) : Str :=
  checkResult timestamp "PROCESS_HOST_CHECK_RESULT".toList [host_name] return_code
    plugin_output perfdata ++ ['\n']

/-- `channel_process_svc_check_result`: the line it writes. -/
def channelProcessSvcCheckResult (timestamp : ℕ) (host_name svc_desc : Option Str)
    (return_code : ℤ) (plugin_output perfdata : Option Str) : Str :=
  checkResult timestamp "PROCESS_SERVICE_CHECK_RESULT".toList [host_name, svc_desc] return_code
    plugin_output perfdata ++ ['\n']

/-! ## Locking -/

/-- The files the workers share. -/
inductive LockedFile
  | channel | trapLog
  deriving DecidableEq

/-- `get_file_lock`: `fcntl` with `F_SETLKW` and `F_WRLCK` on the whole file. -/
def getFileLock (f : LockedFile) : Op LockedFile Str := .lockRecord f

/-- `release_file_lock`: the same with `F_UNLCK`. -/
def releaseFileLock (f : LockedFile) : Op LockedFile Str := .unlockRecord f

/-- `flockfile` on the stream of a file. -/
def flockfile (f : LockedFile) : Op LockedFile Str := .lockStream f

/-- `funlockfile`. -/
def funlockfile (f : LockedFile) : Op LockedFile Str := .unlockStream f

/-- `channel_write`: what it does with the channel. -/
def channelWrite (channel_is_daemon : Bool) (timestamp : ℕ) (host_name svc_desc : Option Str)
    (return_code : ℤ) (plugin_output perfdata : Option Str) (is_service : Bool) :
    List (Op LockedFile Str) :=
  if isEmpty host_name then []
  else if is_service && isEmpty svc_desc then []
  else
    (if channel_is_daemon then [getFileLock .channel, flockfile .channel] else [])
      ++ [.write .channel (if is_service then
            channelProcessSvcCheckResult timestamp host_name svc_desc return_code
              plugin_output perfdata
          else channelProcessHostCheckResult timestamp host_name return_code
            plugin_output perfdata)]
      ++ if channel_is_daemon then [funlockfile .channel, releaseFileLock .channel] else []

/-- `traplog_log`: what it does with the trap log; `buffer` is the serialized trap. -/
def traplogLog (buffer : Str) : List (Op LockedFile Str) :=
  [getFileLock .trapLog, flockfile .trapLog, .write .trapLog (buffer ++ ['\n']),
    funlockfile .trapLog, releaseFileLock .trapLog]

/-- What a worker thread calls. -/
inductive WorkerCall
  | channelWrite (timestamp : ℕ) (host_name svc_desc : Option Str) (return_code : ℤ)
      (plugin_output perfdata : Option Str) (is_service : Bool)
  | traplogLog (buffer : Str)

/-- The operations of a call; workers run as a daemon. -/
def WorkerCall.ops : WorkerCall → List (Op LockedFile Str)
  | .channelWrite timestamp host_name svc_desc return_code plugin_output perfdata is_service =>
      Trapd.channelWrite true timestamp host_name svc_desc return_code plugin_output perfdata
        is_service
  | .traplogLog buffer => Trapd.traplogLog buffer

/-- The calls of worker threads. -/
def workerCalls : Set (List (Op LockedFile Str)) := Set.range WorkerCall.ops

/-- **Every call is a guarded section**, or returns early. -/
theorem workerCalls_guarded : Guarded workerCalls := by
  rintro _ ⟨call, rfl⟩
  cases call with
  | channelWrite timestamp host_name svc_desc return_code plugin_output perfdata is_service =>
      simp only [WorkerCall.ops, channelWrite]
      split_ifs
      · exact .inl rfl
      · exact .inl rfl
      · exact .inr ⟨.channel, _, rfl⟩
      · exact .inr ⟨.channel, _, rfl⟩
  | traplogLog buffer => exact .inr ⟨.trapLog, _, rfl⟩

/-- Both files are written to. -/
theorem exists_guarded_mem_workerCalls (f : LockedFile) :
    ∃ line, guarded f line ∈ workerCalls := by
  cases f with
  | channel => exact ⟨_, .channelWrite 0 (some ['h']) none 0 none none false, rfl⟩
  | trapLog => exact ⟨_, .traplogLog [], rfl⟩

/-! ## Exclusion of the writers -/

section Workers

variable {Thread Proc : Type*} [DecidableEq Thread] [DecidableEq Proc]

/-- The states of a set of workers, `proc` giving the process of each thread. -/
def WorkersReach (proc : Thread → Proc) (s : State Thread Proc LockedFile Str) : Prop :=
  Reachable proc workerCalls (fun _ _ => True) s

/-- The states reached when no `release_file_lock` takes the record lock of a file away
from another thread of the process, between its own `get_file_lock` and `funlockfile`,
where there is a second process to get it. -/
def WorkersReachKeeping (proc : Thread → Proc) (f : LockedFile)
    (s : State Thread Proc LockedFile Str) : Prop :=
  Reachable proc workerCalls (fun s t => ¬ s.Drops proc f t) s

/-- **When the writers of a file exclude each other.**  In every run whose steps take the
record lock away from no thread, at most one thread is between its `flockfile` and its
`funlockfile`; and this is so in every run exactly when there are no other runs. -/
theorem workers_exclusive_iff (proc : Thread → Proc) (f : LockedFile) :
    (∀ s, WorkersReachKeeping proc f s → s.Exclusive f) ∧
      ((∀ s, WorkersReach proc s → s.Exclusive f) ↔
        ∀ s t, WorkersReach proc s → ¬ s.Drops proc f t) := by
  obtain ⟨line, hline⟩ := exists_guarded_mem_workerCalls f
  constructor
  · intro s hs
    exact exclusive_of_not_drops workerCalls_guarded hs
  · exact exclusive_iff workerCalls_guarded hline

/-- The writers exclude each other in every run exactly when each worker has one thread,
or there is one worker. -/
theorem workers_exclusive_iff_procs (proc : Thread → Proc) (f : LockedFile) :
    (∀ s, WorkersReach proc s → s.Exclusive f) ↔
      Function.Injective proc ∨ ∀ t u, proc t = proc u := by
  obtain ⟨line, hline⟩ := exists_guarded_mem_workerCalls f
  exact exclusive_iff_procs workerCalls_guarded hline

end Workers

/-- Three threads, the first two in one process. -/
def twoAndOne : Fin 3 → Bool := ![true, true, false]

/-- With two threads in one worker and one in another, the channel is written to by two
threads at once. -/
theorem not_workers_exclusive :
    ¬ ∀ s, WorkersReach twoAndOne s → s.Exclusive .channel := by
  obtain ⟨line, hline⟩ := exists_guarded_mem_workerCalls .channel
  have hsame : twoAndOne 0 = twoAndOne 1 := rfl
  have hother : twoAndOne 2 ≠ twoAndOne 0 := by decide
  obtain ⟨s, hs, hnot⟩ := exists_not_exclusive hline (by decide) hsame hother
  intro hexclusive
  exact hnot (hexclusive s hs)

end Trapd
