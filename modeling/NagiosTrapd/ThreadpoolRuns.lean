/-
# Runs of a thread pool (`threadpool.c`)

Any number of workers and of callers, in any order of their steps.

**Main results:** `tasks_executed_in_order`: the tasks are taken in the order in which they have
been queued, and each worker calls the routine of every task that it takes once.
`task_structures_kept`: every task structure is in one place at a time, and none gets lost.
`pool_quiescent`: when no thread can go on, all calls have returned and all tasks have been
executed.  `stop_takes_one`: when the pool is told to stop, at most one more task is taken, and
none once all threads have been joined.
-/
import NagiosTrapd.ThreadpoolOutline

namespace Trapd

open Transition Interleaving

variable {n : ℕ} {ι R D : Type}

/-- A pool and its threads. -/
abbrev PoolState (n : ℕ) (ι R D : Type) : Type :=
  Threadpool n ι R D × ∀ th : PoolThread n ι, PoolLocal R D th

namespace PoolState

def worker (s : PoolState n ι R D) (i : Fin n) : PoolWorker R D := s.2 (.worker i)

def caller (s : PoolState n ι R D) (a : ι) : PoolCaller R D := s.2 (.caller a)

def stopper (s : PoolState n ι R D) : StopperPc := s.2 .stopper

end PoolState

variable [DecidableEq ι]

/-- The pool at work. -/
def poolSystem (n : ℕ) (ι R D : Type) [DecidableEq ι] :
    System (PoolState n ι R D) (PoolThread n ι × PoolAction R D) :=
  (poolProgram n ι R D).system

/-- The callers ask for tasks with a routine, as `worker.c` does. -/
def AsksForRoutine (_ : PoolState n ι R D) (a : PoolThread n ι × PoolAction R D) : Prop :=
  a.2.Asks fun task => task.isCalled = true

/-- What holds of a pool and its threads. -/
abbrev PoolHolds (Q : ThreadpoolTask R D → Prop) (s : PoolState n ι R D) : Prop :=
  Holds (PoolInv Q) (PoolThreadInv Q) PoolApart s

variable {s s' : PoolState n ι R D} {Q : ThreadpoolTask R D → Prop}

/-- Any task may be asked for. -/
theorem PoolAction.asks_true (action : PoolAction R D) : action.Asks fun _ => True := by
  cases action <;> trivial

/-- The invariant holds in every run. -/
theorem pool_holds (h : (poolSystem n ι R D).Reachable s) : PoolHolds (fun _ => True) s :=
  (poolOutline n ι R D fun _ => True).reach (h.mono fun _ a _ => a.2.asks_true)

/-- So it does where only routines are asked for. -/
theorem pool_holds_routine (h : (poolSystem n ι R D).Reach AsksForRoutine s) :
    PoolHolds (fun task => task.isCalled = true) s :=
  (poolOutline n ι R D fun task => task.isCalled = true).reach h

/-! ## Schedules -/

/-- The state after these steps; `none` where a thread cannot take its step. -/
def PoolState.schedule (s : PoolState n ι R D) :
    List (PoolThread n ι × PoolAction R D) → Option (PoolState n ι R D)
  | [] => some s
  | a :: as =>
      (poolStep a.1 s.1 (s.2 a.1) a.2).bind fun (pool, x) =>
        PoolState.schedule (pool, Function.update s.2 a.1 x) as

/-- A schedule is a run. -/
theorem reach_of_schedule {sys : System (PoolState n ι R D) (PoolThread n ι × PoolAction R D)}
    {ok : PoolState n ι R D → PoolThread n ι × PoolAction R D → Prop}
    (hsys : sys.step = (poolSystem n ι R D).step) (as : List (PoolThread n ι × PoolAction R D)) :
    ∀ {s t : PoolState n ι R D}, sys.Reach ok s → (∀ a ∈ as, ∀ s, ok s a) →
      s.schedule as = some t → sys.Reach ok t := by
  induction as with
  | nil =>
      intro s t hs _ hrun
      cases hrun
      exact hs
  | cons a as ih =>
      intro s t hs hok hrun
      obtain ⟨⟨pool, x⟩, hstep, hrun⟩ := Option.bind_eq_some_iff.mp hrun
      have hnext : sys.step s a (pool, Function.update s.2 a.1 x) := by
        rw [hsys]
        exact ⟨x, hstep, rfl⟩
      exact ih (.step hs (hok a (by simp) s) hnext) (fun b hb => hok b (by simp [hb])) hrun

/-- A schedule is a run. -/
theorem goingOn_of_schedule {s t : PoolState n ι R D}
    (as : List (PoolThread n ι × PoolAction R D)) (hrun : s.schedule as = some t) :
    ((poolSystem n ι R D).goingOn s).Reachable t := by
  have hstart : ((poolSystem n ι R D).goingOn s).Reachable s := .init rfl
  refine reach_of_schedule ?_ as hstart (fun _ _ _ => trivial) hrun
  rfl

/-- The start of a pool. -/
theorem reach_start (n : ℕ) (ι R D : Type) [DecidableEq ι]
    (ok : PoolState n ι R D → PoolThread n ι × PoolAction R D → Prop) :
    ∃ queue : ThreadpoolQueue ℕ, queue.Has (List.range THREAD_POOL_QUEUE_SIZE) ∧
      (poolSystem n ι R D).Reach ok (.fresh n ι R D queue, PoolLocal.start) := by
  obtain ⟨queue, hqueue, hinit⟩ := threadpoolInit_eq n ι R D
  exact ⟨queue, hqueue, .init ⟨hinit, rfl⟩⟩

section Steps

variable {pool : Threadpool n ι R D} {c : AddCall R D} {tasks : List (ThreadpoolTask R D)}

/-- A free structure is there. -/
theorem addTask_test (a : ι) (hempty : threadpoolQueueIsEmpty pool.free_tasks_queue = false) :
    pool.addTask a ⟨.test c, tasks⟩ = some (pool, ⟨.dequeue c, tasks⟩) := by
  simp [Threadpool.addTask, hempty, PoolCaller.goTo]

/-- It is taken. -/
theorem addTask_dequeue (a : ι) {task : Option ℕ} {queue : ThreadpoolQueue ℕ}
    (hdequeue : threadpoolQueueDequeue pool.free_tasks_queue = (task, queue)) :
    pool.addTask a ⟨.dequeue c, tasks⟩
      = some ({ pool with free_tasks_queue := queue }, ⟨.unlock c task, tasks⟩) := by
  simp [Threadpool.addTask, Threadpool.dequeueFree, hdequeue, PoolCaller.goTo]

/-- A worker gives it back. -/
theorem workerThrRoutine_enqueue (i : Fin n) {task : ℕ} {queue : ThreadpoolQueue ℕ}
    (henqueue : threadpoolQueueEnqueue pool.free_tasks_queue task = (0, queue))
    (hsize : threadpoolQueueGetsize queue ≠ 1) :
    workerThrRoutine i pool ⟨.enqueue task, tasks⟩
      = some ({ pool with free_tasks_queue := queue }, ⟨.unlockFree 0, tasks⟩) := by
  simp [workerThrRoutine, Threadpool.enqueueFree, henqueue, hsize, PoolWorker.goTo]

end Steps

/-- A call with a routine. -/
def oneCall : AddCall Unit Unit := ⟨some (), some (), true⟩

/-- One caller and one worker: the task of a call is queued, and executed by the worker, which
then waits for the next one. -/
theorem reach_oneCall : ∃ s : PoolState 1 Unit Unit Unit,
    (poolSystem 1 Unit Unit Unit).Reach AsksForRoutine s ∧
      s.caller () = ⟨.idle (some (oneCall, 0)), [oneCall.task]⟩ ∧
      s.worker 0 = ⟨.wait, [oneCall.task]⟩ ∧ s.stopper = .idle ∧
      s.1.cond (.worker 0) = true ∧ s.1.stop_flag = false := by
  obtain ⟨queue, hqueue, h⟩ := reach_start 1 Unit Unit Unit AsksForRoutine
  have hempty : threadpoolQueueIsEmpty queue = false := by
    simp [threadpoolQueueIsEmpty, hqueue.num_of_cells, THREAD_POOL_QUEUE_SIZE]
  rw [THREAD_POOL_QUEUE_SIZE, List.range_succ_eq_map] at hqueue
  obtain ⟨queue₁, hdequeue, hqueue₁⟩ := hqueue.dequeue
  obtain ⟨queue₂, henqueue, hqueue₂⟩ := hqueue₁.enqueue (by simp [THREAD_POOL_QUEUE_SIZE]) 0
  have hsize : threadpoolQueueGetsize queue₂ ≠ 1 := by
    simp [threadpoolQueueGetsize, hqueue₂.num_of_cells]
  have hgo : ∀ {s t : PoolState 1 Unit Unit Unit} (th : PoolThread 1 Unit) (k : ℕ),
      (poolSystem 1 Unit Unit Unit).Reach AsksForRoutine s →
      s.schedule (List.replicate k (th, .go)) = some t →
      (poolSystem 1 Unit Unit Unit).Reach AsksForRoutine t := fun th k hs hrun =>
    reach_of_schedule rfl _ hs (fun a ha _ => by rw [List.eq_of_mem_replicate ha]; trivial) hrun
  have hone : ∀ {s : PoolState 1 Unit Unit Unit} (a : PoolThread 1 Unit × PoolAction Unit Unit)
      {pool : Threadpool 1 Unit Unit Unit} {x : PoolLocal Unit Unit a.1}, AsksForRoutine s a →
      (poolSystem 1 Unit Unit Unit).Reach AsksForRoutine s →
      poolStep a.1 s.1 (s.2 a.1) a.2 = some (pool, x) →
      (poolSystem 1 Unit Unit Unit).Reach AsksForRoutine (pool, Function.update s.2 a.1 x) :=
    fun _ _ _ hok hs hstep => .step hs hok ⟨_, hstep, rfl⟩
  -- the caller takes a free task structure
  have h := hone (.caller (), .call oneCall) rfl h rfl
  have h := hgo (.caller ()) 1 h rfl
  have h := hone (.caller (), .go) trivial h (addTask_test () hempty)
  have h := hone (.caller (), .go) trivial h (addTask_dequeue () hdequeue)
  have h := hgo (.caller ()) 5 h rfl
  have h := hgo (.worker 0) 9 h rfl
  have h := hone (.worker 0, .go) trivial h
    (workerThrRoutine_enqueue 0 henqueue hsize)
  have h := hgo (.worker 0) 4 h rfl
  exact ⟨_, h, rfl, rfl, rfl, rfl, rfl⟩

/-! ## Tasks -/

/-- **First in, first out, and once**: the tasks taken so far, followed by those that are queued,
are the tasks queued so far; a caller has queued those of its calls that have returned 0, and the
one it is about to return from; a worker has called the routine of each task that it has taken,
but for one that it still has in its hand. -/
theorem tasks_executed_in_order (h : (poolSystem n ι R D).Reachable s) :
    s.1.added.map Prod.snd = s.1.taken.map Prod.snd ++ s.1.queued.map s.1.tasks ∧
      (∀ a, s.1.addedBy a = (s.caller a).accepted ++ (s.caller a).pc.hand) ∧
      ∀ i, (s.1.takenBy i).filter ThreadpoolTask.isCalled
        = (s.worker i).executed
          ++ ((s.worker i).pc.hand s.1.tasks).filter ThreadpoolTask.isCalled := by
  have hholds := pool_holds h
  refine ⟨hholds.shared.fifo, fun a => ?_, fun i => ?_⟩
  · exact (hholds.thread (.caller a)).role.accepted
  · exact (hholds.thread (.worker i)).role.executed

/-- One call. -/
theorem tasks_executed_in_order_oneCall : ∃ s : PoolState 1 Unit Unit Unit,
    (poolSystem 1 Unit Unit Unit).Reachable s ∧ (s.worker 0).executed = [oneCall.task] ∧
      s.1.added.map Prod.snd = s.1.taken.map Prod.snd ++ s.1.queued.map s.1.tasks ∧
      s.1.addedBy () = [oneCall.task] ∧
      (s.1.takenBy 0).filter ThreadpoolTask.isCalled = [oneCall.task] := by
  obtain ⟨s, h, hcaller, hworker, -, -⟩ := reach_oneCall
  have hreach : (poolSystem 1 Unit Unit Unit).Reachable s := h.mono fun _ _ _ => trivial
  obtain ⟨hfifo, hadded, htaken⟩ := tasks_executed_in_order hreach
  refine ⟨s, hreach, by rw [hworker], hfifo, ?_, ?_⟩
  · rw [hadded (), hcaller]
    rfl
  · rw [htaken 0, hworker]
    rfl

/-- **What `threadpool_add_task` returns**: 0, or -2 where the caller does not want to wait. -/
theorem add_task_returns (h : (poolSystem n ι R D).Reachable s) {a : ι} {c : AddCall R D} {rc : ℤ}
    (hidle : (s.caller a).pc = .idle (some (c, rc))) :
    rc = 0 ∨ rc = -2 ∧ c.blocking = false := by
  have hhere : (s.caller a).pc.At _ s.1 := ((pool_holds h).thread (.caller a)).role.here
  rw [hidle] at hhere
  exact hhere

/-- One call. -/
theorem add_task_returns_oneCall : ∃ s : PoolState 1 Unit Unit Unit,
    (s.caller ()).pc = .idle (some (oneCall, 0)) ∧
      ((0 : ℤ) = 0 ∨ (0 : ℤ) = -2 ∧ oneCall.blocking = false) := by
  obtain ⟨s, h, hcaller, -, -, -⟩ := reach_oneCall
  have hidle : (s.caller ()).pc = .idle (some (oneCall, 0)) := by rw [hcaller]
  exact ⟨s, hidle, add_task_returns (h.mono fun _ _ _ => trivial) hidle⟩

/-! ## Task structures -/

/-- Where a task structure can be. -/
inductive TaskPlace (n : ℕ) (ι : Type)
  | free
  | queued
  | held (th : PoolThread n ι)
  deriving DecidableEq

/-- The task structure `t` is at that place. -/
def PoolState.TaskAt (s : PoolState n ι R D) (t : ℕ) : TaskPlace n ι → Prop
  | .free => t ∈ s.1.free
  | .queued => t ∈ s.1.queued
  | .held th => (s.2 th).task = some t

/-- A task structure is not at two places. -/
theorem taskAt_unique (h : PoolHolds Q s) {t : ℕ} {p q : TaskPlace n ι} (hp : s.TaskAt t p)
    (hq : s.TaskAt t q) : p = q := by
  have hapart : ∀ t, t ∈ s.1.free → t ∉ s.1.queued := fun t hf hqd =>
    (List.nodup_append.mp h.shared.nodup).2.2 t hf t hqd rfl
  have hfree : ∀ th, (s.2 th).task = some t → t ∉ s.1.free := fun th ht =>
    ((h.thread th).place.own t ht).2.1
  have hqueued : ∀ th, (s.2 th).task = some t → t ∉ s.1.queued := fun th ht =>
    ((h.thread th).place.own t ht).2.2
  cases p with
  | free =>
      cases q with
      | free => rfl
      | queued => exact absurd hq (hapart t hp)
      | held th => exact absurd hp (hfree th hq)
  | queued =>
      cases q with
      | free => exact absurd hp (hapart t hq)
      | queued => rfl
      | held th => exact absurd hp (hqueued th hq)
  | held th =>
      cases q with
      | free => exact absurd hq (hfree th hp)
      | queued => exact absurd hq (hqueued th hp)
      | held th' =>
          by_cases hth : th = th'
          · rw [hth]
          · exact absurd hq (h.pair th th' hth t hp)

/-- Every task structure is at some place. -/
def PoolState.Complete (s : PoolState n ι R D) : Prop :=
  ∀ t < THREAD_POOL_QUEUE_SIZE, ∃ p, s.TaskAt t p

/-- No step loses a task structure. -/
theorem complete_step {a : PoolThread n ι × PoolAction R D}
    (h : PoolHolds (fun task => task.isCalled = true) s) (hc : s.Complete)
    (hask : AsksForRoutine s a) (hstep : (poolSystem n ι R D).step s a s') : s'.Complete := by
  obtain ⟨x, hx, hupd⟩ := hstep
  obtain ⟨hmoves, -⟩ := poolStep_keeps h.shared (h.thread a.1) hask hx
  have hself : s'.2 a.1 = x := by rw [hupd, Function.update_self]
  have hkept : ∀ t, t ∈ s.1.free ∨ t ∈ s.1.queued ∨ (s.2 a.1).task = some t →
      ∃ p, s'.TaskAt t p := fun t ht => by
    rcases hmoves.kept (fun _ hQ => hQ) t ht with hf | hq | hown
    · exact ⟨.free, hf⟩
    · exact ⟨.queued, hq⟩
    · exact ⟨.held a.1, by rw [PoolState.TaskAt, hself]; exact hown⟩
  intro t ht
  obtain ⟨p, hp⟩ := hc t ht
  cases p with
  | free => exact hkept t (.inl hp)
  | queued => exact hkept t (.inr (.inl hp))
  | held th =>
      by_cases hth : th = a.1
      · exact hkept t (.inr (.inr (hth ▸ hp)))
      · refine ⟨.held th, ?_⟩
        rw [PoolState.TaskAt, hupd, Function.update_of_ne hth]
        exact hp

/-- In a run that only asks for routines nothing is lost. -/
theorem pool_complete (h : (poolSystem n ι R D).Reach AsksForRoutine s) :
    PoolHolds (fun task => task.isCalled = true) s ∧ s.Complete := by
  refine h.invariant (I := fun s => PoolHolds (fun task => task.isCalled = true) s ∧ s.Complete)
    (fun s hinit => ?_) (fun s a s' hI hask hstep => ?_)
  · obtain ⟨hfree, hthreads⟩ := hinit
    obtain ⟨-, -, hall, -⟩ := poolInv_init (Q := fun _ => True) hfree
    refine ⟨pool_holds_routine (.init ⟨hfree, hthreads⟩), fun t ht => ⟨.free, ?_⟩⟩
    rw [PoolState.TaskAt, hall]
    exact List.mem_range.mpr ht
  · exact ⟨(poolOutline n ι R D _).step hI.1 hask hstep, complete_step hI.1 hI.2 hask hstep⟩

/-- **No task structure is lost or used twice**: each is free, queued, or with one thread. -/
theorem task_structures_kept (h : (poolSystem n ι R D).Reach AsksForRoutine s) :
    s.1.free.Nodup ∧ s.1.queued.Nodup ∧ ∀ t < THREAD_POOL_QUEUE_SIZE, ∃! p, s.TaskAt t p := by
  obtain ⟨hholds, hcomplete⟩ := pool_complete h
  obtain ⟨hfree, hqueued, -⟩ := List.nodup_append.mp hholds.shared.nodup
  refine ⟨hfree, hqueued, fun t ht => ?_⟩
  obtain ⟨p, hp⟩ := hcomplete t ht
  exact ⟨p, hp, fun q hq => taskAt_unique hholds hq hp⟩

/-- One call. -/
theorem task_structures_kept_oneCall : ∃ s : PoolState 1 Unit Unit Unit,
    s.worker 0 = ⟨.wait, [oneCall.task]⟩ ∧ ∃! p, s.TaskAt 0 p := by
  obtain ⟨s, h, -, hworker, -, -⟩ := reach_oneCall
  exact ⟨s, hworker, (task_structures_kept h).2.2 0 queue_size_pos⟩

/-! ## Quiet states -/

/-- The thread can take a step, without being called. -/
def PoolState.CanGo (s : PoolState n ι R D) (th : PoolThread n ι) : Prop :=
  (poolStep th s.1 (s.2 th) .go).isSome = true

omit [DecidableEq ι] in

/-- A free mutex can be locked. -/
theorem lockMutex_isSome {pool : Threadpool n ι R D} (hm : pool.mutex = none)
    (th : PoolThread n ι) : (pool.lockMutex th).isSome = true := by
  simp [Threadpool.lockMutex, hm]

omit [DecidableEq ι] in

/-- So can that of the free structures. -/
theorem lockFree_isSome {pool : Threadpool n ι R D} (hm : pool.free_tasks_mutex = none)
    (th : PoolThread n ι) : (pool.lockFree th).isSome = true := by
  simp [Threadpool.lockFree, hm]

/-- **A critical section does not block**: who has a mutex can go on. -/
theorem holder_canGo (h : PoolHolds Q s) {th : PoolThread n ι}
    (hm : s.1.mutex = some th ∨ s.1.free_tasks_mutex = some th) : s.CanGo th := by
  have hplace := (h.thread th).place
  have hin : (s.2 th).inMutex = true ∨ (s.2 th).inFree = true :=
    hm.imp hplace.mutex.mp hplace.free_tasks_mutex.mp
  -- the steps that can wait, for a mutex, a condition or a thread, stand outside the mutexes
  cases th with
  | worker i =>
      have hin : (s.worker i).pc.inMutex = true ∨ (s.worker i).pc.inFree = true := hin
      have hgo : (workerThrRoutine i s.1 (s.worker i)).isSome = true := by
        cases hpc : (s.worker i).pc with
        | test =>
            simp only [workerThrRoutine, hpc]
            split_ifs <;> rfl
        | unlock task => cases task <;> simp [workerThrRoutine, hpc]
        | take => simp [workerThrRoutine, hpc]
        | dequeue => simp [workerThrRoutine, hpc]
        | enqueue task => simp [workerThrRoutine, hpc]
        | unlockFree rc => simp [workerThrRoutine, hpc]
        | _ => simp [hpc, WorkerPc.inMutex, WorkerPc.inFree] at hin
      exact hgo
  | caller a =>
      have hin : (s.caller a).pc.inMutex = true ∨ (s.caller a).pc.inFree = true := hin
      have hgo : (s.1.addTask a (s.caller a)).isSome = true := by
        cases hpc : (s.caller a).pc with
        | test c =>
            simp only [Threadpool.addTask, hpc]
            split_ifs <;> rfl
        | unlock c task => cases task <;> simp [Threadpool.addTask, hpc]
        | refuse c => simp [Threadpool.addTask, hpc]
        | dequeue c => simp [Threadpool.addTask, hpc]
        | enqueue c task => simp [Threadpool.addTask, hpc]
        | unlockTasks c rc => simp [Threadpool.addTask, hpc]
        | _ => simp [hpc, CallerPc.inMutex, CallerPc.inFree] at hin
      exact hgo
  | stopper =>
      have hin : StopperPc.inMutex s.stopper = true := hin.resolve_right Bool.false_ne_true
      have hgo : (stopWorkerThrRoutinesCb s.1 s.stopper).isSome = true := by
        cases hpc : s.stopper with
        | broadcast => rfl
        | unlock => rfl
        | _ => simp [hpc, StopperPc.inMutex] at hin
      exact hgo

/-- A worker that cannot go on has ended, or waits for a task. -/
theorem worker_quiet {i : Fin n} (hmutex : s.1.mutex = none) (hfree : s.1.free_tasks_mutex = none)
    (hquiet : ¬ s.CanGo (.worker i)) :
    (s.worker i).pc = .exited ∨ (s.worker i).pc = .wait ∧ s.1.cond (.worker i) = true := by
  have hgo : ¬ (workerThrRoutine i s.1 (s.worker i)).isSome = true := hquiet
  cases hpc : (s.worker i).pc with
  | exited => exact .inl rfl
  | wait =>
      cases hcond : s.1.cond (.worker i) with
      | true => exact .inr ⟨rfl, rfl⟩
      | false => simp [workerThrRoutine, hpc, hcond, lockMutex_isSome hmutex] at hgo
  | lock => simp [workerThrRoutine, hpc, lockMutex_isSome hmutex] at hgo
  | release task => simp [workerThrRoutine, hpc, lockFree_isSome hfree] at hgo
  | unlock task => cases task <;> simp [workerThrRoutine, hpc] at hgo
  | test =>
      refine absurd ?_ hgo
      simp only [workerThrRoutine, hpc]
      split_ifs <;> rfl
  | execute task =>
      refine absurd ?_ hgo
      simp only [workerThrRoutine, hpc]
      split_ifs <;> rfl
  | _ => simp [workerThrRoutine, hpc] at hgo

/-- A caller that cannot go on is in no call, or waits for a task structure. -/
theorem caller_quiet {a : ι} (hmutex : s.1.mutex = none) (hfree : s.1.free_tasks_mutex = none)
    (hquiet : ¬ s.CanGo (.caller a)) :
    (∃ last, (s.caller a).pc = .idle last) ∨
      (∃ c, (s.caller a).pc = .wait c) ∧ s.1.free_tasks_cond (.caller a) = true := by
  have hgo : ¬ (s.1.addTask a (s.caller a)).isSome = true := hquiet
  cases hpc : (s.caller a).pc with
  | idle last => exact .inl ⟨last, rfl⟩
  | wait c =>
      cases hcond : s.1.free_tasks_cond (.caller a) with
      | true => exact .inr ⟨⟨c, rfl⟩, rfl⟩
      | false => simp [Threadpool.addTask, hpc, hcond, lockFree_isSome hfree] at hgo
  | lock c => simp [Threadpool.addTask, hpc, lockFree_isSome hfree] at hgo
  | lockTasks c task => simp [Threadpool.addTask, hpc, lockMutex_isSome hmutex] at hgo
  | unlock c task => cases task <;> simp [Threadpool.addTask, hpc] at hgo
  | test c =>
      refine absurd ?_ hgo
      simp only [Threadpool.addTask, hpc]
      split_ifs <;> rfl
  | _ => simp [Threadpool.addTask, hpc] at hgo

/-- In a quiet state nobody has a mutex. -/
theorem quiet_mutexes (h : PoolHolds Q s) (hquiet : ∀ th, ¬ s.CanGo th) :
    s.1.mutex = none ∧ s.1.free_tasks_mutex = none :=
  ⟨Option.eq_none_iff_forall_ne_some.mpr fun th hm => hquiet th (holder_canGo h (.inl hm)),
    Option.eq_none_iff_forall_ne_some.mpr fun th hm => hquiet th (holder_canGo h (.inr hm))⟩

/-- **No thread waits in vain**: when no thread can go on, in a pool with workers that is not
told to stop, every call has returned, no task is queued, all task structures are free, and each
worker has called the routines of all the tasks that it has taken. -/
theorem pool_quiescent (h : (poolSystem n ι R D).Reach AsksForRoutine s) (hn : 0 < n)
    (hstop : s.1.stop_flag = false) (hquiet : ∀ th, ¬ s.CanGo th) :
    (∀ a, ∃ last, (s.caller a).pc = .idle last) ∧ s.1.queued = [] ∧
      (∀ t < THREAD_POOL_QUEUE_SIZE, t ∈ s.1.free) ∧
      s.1.added.map Prod.snd = s.1.taken.map Prod.snd ∧
      ∀ i, s.1.takenBy i = (s.worker i).executed := by
  obtain ⟨hholds, hcomplete⟩ := pool_complete h
  obtain ⟨hmutex, hfreemutex⟩ := quiet_mutexes hholds hquiet
  have hwait : ∀ i, (s.worker i).pc = .wait ∧ s.1.cond (.worker i) = true := fun i => by
    refine (worker_quiet hmutex hfreemutex (hquiet _)).resolve_left fun hpc => ?_
    have hhere : (s.worker i).pc.At _ s.1 := (hholds.thread (.worker i)).role.here
    rw [hpc] at hhere
    exact Bool.false_ne_true (hstop.symm.trans hhere)
  have hqueued : s.1.queued = [] :=
    (hholds.thread (.worker ⟨0, hn⟩)).place.cond (hwait ⟨0, hn⟩).2
  -- nobody has a task structure, so that all are free
  have hheld : ∀ th, (s.2 th).task = none := fun th => by
    cases th with
    | worker i =>
        have htask : (s.worker i).pc.task = none := by rw [(hwait i).1]; rfl
        exact htask
    | caller a =>
        have htask : (s.caller a).pc.task = none := by
          rcases caller_quiet hmutex hfreemutex (hquiet (.caller a)) with ⟨last, hpc⟩ | ⟨⟨c, hpc⟩, -⟩
          · rw [hpc]; rfl
          · rw [hpc]; rfl
        exact htask
    | stopper => rfl
  have hfree : ∀ t < THREAD_POOL_QUEUE_SIZE, t ∈ s.1.free := fun t ht => by
    obtain ⟨p, hp⟩ := hcomplete t ht
    cases p with
    | free => exact hp
    | queued => rw [PoolState.TaskAt, hqueued] at hp; cases hp
    | held th => rw [PoolState.TaskAt, hheld th] at hp; cases hp
  refine ⟨fun a => ?_, hqueued, hfree, ?_, fun i => ?_⟩
  · refine (caller_quiet hmutex hfreemutex (hquiet _)).resolve_right fun hw => ?_
    have hnil := (hholds.thread (.caller a)).place.free_tasks_cond hw.2
    have hmem := hfree 0 queue_size_pos
    rw [hnil] at hmem
    cases hmem
  · rw [hholds.shared.fifo, hqueued, List.map_nil, List.append_nil]
  · have hexec := (hholds.thread (.worker i)).role.executed
    have hhand : (s.worker i).pc.hand s.1.tasks = [] := by rw [(hwait i).1]; rfl
    have hcalled : (s.1.takenBy i).filter ThreadpoolTask.isCalled = s.1.takenBy i := by
      refine List.filter_eq_self.mpr fun task htask => hholds.shared.sound_of_mem ?_
      obtain ⟨e, he, heq⟩ := List.mem_filterMap.mp htask
      split_ifs at heq
      cases heq
      exact List.mem_append_left _ (List.mem_map_of_mem he)
    exact hcalled.symm.trans (hexec.trans (by rw [← PoolState.worker, hhand]; simp))

/-- One call. -/
theorem pool_quiescent_oneCall : ∃ s : PoolState 1 Unit Unit Unit,
    s.worker 0 = ⟨.wait, [oneCall.task]⟩ ∧ s.1.queued = [] ∧
      s.1.takenBy 0 = (s.worker 0).executed := by
  obtain ⟨s, h, hcaller, hworker, hstopper, hcond, hstop⟩ := reach_oneCall
  have hquiet : ∀ th, ¬ s.CanGo th := fun th => by
    cases th with
    | worker i =>
        obtain rfl : i = 0 := Subsingleton.elim i 0
        show ¬ (workerThrRoutine 0 s.1 (s.worker 0)).isSome = true
        rw [hworker]
        simp [workerThrRoutine, hcond]
    | caller a =>
        show ¬ (s.1.addTask () (s.caller ())).isSome = true
        rw [hcaller]
        simp [Threadpool.addTask]
    | stopper =>
        show ¬ (stopWorkerThrRoutinesCb s.1 s.stopper).isSome = true
        rw [hstopper]
        simp [stopWorkerThrRoutinesCb]
  obtain ⟨-, hqueued, -, -, hexecuted⟩ := pool_quiescent h Nat.one_pos hstop hquiet
  exact ⟨s, hworker, hqueued, hexecuted 0⟩

/-! ## The stop -/

section Records

variable {pool pool' : Threadpool n ι R D}

omit [DecidableEq ι] in

/-- A lock leaves the flag and what was taken. -/
theorem lockMutex_records {th : PoolThread n ι} (h : pool.lockMutex th = some pool') :
    pool'.stop_flag = pool.stop_flag ∧ pool'.taken = pool.taken := by
  unfold Threadpool.lockMutex at h
  split_ifs at h
  cases h
  exact ⟨rfl, rfl⟩

omit [DecidableEq ι] in

/-- So does that of the free structures. -/
theorem lockFree_records {th : PoolThread n ι} (h : pool.lockFree th = some pool') :
    pool'.stop_flag = pool.stop_flag ∧ pool'.taken = pool.taken := by
  unfold Threadpool.lockFree at h
  split_ifs at h
  cases h
  exact ⟨rfl, rfl⟩

omit [DecidableEq ι] in

/-- So does a structure that is given back. -/
theorem enqueueFree_records (task : ℕ) :
    (pool.enqueueFree task).2.stop_flag = pool.stop_flag ∧
      (pool.enqueueFree task).2.taken = pool.taken := by
  simp only [Threadpool.enqueueFree]
  split_ifs <;> exact ⟨rfl, rfl⟩

omit [DecidableEq ι] in

/-- So does a task that is queued. -/
theorem enqueueTask_records (a : ι) (task : ℕ) :
    (pool.enqueueTask a task).2.stop_flag = pool.stop_flag ∧
      (pool.enqueueTask a task).2.taken = pool.taken := by
  simp only [Threadpool.enqueueTask]
  split_ifs <;> exact ⟨rfl, rfl⟩

/-- A worker takes a task in one place only, and does not get there once the flag is set. -/
theorem workerThrRoutine_records {i : Fin n} {w w' : PoolWorker R D}
    (hstep : workerThrRoutine i pool w = some (pool', w')) :
    pool'.stop_flag = pool.stop_flag ∧ (w.pc = .dequeue ∨ pool'.taken = pool.taken) ∧
      (w'.pc = .dequeue → pool.stop_flag = false) := by
  obtain ⟨pc, executed⟩ := w
  cases pc with
  | getTask =>
      cases hflag : pool.stop_flag <;>
        simp only [workerThrRoutine, hflag, Option.some.injEq, Prod.mk.injEq] at hstep <;>
        obtain ⟨rfl, rfl⟩ := hstep
      · exact ⟨hflag, .inr rfl, WorkerPc.noConfusion⟩
      · exact ⟨hflag, .inr rfl, WorkerPc.noConfusion⟩
  | lock =>
      simp only [workerThrRoutine, Option.map_eq_some_iff, Prod.mk.injEq] at hstep
      obtain ⟨_, hlock, rfl, rfl⟩ := hstep
      exact ⟨(lockMutex_records hlock).1, .inr (lockMutex_records hlock).2, WorkerPc.noConfusion⟩
  | test =>
      simp only [workerThrRoutine] at hstep
      split_ifs at hstep <;> cases hstep <;> exact ⟨rfl, .inr rfl, WorkerPc.noConfusion⟩
  | wait =>
      simp only [workerThrRoutine] at hstep
      split_ifs at hstep
      simp only [Option.map_eq_some_iff, Prod.mk.injEq] at hstep
      obtain ⟨_, hlock, rfl, rfl⟩ := hstep
      exact ⟨(lockMutex_records hlock).1, .inr (lockMutex_records hlock).2, WorkerPc.noConfusion⟩
  -- only here the routine goes on to take a task, and not with the flag set
  | take =>
      cases hflag : pool.stop_flag <;>
        simp only [workerThrRoutine, hflag, Option.some.injEq, Prod.mk.injEq] at hstep <;>
        obtain ⟨rfl, rfl⟩ := hstep
      · exact ⟨hflag, .inr rfl, fun _ => rfl⟩
      · exact ⟨hflag, .inr rfl, WorkerPc.noConfusion⟩
  | dequeue =>
      simp only [workerThrRoutine, Option.some.injEq, Prod.mk.injEq] at hstep
      obtain ⟨rfl, rfl⟩ := hstep
      exact ⟨rfl, .inl rfl, WorkerPc.noConfusion⟩
  | unlock task =>
      cases task <;> cases hstep <;> exact ⟨rfl, .inr rfl, WorkerPc.noConfusion⟩
  | execute task =>
      simp only [workerThrRoutine] at hstep
      split_ifs at hstep <;> cases hstep <;> exact ⟨rfl, .inr rfl, WorkerPc.noConfusion⟩
  | running task =>
      cases hstep
      exact ⟨rfl, .inr rfl, WorkerPc.noConfusion⟩
  | release task =>
      simp only [workerThrRoutine, Option.map_eq_some_iff, Prod.mk.injEq] at hstep
      obtain ⟨_, hlock, rfl, rfl⟩ := hstep
      exact ⟨(lockFree_records hlock).1, .inr (lockFree_records hlock).2, WorkerPc.noConfusion⟩
  | enqueue task =>
      simp only [workerThrRoutine, Option.some.injEq, Prod.mk.injEq] at hstep
      obtain ⟨rfl, rfl⟩ := hstep
      exact ⟨(enqueueFree_records task).1, .inr (enqueueFree_records task).2, WorkerPc.noConfusion⟩
  | unlockFree rc =>
      simp only [workerThrRoutine, Option.some.injEq, Prod.mk.injEq] at hstep
      obtain ⟨rfl, rfl⟩ := hstep
      refine ⟨rfl, .inr rfl, fun hpc => ?_⟩
      by_cases hrc : rc = 0 <;> simp [PoolWorker.goTo, hrc] at hpc
  | leave =>
      cases hstep
      exact ⟨rfl, .inr rfl, WorkerPc.noConfusion⟩
  | exited => cases hstep

/-- So does a caller. -/
theorem addTask_records {a : ι} {x x' : PoolCaller R D}
    (hstep : pool.addTask a x = some (pool', x')) :
    pool'.stop_flag = pool.stop_flag ∧ pool'.taken = pool.taken := by
  obtain ⟨pc, accepted⟩ := x
  cases pc with
  | idle last => cases hstep
  | lock c =>
      simp only [Threadpool.addTask, Option.map_eq_some_iff, Prod.mk.injEq] at hstep
      obtain ⟨_, hlock, rfl, rfl⟩ := hstep
      exact lockFree_records hlock
  | test c =>
      simp only [Threadpool.addTask] at hstep
      split_ifs at hstep <;> cases hstep <;> exact ⟨rfl, rfl⟩
  | wait c =>
      simp only [Threadpool.addTask] at hstep
      split_ifs at hstep
      simp only [Option.map_eq_some_iff, Prod.mk.injEq] at hstep
      obtain ⟨_, hlock, rfl, rfl⟩ := hstep
      exact lockFree_records hlock
  | unlock c task => cases task <;> cases hstep <;> exact ⟨rfl, rfl⟩
  | lockTasks c task =>
      simp only [Threadpool.addTask, Option.map_eq_some_iff, Prod.mk.injEq] at hstep
      obtain ⟨_, hlock, rfl, rfl⟩ := hstep
      exact lockMutex_records hlock
  | enqueue c task =>
      simp only [Threadpool.addTask, Option.some.injEq, Prod.mk.injEq] at hstep
      obtain ⟨rfl, rfl⟩ := hstep
      exact enqueueTask_records a task
  | _ =>
      cases hstep
      exact ⟨rfl, rfl⟩

omit [DecidableEq ι] in

/-- The call that stops the pool sets the flag only. -/
theorem stopWorkerThrRoutinesCb_records {pc pc' : StopperPc}
    (hstep : stopWorkerThrRoutinesCb pool pc = some (pool', pc')) :
    (pool.stop_flag = true → pool'.stop_flag = true) ∧ pool'.taken = pool.taken := by
  cases pc with
  | lock =>
      simp only [stopWorkerThrRoutinesCb, Option.map_eq_some_iff, Prod.mk.injEq] at hstep
      obtain ⟨_, hlock, rfl, rfl⟩ := hstep
      exact ⟨fun hs => (lockMutex_records hlock).1.trans hs, (lockMutex_records hlock).2⟩
  | join k =>
      simp only [stopWorkerThrRoutinesCb] at hstep
      split_ifs at hstep <;> cases hstep <;> exact ⟨id, rfl⟩
  | start =>
      cases hstep
      exact ⟨fun _ => rfl, rfl⟩
  | idle => cases hstep
  | stopped => cases hstep
  | _ =>
      cases hstep
      exact ⟨id, rfl⟩

/-- Calls and wake-ups take no task and move no worker. -/
theorem poolStep_records {th : PoolThread n ι} {x x' : PoolLocal R D th} {action : PoolAction R D}
    (haction : action ≠ .go) (hstep : poolStep th pool x action = some (pool', x')) :
    pool'.stop_flag = pool.stop_flag ∧ pool'.taken = pool.taken ∧
      ((∃ k, th = .worker k) → x' = x) := by
  -- the steps that are left are calls from outside and wake-ups
  cases th with
  | worker k =>
      cases action with
      | go => exact absurd rfl haction
      | call c => cases hstep
      | stop => cases hstep
      | wake =>
          cases hstep
          exact ⟨rfl, rfl, fun _ => rfl⟩
  | caller a =>
      cases action with
      | go => exact absurd rfl haction
      | call c =>
          obtain ⟨pc, accepted⟩ := x
          cases pc <;> cases hstep
          exact ⟨rfl, rfl, by simp⟩
      | stop => cases hstep
      | wake =>
          cases hstep
          exact ⟨rfl, rfl, fun _ => rfl⟩
  | stopper =>
      cases action with
      | go => exact absurd rfl haction
      | call c => cases hstep
      | stop =>
          cases x <;> cases hstep
          exact ⟨rfl, rfl, by simp⟩
      | wake =>
          cases hstep
          exact ⟨rfl, rfl, fun _ => rfl⟩

end Records

/-- A step changes the pool and the thread whose step it is. -/
theorem poolSystem_step {a : PoolThread n ι × PoolAction R D}
    (hstep : (poolSystem n ι R D).step s a s') :
    poolStep a.1 s.1 (s.2 a.1) a.2 = some (s'.1, s'.2 a.1) ∧ ∀ j, a.1 ≠ j → s'.2 j = s.2 j := by
  obtain ⟨x, hx, hupd⟩ := hstep
  refine ⟨?_, fun j hj => by rw [hupd, Function.update_of_ne (Ne.symm hj)]⟩
  rw [hupd, Function.update_self]
  exact hx

/-- Two workers are not in the critical section at a time. -/
theorem dequeue_unique (h : PoolHolds Q s) {k l : Fin n} (hk : (s.worker k).pc = .dequeue)
    (hl : (s.worker l).pc = .dequeue) : k = l := by
  have hmutex : ∀ i, (s.worker i).pc = .dequeue → s.1.mutex = some (.worker i) := fun i hi => by
    refine (h.thread (.worker i)).place.mutex.mpr ?_
    have hin : (s.worker i).pc.inMutex = true := by rw [hi]; rfl
    exact hin
  simpa using (hmutex k hk).symm.trans (hmutex l hl)

/-- What a step does to the tasks taken, once the pool is told to stop: nothing, unless it is the
step of a worker that has looked at the flag before; nobody is at that place any more then. -/
theorem stopping_step {a : PoolThread n ι × PoolAction R D} (h : PoolHolds Q s)
    (hstop : s.1.stop_flag = true) (hstep : (poolSystem n ι R D).step s a s') :
    s'.1.stop_flag = true ∧
      ((s'.1.taken = s.1.taken ∧ ∀ k, (s'.worker k).pc = .dequeue → (s.worker k).pc = .dequeue) ∨
        (∃ k, (s.worker k).pc = .dequeue) ∧ (∃ e, s'.1.taken = s.1.taken ++ [e]) ∧
          ∀ k, (s'.worker k).pc ≠ .dequeue) := by
  obtain ⟨hstep, hrest⟩ := poolSystem_step hstep
  obtain ⟨th, action⟩ := a
  have hworkers : (∀ k, th ≠ .worker k) → ∀ k, (s'.worker k).pc = .dequeue →
      (s.worker k).pc = .dequeue := fun hth k hk => by
    rwa [PoolState.worker, hrest _ (hth k)] at hk
  by_cases haction : action = .go
  · subst haction
    cases th with
    | worker k =>
        have hgo : workerThrRoutine k s.1 (s.worker k) = some (s'.1, s'.worker k) := hstep
        obtain ⟨hflag, htaken, hpc⟩ := workerThrRoutine_records hgo
        have hself : (s'.worker k).pc ≠ .dequeue := fun hk =>
          Bool.false_ne_true ((hpc hk).symm.trans hstop)
        refine ⟨hflag.trans hstop, ?_⟩
        -- a worker that had read the flag before it was set takes one more task
        by_cases hdeq : (s.worker k).pc = .dequeue
        · refine .inr ⟨⟨k, hdeq⟩, ?_, fun l hl => ?_⟩
          · have hhere : (s.worker k).pc.At Q s.1 := (h.thread (.worker k)).role.here
            have hplace := (h.thread (.worker k)).place
            have hin : PoolPlace (.worker k) s.1 true false none := by
              have hplace : PoolPlace (.worker k) s.1 (s.worker k).pc.inMutex
                (s.worker k).pc.inFree (s.worker k).pc.task := hplace
              rwa [hdeq] at hplace
            rw [hdeq] at hhere
            obtain ⟨t, rest, hq⟩ := List.exists_cons_of_ne_nil hhere
            obtain ⟨_, queue, -, hdequeue, rfl, -⟩ :=
              PoolMoves.dequeueTask h.shared hin hq
            simp only [workerThrRoutine, hdeq, hdequeue, Option.some.injEq,
              Prod.mk.injEq] at hgo
            exact ⟨_, by rw [← hgo.1]⟩
          -- no other worker is there, for the mutex is held
          · by_cases hkl : k = l
            · exact hself (hkl ▸ hl)
            · rw [PoolState.worker, hrest (.worker l) (by simpa using hkl)] at hl
              exact hkl (dequeue_unique h hdeq hl)
        · refine .inl ⟨htaken.resolve_left hdeq, fun l hl => ?_⟩
          by_cases hkl : k = l
          · exact absurd hl (hkl ▸ hself)
          · rwa [PoolState.worker, hrest (.worker l) (by simpa using hkl)] at hl
    -- neither of the others takes a task
    | caller a =>
        have hgo : s.1.addTask a (s.caller a) = some (s'.1, s'.caller a) := hstep
        obtain ⟨hflag, htaken⟩ := addTask_records hgo
        exact ⟨hflag.trans hstop, .inl ⟨htaken, hworkers (by simp)⟩⟩
    | stopper =>
        have hgo : stopWorkerThrRoutinesCb s.1 s.stopper = some (s'.1, s'.stopper) := hstep
        obtain ⟨hflag, htaken⟩ := stopWorkerThrRoutinesCb_records hgo
        exact ⟨hflag hstop, .inl ⟨htaken, hworkers (by simp)⟩⟩
  · obtain ⟨hflag, htaken, hsame⟩ := poolStep_records haction hstep
    refine ⟨hflag.trans hstop, .inl ⟨htaken, fun k hk => ?_⟩⟩
    by_cases hth : th = .worker k
    · subst hth
      have hworker : s'.worker k = s.worker k := hsame ⟨k, rfl⟩
      rwa [hworker] at hk
    · rwa [PoolState.worker, hrest _ hth] at hk

/-- The pool has been told to stop in `s`, and has gone on to `t`. -/
structure Stopping (s t : PoolState n ι R D) : Prop where
  holds : PoolHolds (fun _ => True) t
  stop_flag : t.1.stop_flag = true
  taken : t.1.taken = s.1.taken ∨
    (∃ e, t.1.taken = s.1.taken ++ [e]) ∧ ∀ k, (t.worker k).pc ≠ .dequeue

/-- **The stop**: from the moment the pool is told to stop, at most one more task is taken from
the queue, in whatever order the threads go on. -/
theorem stop_takes_one (h : (poolSystem n ι R D).Reachable s) (hstop : s.1.stop_flag = true)
    (h' : ((poolSystem n ι R D).goingOn s).Reachable s') :
    s'.1.taken = s.1.taken ∨ ∃ e, s'.1.taken = s.1.taken ++ [e] := by
  have hinv : Stopping s s' := by
    refine h'.invariant (I := Stopping s) (fun t ht => ?_) (fun t a t' hI _ hstep => ?_)
    · cases ht
      exact ⟨pool_holds h, hstop, .inl rfl⟩
    · obtain ⟨hflag, hcases⟩ := stopping_step hI.holds hI.stop_flag hstep
      refine ⟨(poolOutline n ι R D _).step hI.holds a.2.asks_true hstep, hflag, ?_⟩
      rcases hcases with ⟨hsame, hpcs⟩ | ⟨⟨k, hk⟩, ⟨e, hone⟩, hnone⟩
      · rw [hsame]
        exact hI.taken.imp_right fun ⟨he, hpc⟩ => ⟨he, fun k hk => hpc k (hpcs k hk)⟩
      · rcases hI.taken with hsame | ⟨-, hpc⟩
        · exact .inr ⟨⟨e, by rw [hone, hsame]⟩, hnone⟩
        · exact absurd hk (hpc k)
  exact hinv.taken.imp_right And.left

/-- A pool that is stopped at once. -/
theorem stop_takes_one_start : ∃ s s' : PoolState 1 Unit Unit Unit,
    s.1.stop_flag = true ∧ (s'.worker 0).pc = .leave ∧
      (s'.1.taken = s.1.taken ∨ ∃ e, s'.1.taken = s.1.taken ++ [e]) := by
  obtain ⟨queue, -, h⟩ := reach_start 1 Unit Unit Unit fun _ _ => True
  have hs := reach_of_schedule rfl [(.stopper, .stop), (.stopper, .go)] h (fun _ _ _ => trivial) rfl
  have htaken := stop_takes_one hs rfl (goingOn_of_schedule [(.worker 0, .go)] rfl)
  refine ⟨_, _, ?_, ?_, htaken⟩
  · rfl
  · rfl

/-- All threads have been joined in `s`, and the pool has gone on to `t`. -/
structure Resting (s t : PoolState n ι R D) : Prop where
  holds : PoolHolds (fun _ => True) t
  stopper : t.stopper = .stopped
  taken : t.1.taken = s.1.taken
  worker : ∀ k, t.worker k = s.worker k

/-- A thread is joined when it has ended. -/
theorem exited_of_stopped (h : PoolHolds Q s) (hstopped : s.stopper = .stopped) (k : Fin n) :
    (s.worker k).pc = .exited := by
  have hat : StopperPc.At s.1 s.stopper := (h.thread .stopper).role
  rw [hstopped] at hat
  have hended : s.1.ended (.worker k) = (s.worker k).pc.isExited :=
    (h.thread (.worker k)).role.ended
  have hexited : (s.worker k).pc.isExited = true := hended.symm.trans (hat.2 k)
  cases hpc : (s.worker k).pc with
  | exited => rfl
  | _ => rw [hpc] at hexited; cases hexited

/-- A step of a pool at rest leaves it at rest. -/
theorem Resting.step {t t' : PoolState n ι R D} {a : PoolThread n ι × PoolAction R D}
    (h : Resting s t) (hstep : (poolSystem n ι R D).step t a t') : Resting s t' := by
  have hholds := (poolOutline n ι R D _).step h.holds a.2.asks_true hstep
  obtain ⟨hgo, hrest⟩ := poolSystem_step hstep
  obtain ⟨th, action⟩ := a
  have hworker : ∀ k, th ≠ .worker k → t'.worker k = s.worker k := fun k hk =>
    (hrest _ hk).trans (h.worker k)
  by_cases haction : action = .go
  · subst haction
    cases th with
    | worker k =>
        have hgo : workerThrRoutine k t.1 (t.worker k) = some (t'.1, t'.worker k) := hgo
        simp [workerThrRoutine, exited_of_stopped h.holds h.stopper k] at hgo
    | caller a =>
        have hgo : t.1.addTask a (t.caller a) = some (t'.1, t'.caller a) := hgo
        exact ⟨hholds, (hrest .stopper (by simp)).trans h.stopper,
          (addTask_records hgo).2.trans h.taken, fun k => hworker k (by simp)⟩
    | stopper =>
        have hgo : stopWorkerThrRoutinesCb t.1 t.stopper = some (t'.1, t'.stopper) := hgo
        rw [h.stopper] at hgo
        cases hgo
  · obtain ⟨-, htaken, hsame⟩ := poolStep_records haction hgo
    refine ⟨hholds, ?_, htaken.trans h.taken, fun k => ?_⟩
    · by_cases hth : th = .stopper
      · subst hth
        cases action with
        | go => exact absurd rfl haction
        | call c => cases hgo
        | stop =>
            have hpc : t.2 .stopper = StopperPc.stopped := h.stopper
            simp only [hpc] at hgo
            cases hgo
        | wake => exact ((Prod.mk.inj (Option.some.inj hgo)).2).symm.trans h.stopper
      · exact (hrest _ hth).trans h.stopper
    · by_cases hth : th = .worker k
      · subst hth
        exact (hsame ⟨k, rfl⟩).trans (h.worker k)
      · exact hworker k hth

/-- **The end of the stop**: when all threads have been joined, every worker has left its loop
with no task in its hand, and from then on no task is taken and no routine is called. -/
theorem stopped_pool_rests (h : (poolSystem n ι R D).Reachable s) (hstopped : s.stopper = .stopped)
    (h' : ((poolSystem n ι R D).goingOn s).Reachable s') :
    (∀ k, (s.worker k).pc = .exited ∧ s'.worker k = s.worker k) ∧ s'.1.taken = s.1.taken ∧
      ∀ k, (s.1.takenBy k).filter ThreadpoolTask.isCalled = (s.worker k).executed := by
  have hholds := pool_holds h
  have hinv : Resting s s' := by
    refine h'.invariant (I := Resting s) (fun t ht => ?_) (fun t a t' hI _ hstep => ?_)
    · cases ht
      exact ⟨hholds, hstopped, rfl, fun _ => rfl⟩
    · exact hI.step hstep
  have hexited := exited_of_stopped hholds hstopped
  refine ⟨fun k => ⟨hexited k, hinv.worker k⟩, hinv.taken, fun k => ?_⟩
  have hexec : (s.1.takenBy k).filter ThreadpoolTask.isCalled = (s.worker k).executed
      ++ ((s.worker k).pc.hand s.1.tasks).filter ThreadpoolTask.isCalled :=
    (hholds.thread (.worker k)).role.executed
  rw [hexec, hexited k]
  exact List.append_nil _

/-- A call to a pool that is stopped. -/
theorem stopped_pool_rests_start : ∃ s s' : PoolState 1 Unit Unit Unit,
    s.stopper = .stopped ∧ s'.caller () = ⟨.lock oneCall, []⟩ ∧
      s'.worker 0 = s.worker 0 ∧ s'.1.taken = s.1.taken := by
  obtain ⟨queue, -, h⟩ := reach_start 1 Unit Unit Unit fun _ _ => True
  have hs := reach_of_schedule rfl ((.stopper, .stop) :: List.replicate 4 (.stopper, .go)
    ++ List.replicate 2 (.worker 0, .go) ++ List.replicate 2 (.stopper, .go)) h
    (fun _ _ _ => trivial) rfl
  obtain ⟨hworkers, htaken, -⟩ :=
    stopped_pool_rests hs rfl (goingOn_of_schedule [(.caller (), .call oneCall)] rfl)
  refine ⟨_, _, ?_, ?_, (hworkers 0).2, htaken⟩
  · rfl
  · rfl

end Trapd
