/-
# The threads of a pool (`threadpool.c`)

Where a thread stands in `worker_thr_routine`, `threadpool_add_task` or
`stop_worker_thr_routines_cb` is its local state; a step of a thread is one access to the pool.
The pthread functions do not fail on objects that are initialised and, for those that unlock or
wait, held by the thread that calls them.
-/
import NagiosTrapd.Threadpool

namespace Trapd

open Interleaving

variable {n : ℕ} {ι R D : Type} [DecidableEq ι]

/-! ## The code of the threads -/

/-- Where a worker stands. -/
inductive WorkerPc
  | getTask
  | lock
  | test
  | wait
  | take
  | dequeue
  | unlock (task : Option ℕ)
  | execute (task : ℕ)
  | running (task : ℕ)
  | release (task : ℕ)
  | enqueue (task : ℕ)
  | unlockFree (rc : ℤ)
  | leave
  | exited
  deriving DecidableEq, Repr

structure PoolWorker (R D : Type) where
  pc : WorkerPc
  /-- The tasks whose routine it has called; the code keeps no such record. -/
  executed : List (ThreadpoolTask R D)

def PoolWorker.goTo (w : PoolWorker R D) (pc : WorkerPc) : PoolWorker R D := { w with pc := pc }

/-- One step of `worker_thr_routine`. -/
def workerThrRoutine (i : Fin n) (pool : Threadpool n ι R D) (w : PoolWorker R D) :
    Option (Threadpool n ι R D × PoolWorker R D) :=
  match w.pc with
  | .getTask => some (pool, w.goTo (if pool.stop_flag then .leave else .lock))
  | .lock => (pool.lockMutex (.worker i)).map (·, w.goTo .test)
  | .test =>
      if threadpoolQueueIsEmpty pool.tasks_queue && !pool.stop_flag then
        some (pool.waitCond (.worker i), w.goTo .wait)
      else some (pool, w.goTo .take)
  | .wait =>
      if pool.cond (.worker i) then none
      else (pool.lockMutex (.worker i)).map (·, w.goTo .test)
  | .take => some (pool, w.goTo (if pool.stop_flag then .unlock none else .dequeue))
  | .dequeue => some ((pool.dequeueTask i).2, w.goTo (.unlock (pool.dequeueTask i).1))
  | .unlock none => some (pool.unlockMutex, w.goTo .leave)
  | .unlock (some task) => some (pool.unlockMutex, w.goTo (.execute task))
  | .execute task =>
      if (pool.tasks task).routine_cb.isSome then
        some (pool, ⟨.running task, w.executed ++ [pool.tasks task]⟩)
      else some (pool, w.goTo .getTask)
  -- the routine has returned
  | .running task => some (pool.setTask task threadpoolTaskInit, w.goTo (.release task))
  | .release task => (pool.lockFree (.worker i)).map (·, w.goTo (.enqueue task))
  | .enqueue task =>
      some ((pool.enqueueFree task).2, w.goTo (.unlockFree (pool.enqueueFree task).1))
  | .unlockFree rc => some (pool.unlockFree, w.goTo (if rc ≠ 0 then .leave else .getTask))
  | .leave => some (pool.finish (.worker i), w.goTo .exited)
  | .exited => none

/-- The arguments of `threadpool_add_task`. -/
structure AddCall (R D : Type) where
  routine : Option R
  data : Option D
  blocking : Bool
  deriving DecidableEq, Repr

/-- The task that is asked for. -/
def AddCall.task (c : AddCall R D) : ThreadpoolTask R D := ⟨c.routine, c.data⟩

/-- Where a caller of `threadpool_add_task` stands. -/
inductive CallerPc (R D : Type)
  /-- Not in a call; the last one has returned this. -/
  | idle (last : Option (AddCall R D × ℤ))
  | lock (c : AddCall R D)
  | test (c : AddCall R D)
  | refuse (c : AddCall R D)
  | wait (c : AddCall R D)
  | dequeue (c : AddCall R D)
  | unlock (c : AddCall R D) (task : Option ℕ)
  | fill (c : AddCall R D) (task : ℕ)
  | lockTasks (c : AddCall R D) (task : ℕ)
  | enqueue (c : AddCall R D) (task : ℕ)
  | unlockTasks (c : AddCall R D) (rc : ℤ)
  deriving DecidableEq, Repr

structure PoolCaller (R D : Type) where
  pc : CallerPc R D
  /-- The tasks of the calls that have returned 0; the code keeps no such record. -/
  accepted : List (ThreadpoolTask R D)

def PoolCaller.goTo (c : PoolCaller R D) (pc : CallerPc R D) : PoolCaller R D := { c with pc := pc }

namespace Threadpool

/-- One step of `threadpool_add_task`. -/
def addTask (a : ι) (pool : Threadpool n ι R D) (x : PoolCaller R D) :
    Option (Threadpool n ι R D × PoolCaller R D) :=
  match x.pc with
  | .idle _ => none
  | .lock c => (pool.lockFree (.caller a)).map (·, x.goTo (.test c))
  | .test c =>
      if threadpoolQueueIsEmpty pool.free_tasks_queue then
        if !c.blocking then some (pool, x.goTo (.refuse c))
        else some (pool.waitFreeCond (.caller a), x.goTo (.wait c))
      else some (pool, x.goTo (.dequeue c))
  | .refuse c => some (pool.unlockFree, x.goTo (.idle (some (c, -2))))
  | .wait c =>
      if pool.free_tasks_cond (.caller a) then none
      else (pool.lockFree (.caller a)).map (·, x.goTo (.test c))
  | .dequeue c => some (pool.dequeueFree.2, x.goTo (.unlock c pool.dequeueFree.1))
  | .unlock c none => some (pool.unlockFree, x.goTo (.idle (some (c, -1))))
  | .unlock c (some task) => some (pool.unlockFree, x.goTo (.fill c task))
  | .fill c task => some (pool.setTask task c.task, x.goTo (.lockTasks c task))
  | .lockTasks c task => (pool.lockMutex (.caller a)).map (·, x.goTo (.enqueue c task))
  | .enqueue c task =>
      some ((pool.enqueueTask a task).2, x.goTo (.unlockTasks c (pool.enqueueTask a task).1))
  | .unlockTasks c rc =>
      some (pool.unlockMutex,
        ⟨.idle (some (c, rc)), x.accepted ++ if rc = 0 then [c.task] else []⟩)

end Threadpool

/-- Where the thread that stops the pool stands. -/
inductive StopperPc
  /-- `threadpool_free` has not been called. -/
  | idle
  | start
  | lock
  | broadcast
  | unlock
  | join (i : ℕ)
  | stopped
  deriving DecidableEq, Repr

/-- One step of `stop_worker_thr_routines_cb`. -/
def stopWorkerThrRoutinesCb (pool : Threadpool n ι R D) (pc : StopperPc) :
    Option (Threadpool n ι R D × StopperPc) :=
  match pc with
  | .idle => none
  | .start => some ({ pool with stop_flag := true }, .lock)
  | .lock => (pool.lockMutex .stopper).map (·, .broadcast)
  | .broadcast => some (pool.broadcast, .unlock)
  | .unlock => some (pool.unlockMutex, .join 0)
  | .join i =>
      if h : i < n then
        if pool.ended (.worker ⟨i, h⟩) then some (pool, .join (i + 1)) else none
      else some (pool, .stopped)
  | .stopped => none

/-! ## The threads together -/

/-- The local state of a thread. -/
def PoolLocal (R D : Type) : PoolThread n ι → Type
  | .worker _ => PoolWorker R D
  | .caller _ => PoolCaller R D
  | .stopper => StopperPc

/-- A step, a call of `threadpool_add_task` or of `threadpool_free`, or a wake-up that nobody has
asked for. -/
inductive PoolAction (R D : Type)
  | go
  | call (c : AddCall R D)
  | stop
  | wake
  deriving DecidableEq, Repr

/-- What an action of a thread does. -/
def poolStep : (th : PoolThread n ι) → Threadpool n ι R D → PoolLocal R D th → PoolAction R D →
    Option (Threadpool n ι R D × PoolLocal R D th)
  | .worker i, pool, w, .go => workerThrRoutine i pool w
  | .caller a, pool, x, .go => pool.addTask a x
  | .caller _, pool, x, .call c =>
      match x.pc with
      | .idle _ => some (pool, x.goTo (.lock c))
      | _ => none
  | .stopper, pool, pc, .go => stopWorkerThrRoutinesCb pool pc
  | .stopper, pool, pc, .stop =>
      match (pc : StopperPc) with
      | .idle => some (pool, StopperPc.start)
      | _ => none
  | th, pool, x, .wake => some (pool.wake th, x)
  | _, _, _, .call _ => none
  | _, _, _, .stop => none

/-- The loop of `threadpool_init` that makes the task structures free; `none` is a failure. -/
def fillFreeTasks (queue : ThreadpoolQueue ℕ) : List ℕ → Option (ThreadpoolQueue ℕ)
  | [] => some queue
  | i :: rest =>
      let (rc, queue) := threadpoolQueueEnqueue queue i
      if rc ≠ 0 then none else fillFreeTasks queue rest

/-- A pool with these free task structures, and nothing else. -/
def Threadpool.fresh (n : ℕ) (ι R D : Type) (queue : ThreadpoolQueue ℕ) : Threadpool n ι R D where
  tasks_queue := threadpoolQueueInit
  free_tasks_queue := queue
  tasks := fun _ => threadpoolTaskInit
  stop_flag := false
  free_tasks_mutex := none
  mutex := none
  free_tasks_cond := fun _ => false
  cond := fun _ => false
  ended := fun _ => false
  added := []
  taken := []

/-- `threadpool_init`, before the threads are started. -/
def threadpoolInit (n : ℕ) (ι R D : Type) : Option (Threadpool n ι R D) :=
  (fillFreeTasks threadpoolQueueInit (List.range THREAD_POOL_QUEUE_SIZE)).map
    (Threadpool.fresh n ι R D)

/-- The threads as they start. -/
def PoolLocal.start : (th : PoolThread n ι) → PoolLocal R D th
  | .worker _ => (⟨.getTask, []⟩ : PoolWorker R D)
  | .caller _ => (⟨.idle none, []⟩ : PoolCaller R D)
  | .stopper => StopperPc.idle

/-- A pool with `n` workers and callers `ι`. -/
def poolProgram (n : ℕ) (ι R D : Type) [DecidableEq ι] :
    Program (PoolThread n ι) (Threadpool n ι R D) (PoolAction R D) (PoolLocal R D) where
  init pool threads := threadpoolInit n ι R D = some pool ∧ threads = PoolLocal.start
  step th pool x a pool' x' := poolStep th pool x a = some (pool', x')

end Trapd
