/-
# What holds of a pool and of its threads (`threadpool.c`)

The invariant of the thread pool, in three parts: `PoolInv` of the pool, `PoolThreadInv` of a
thread and `PoolApart` of two threads.  `PoolRely` is what a thread sees of the steps of the
others; every operation on the pool has a lemma that says from where to where it takes a thread.

**Main result:** `poolOutline`: all steps of all threads keep the invariant.
-/
import Mathlib.Data.List.Nodup
import Mathlib.Data.List.Perm.Subperm
import NagiosTrapd.ThreadpoolThreads

namespace Trapd

open Interleaving

variable {n : ℕ} {ι R D : Type}

/-! ## Where the threads are -/

/-- The thread has `mutex`. -/
def WorkerPc.inMutex : WorkerPc → Bool
  | .test | .take | .dequeue | .unlock _ => true
  | _ => false

/-- The thread has `free_tasks_mutex`. -/
def WorkerPc.inFree : WorkerPc → Bool
  | .enqueue _ | .unlockFree _ => true
  | _ => false

/-- The task structure that a worker has. -/
def WorkerPc.task : WorkerPc → Option ℕ
  | .unlock task => task
  | .execute task | .running task | .release task | .enqueue task => some task
  | _ => none

def CallerPc.inMutex : CallerPc R D → Bool
  | .enqueue .. | .unlockTasks .. => true
  | _ => false

def CallerPc.inFree : CallerPc R D → Bool
  | .test _ | .refuse _ | .dequeue _ | .unlock .. => true
  | _ => false

/-- The task structure that a caller has. -/
def CallerPc.task : CallerPc R D → Option ℕ
  | .unlock _ task => task
  | .fill _ task | .lockTasks _ task | .enqueue _ task => some task
  | _ => none

/-- The call that a caller is in. -/
def CallerPc.call : CallerPc R D → Option (AddCall R D)
  | .idle _ => none
  | .lock c | .test c | .refuse c | .wait c | .dequeue c | .unlock c _ | .fill c _
  | .lockTasks c _ | .enqueue c _ | .unlockTasks c _ => some c

def StopperPc.inMutex : StopperPc → Bool
  | .broadcast | .unlock => true
  | _ => false

namespace PoolLocal

def inMutex : (th : PoolThread n ι) → PoolLocal R D th → Bool
  | .worker _, w => (w : PoolWorker R D).pc.inMutex
  | .caller _, x => (x : PoolCaller R D).pc.inMutex
  | .stopper, pc => StopperPc.inMutex pc

def inFree : (th : PoolThread n ι) → PoolLocal R D th → Bool
  | .worker _, w => (w : PoolWorker R D).pc.inFree
  | .caller _, x => (x : PoolCaller R D).pc.inFree
  | .stopper, _ => false

def task : (th : PoolThread n ι) → PoolLocal R D th → Option ℕ
  | .worker _, w => (w : PoolWorker R D).pc.task
  | .caller _, x => (x : PoolCaller R D).pc.task
  | .stopper, _ => none

end PoolLocal

/-! ## The invariant -/

namespace Threadpool

/-- The indices of the tasks that are queued. -/
def queued (pool : Threadpool n ι R D) : List ℕ := pool.tasks_queue.contents

/-- The indices of the task structures that are free. -/
def free (pool : Threadpool n ι R D) : List ℕ := pool.free_tasks_queue.contents

/-- The tasks that `a` has queued. -/
def addedBy [DecidableEq ι] (pool : Threadpool n ι R D) (a : ι) : List (ThreadpoolTask R D) :=
  pool.added.filterMap fun e => if e.1 = a then some e.2 else none

/-- The tasks that the worker `i` has taken. -/
def takenBy (pool : Threadpool n ι R D) (i : Fin n) : List (ThreadpoolTask R D) :=
  pool.taken.filterMap fun e => if e.1 = i then some e.2 else none

end Threadpool

/-- A task with a routine. -/
def ThreadpoolTask.isCalled (task : ThreadpoolTask R D) : Bool := task.routine_cb.isSome

/-- What holds of a pool.  `Q` is a property of all the tasks that the callers ask for. -/
structure PoolInv (Q : ThreadpoolTask R D → Prop) (pool : Threadpool n ι R D) : Prop where
  queued : pool.tasks_queue.Has pool.queued
  free : pool.free_tasks_queue.Has pool.free
  nodup : (pool.free ++ pool.queued).Nodup
  lt : ∀ t ∈ pool.free ++ pool.queued, t < THREAD_POOL_QUEUE_SIZE
  fifo : pool.added.map Prod.snd = pool.taken.map Prod.snd ++ pool.queued.map pool.tasks
  sound : ∀ e ∈ pool.added, Q e.2

/-- The task that a worker has taken, and whose routine it has not called. -/
def WorkerPc.hand (tasks : ℕ → ThreadpoolTask R D) : WorkerPc → List (ThreadpoolTask R D)
  | .unlock (some task) | .execute task => [tasks task]
  | _ => []

/-- What a caller has queued in a call that has not returned. -/
def CallerPc.hand : CallerPc R D → List (ThreadpoolTask R D)
  | .unlockTasks c _ => [c.task]
  | _ => []

/-- The thread has ended. -/
def WorkerPc.isExited : WorkerPc → Bool
  | .exited => true
  | _ => false

/-- What holds where a worker stands. -/
def WorkerPc.At (Q : ThreadpoolTask R D → Prop) (pool : Threadpool n ι R D) : WorkerPc → Prop
  | .take => pool.queued ≠ [] ∨ pool.stop_flag = true
  | .dequeue => pool.queued ≠ []
  | .unlock none | .leave | .exited => pool.stop_flag = true
  | .unlock (some task) | .execute task => Q (pool.tasks task)
  | .unlockFree rc => rc = 0
  | _ => True

/-- What holds where a caller stands. -/
def CallerPc.At (Q : ThreadpoolTask R D → Prop) (pool : Threadpool n ι R D) : CallerPc R D → Prop
  | .idle none => True
  | .idle (some (c, rc)) => rc = 0 ∨ rc = -2 ∧ c.blocking = false
  | .refuse c => c.blocking = false
  | .lock c | .test c | .wait c | .fill c _ | .unlock c (some _) => Q c.task
  | .dequeue c => Q c.task ∧ pool.free ≠ []
  | .unlock _ none => False
  | .lockTasks c task | .enqueue c task => Q c.task ∧ pool.tasks task = c.task
  | .unlockTasks _ rc => rc = 0

/-- What holds where the thread that stops the pool stands. -/
def StopperPc.At (pool : Threadpool n ι R D) : StopperPc → Prop
  | .idle | .start => pool.stop_flag = false
  | .lock | .broadcast => pool.stop_flag = true
  | .unlock => pool.stop_flag = true ∧ ∀ th, pool.cond th = false
  | .join i =>
      (pool.stop_flag = true ∧ ∀ th, pool.cond th = false) ∧
        ∀ j : Fin n, j.val < i → pool.ended (.worker j) = true
  | .stopped =>
      (pool.stop_flag = true ∧ ∀ th, pool.cond th = false) ∧ ∀ j, pool.ended (.worker j) = true

/-- What holds of a worker. -/
structure PoolWorkerInv (Q : ThreadpoolTask R D → Prop) (i : Fin n) (pool : Threadpool n ι R D)
    (w : PoolWorker R D) : Prop where
  executed : (pool.takenBy i).filter ThreadpoolTask.isCalled
    = w.executed ++ (w.pc.hand pool.tasks).filter ThreadpoolTask.isCalled
  here : w.pc.At Q pool
  ended : pool.ended (.worker i) = w.pc.isExited

/-- What holds of a caller. -/
structure PoolCallerInv [DecidableEq ι] (Q : ThreadpoolTask R D → Prop) (a : ι)
    (pool : Threadpool n ι R D) (x : PoolCaller R D) : Prop where
  accepted : pool.addedBy a = x.accepted ++ x.pc.hand
  here : x.pc.At Q pool

def PoolRoleInv [DecidableEq ι] (Q : ThreadpoolTask R D → Prop) (pool : Threadpool n ι R D) :
    (th : PoolThread n ι) → PoolLocal R D th → Prop
  | .worker i, w => PoolWorkerInv Q i pool w
  | .caller a, x => PoolCallerInv Q a pool x
  | .stopper, pc => StopperPc.At pool pc

/-- The mutexes and the task structure that a thread has.  Who waits has nothing to wait for. -/
structure PoolPlace (th : PoolThread n ι) (pool : Threadpool n ι R D) (inMutex inFree : Bool)
    (own : Option ℕ) : Prop where
  mutex : pool.mutex = some th ↔ inMutex = true
  free_tasks_mutex : pool.free_tasks_mutex = some th ↔ inFree = true
  own : ∀ t, own = some t → t < THREAD_POOL_QUEUE_SIZE ∧ t ∉ pool.free ∧ t ∉ pool.queued
  cond : pool.cond th = true → pool.queued = []
  free_tasks_cond : pool.free_tasks_cond th = true → pool.free = []

/-- What holds of a thread. -/
structure PoolThreadInv [DecidableEq ι] (Q : ThreadpoolTask R D → Prop) (th : PoolThread n ι)
    (pool : Threadpool n ι R D) (x : PoolLocal R D th) : Prop where
  place : PoolPlace th pool x.inMutex x.inFree x.task
  role : PoolRoleInv Q pool th x

/-- Two threads do not have the same task structure. -/
def PoolApart (i j : PoolThread n ι) (x : PoolLocal R D i) (y : PoolLocal R D j) : Prop :=
  ∀ t, x.task = some t → y.task ≠ some t

/-! ## What a step promises to the other threads -/

/-- What the thread `j` sees of a step of a thread that has the task structure `own`. -/
structure PoolRely [DecidableEq ι] (own : Option ℕ) (j : PoolThread n ι)
    (pool pool' : Threadpool n ι R D) : Prop where
  mutex : pool'.mutex = some j ↔ pool.mutex = some j
  free_tasks_mutex : pool'.free_tasks_mutex = some j ↔ pool.free_tasks_mutex = some j
  queued : pool.mutex = some j → pool'.queued = pool.queued
  free : pool.free_tasks_mutex = some j → pool'.free = pool.free
  mem : ∀ t, t ∈ pool'.free ∨ t ∈ pool'.queued → t ∈ pool.free ∨ t ∈ pool.queued ∨ own = some t
  cond : pool'.cond j = true → pool.cond j = true ∧ (pool.queued = [] → pool'.queued = [])
  free_tasks_cond : pool'.free_tasks_cond j = true →
    pool.free_tasks_cond j = true ∧ (pool.free = [] → pool'.free = [])
  tasks : ∀ t, own ≠ some t → pool'.tasks t = pool.tasks t
  addedBy : ∀ a, j = .caller a → pool'.addedBy a = pool.addedBy a
  takenBy : ∀ i, j = .worker i → pool'.takenBy i = pool.takenBy i
  stop_flag : pool'.stop_flag = pool.stop_flag ∨ j ≠ .stopper ∧ pool'.stop_flag = true
  woken : pool.stop_flag = true → (∀ th, pool.cond th = false) → ∀ th, pool'.cond th = false
  ended : ∀ th, pool.ended th = true → pool'.ended th = true
  ended_self : pool'.ended j = pool.ended j

/-- A step of `i`, from where it has `own` to where it has the mutexes and the task structure
given: it keeps what holds of the pool, and its promises. -/
structure PoolMoves [DecidableEq ι] (Q : ThreadpoolTask R D → Prop) (i : PoolThread n ι)
    (pool : Threadpool n ι R D) (own : Option ℕ) (pool' : Threadpool n ι R D)
    (inMutex inFree : Bool) (own' : Option ℕ) : Prop where
  inv : PoolInv Q pool'
  rely : ∀ j, i ≠ j → PoolRely own j pool pool'
  place : PoolPlace i pool' inMutex inFree own'
  source : ∀ t, own' = some t → own = some t ∨ t ∈ pool.free ∨ t ∈ pool.queued
  /-- No task structure gets lost, where every task has a routine. -/
  kept : (∀ task, Q task → task.isCalled = true) →
    ∀ t, t ∈ pool.free ∨ t ∈ pool.queued ∨ own = some t →
      t ∈ pool'.free ∨ t ∈ pool'.queued ∨ own' = some t

variable [DecidableEq ι] {Q : ThreadpoolTask R D → Prop} {pool pool' : Threadpool n ι R D}
  {own : Option ℕ} {i j : PoolThread n ι} {t : ℕ} {inMutex inFree : Bool}

omit [DecidableEq ι] in
/-- The tasks taken and the tasks that are queued are all the tasks. -/
theorem PoolInv.sound_of_mem (h : PoolInv Q pool) {task : ThreadpoolTask R D}
    (hmem : task ∈ pool.taken.map Prod.snd ++ pool.queued.map pool.tasks) : Q task := by
  rw [← h.fifo] at hmem
  obtain ⟨e, he, rfl⟩ := List.mem_map.mp hmem
  exact h.sound e he

omit [DecidableEq ι] in

/-- A task in the queue is one that was asked for. -/
theorem PoolInv.sound_queued (h : PoolInv Q pool) (ht : t ∈ pool.queued) : Q (pool.tasks t) :=
  h.sound_of_mem (List.mem_append_right _ (List.mem_map_of_mem ht))

/-- A flag that is set stays so. -/
theorem PoolRely.stop (hrely : PoolRely own j pool pool') (hs : pool.stop_flag = true) :
    pool'.stop_flag = true :=
  hrely.stop_flag.elim (fun heq => heq.trans hs) (·.2)

/-- What holds where a worker stands is not disturbed. -/
theorem WorkerPc.At.stable {k : Fin n} {pc : WorkerPc}
    (hrely : PoolRely own (.worker k) pool pool')
    (hplace : PoolPlace (.worker k) pool pc.inMutex pc.inFree pc.task)
    (hother : ∀ t, pc.task = some t → own ≠ some t) (h : pc.At Q pool) : pc.At Q pool' := by
  have hqueued : pc.inMutex = true → pool'.queued = pool.queued :=
    fun hin => hrely.queued (hplace.mutex.mpr hin)
  cases pc with
  | take =>
      simp only [WorkerPc.At, hqueued rfl]
      exact h.imp_right hrely.stop
  | dequeue =>
      simp only [WorkerPc.At, hqueued rfl]
      exact h
  | unlock task =>
      cases task with
      | none => exact hrely.stop h
      | some t =>
          simp only [WorkerPc.At, hrely.tasks t (hother t rfl)]
          exact h
  | execute t =>
      simp only [WorkerPc.At, hrely.tasks t (hother t rfl)]
      exact h
  | leave => exact hrely.stop h
  | exited => exact hrely.stop h
  | _ => exact h

/-- The task in a worker's hand stays as it is. -/
theorem WorkerPc.hand_stable {pc : WorkerPc} (hrely : PoolRely own j pool pool')
    (hother : ∀ t, pc.task = some t → own ≠ some t) :
    pc.hand pool'.tasks = pc.hand pool.tasks := by
  cases pc with
  | unlock task =>
      cases task with
      | none => rfl
      | some t => simp only [WorkerPc.hand, hrely.tasks t (hother t rfl)]
  | execute t => simp only [WorkerPc.hand, hrely.tasks t (hother t rfl)]
  | _ => rfl

/-- What holds where a caller stands is not disturbed. -/
theorem CallerPc.At.stable {a : ι} {pc : CallerPc R D}
    (hrely : PoolRely own (.caller a) pool pool')
    (hplace : PoolPlace (.caller a) pool pc.inMutex pc.inFree pc.task)
    (hother : ∀ t, pc.task = some t → own ≠ some t) (h : pc.At Q pool) : pc.At Q pool' := by
  cases pc with
  | idle last => cases last <;> exact h
  | dequeue c => exact ⟨h.1, by rw [hrely.free (hplace.free_tasks_mutex.mpr rfl)]; exact h.2⟩
  | lockTasks c t => exact ⟨h.1, by rw [hrely.tasks t (hother t rfl)]; exact h.2⟩
  | enqueue c t => exact ⟨h.1, by rw [hrely.tasks t (hother t rfl)]; exact h.2⟩
  | unlock c task => cases task <;> exact h
  | _ => exact h

/-- What holds where the thread that stops the pool stands is not disturbed. -/
theorem StopperPc.At.stable {pc : StopperPc} (hrely : PoolRely own .stopper pool pool')
    (h : pc.At pool) : pc.At pool' := by
  have hwoken : (pool.stop_flag = true ∧ ∀ th, pool.cond th = false) →
      pool'.stop_flag = true ∧ ∀ th, pool'.cond th = false :=
    fun hs => ⟨hrely.stop hs.1, hrely.woken hs.1 hs.2⟩
  have hunset : pool.stop_flag = false → pool'.stop_flag = false :=
    fun hs => hrely.stop_flag.elim (fun heq => heq.trans hs) (fun hj => absurd rfl hj.1)
  cases pc with
  | idle => exact hunset h
  | start => exact hunset h
  | lock => exact hrely.stop h
  | broadcast => exact hrely.stop h
  | unlock => exact hwoken h
  | join i => exact ⟨hwoken h.1, fun j hj => hrely.ended _ (h.2 j hj)⟩
  | stopped => exact ⟨hwoken h.1, fun j => hrely.ended _ (h.2 j)⟩

/-- What holds of a thread is not disturbed by a step of another one. -/
theorem PoolRely.stable {y : PoolLocal R D j} (hrely : PoolRely own j pool pool')
    (hother : ∀ t, y.task = some t → own ≠ some t) (h : PoolThreadInv Q j pool y) :
    PoolThreadInv Q j pool' y := by
  obtain ⟨hplace, hrole⟩ := h
  refine ⟨⟨hrely.mutex.trans hplace.mutex, hrely.free_tasks_mutex.trans hplace.free_tasks_mutex,
    fun t ht => ?_, fun hc => ?_, fun hc => ?_⟩, ?_⟩
  · obtain ⟨hlt, hfree, hqueued⟩ := hplace.own t ht
    have hnot : ¬ (t ∈ pool'.free ∨ t ∈ pool'.queued) := fun hmem => by
      rcases hrely.mem t hmem with hf | hq | hx
      · exact hfree hf
      · exact hqueued hq
      · exact hother t ht hx
    exact ⟨hlt, fun hf => hnot (.inl hf), fun hq => hnot (.inr hq)⟩
  · exact (hrely.cond hc).2 (hplace.cond (hrely.cond hc).1)
  · exact (hrely.free_tasks_cond hc).2 (hplace.free_tasks_cond (hrely.free_tasks_cond hc).1)
  · cases j with
    | worker k =>
        refine ⟨?_, hrole.here.stable hrely hplace hother, ?_⟩
        · rw [hrely.takenBy k rfl, WorkerPc.hand_stable hrely hother]
          exact hrole.executed
        · rw [hrely.ended_self]
          exact hrole.ended
    | caller a =>
        refine ⟨?_, hrole.here.stable hrely hplace hother⟩
        rw [hrely.addedBy a rfl]
        exact hrole.accepted
    | stopper => exact StopperPc.At.stable hrely hrole

/-! ## What the operations keep -/

omit [DecidableEq ι] in

/-- The structure that is set has the value. -/
@[simp] theorem Threadpool.setTask_self (value : ThreadpoolTask R D) :
    (pool.setTask t value).tasks t = value := Function.update_self ..

omit [DecidableEq ι] in

/-- The others keep theirs. -/
theorem Threadpool.setTask_of_ne {u : ℕ} {value : ThreadpoolTask R D} (hne : u ≠ t) :
    (pool.setTask t value).tasks u = pool.tasks u := Function.update_of_ne hne ..

/-- Queues, tasks and records are the same. -/
structure SameTasks (pool pool' : Threadpool n ι R D) : Prop where
  tasks_queue : pool'.tasks_queue = pool.tasks_queue
  free_tasks_queue : pool'.free_tasks_queue = pool.free_tasks_queue
  tasks : pool'.tasks = pool.tasks
  added : pool'.added = pool.added
  taken : pool'.taken = pool.taken

omit [DecidableEq ι] in

/-- The same tasks are queued. -/
theorem SameTasks.queued (hs : SameTasks pool pool') : pool'.queued = pool.queued := by
  rw [Threadpool.queued, hs.tasks_queue, ← Threadpool.queued]

omit [DecidableEq ι] in

/-- The same structures are free. -/
theorem SameTasks.free (hs : SameTasks pool pool') : pool'.free = pool.free := by
  rw [Threadpool.free, hs.free_tasks_queue, ← Threadpool.free]

omit [DecidableEq ι] in

/-- The invariant is kept. -/
theorem SameTasks.inv (hs : SameTasks pool pool') (h : PoolInv Q pool) : PoolInv Q pool' where
  queued := by rw [hs.queued, hs.tasks_queue]; exact h.queued
  free := by rw [hs.free, hs.free_tasks_queue]; exact h.free
  nodup := by rw [hs.free, hs.queued]; exact h.nodup
  lt := by rw [hs.free, hs.queued]; exact h.lt
  fifo := by rw [hs.added, hs.taken, hs.queued, hs.tasks]; exact h.fifo
  sound := by rw [hs.added]; exact h.sound

/-- An operation that leaves queues and tasks alone. -/
theorem SameTasks.rely (hs : SameTasks pool pool') (own : Option ℕ)
    (hmutex : pool'.mutex = some j ↔ pool.mutex = some j)
    (hfree : pool'.free_tasks_mutex = some j ↔ pool.free_tasks_mutex = some j)
    (hcond : pool'.cond j = true → pool.cond j = true)
    (hfcond : pool'.free_tasks_cond j = true → pool.free_tasks_cond j = true)
    (hstop : pool'.stop_flag = pool.stop_flag ∨ j ≠ .stopper ∧ pool'.stop_flag = true)
    (hwoken : pool.stop_flag = true → (∀ th, pool.cond th = false) → ∀ th, pool'.cond th = false)
    (hended : ∀ th, pool.ended th = true → pool'.ended th = true)
    (hself : pool'.ended j = pool.ended j) : PoolRely own j pool pool' where
  mutex := hmutex
  free_tasks_mutex := hfree
  queued := fun _ => hs.queued
  free := fun _ => hs.free
  mem := fun t ht => by
    rw [hs.free, hs.queued] at ht
    exact ht.imp_right .inl
  cond := fun hc => ⟨hcond hc, fun hq => by rw [hs.queued, hq]⟩
  free_tasks_cond := fun hc => ⟨hfcond hc, fun hf => by rw [hs.free, hf]⟩
  tasks := fun t _ => by rw [hs.tasks]
  addedBy := fun a _ => by rw [Threadpool.addedBy, hs.added, ← Threadpool.addedBy]
  takenBy := fun k _ => by rw [Threadpool.takenBy, hs.taken, ← Threadpool.takenBy]
  stop_flag := hstop
  woken := hwoken
  ended := hended
  ended_self := hself

omit [DecidableEq ι] in
theorem SameTasks.place (hs : SameTasks pool pool') (hp : PoolPlace i pool inMutex inFree own)
    {inMutex' inFree' : Bool} (hmutex : pool'.mutex = some i ↔ inMutex' = true)
    (hfree : pool'.free_tasks_mutex = some i ↔ inFree' = true)
    (hcond : pool'.cond i = true → pool.cond i = true ∨ pool.queued = [])
    (hfcond : pool'.free_tasks_cond i = true → pool.free_tasks_cond i = true ∨ pool.free = []) :
    PoolPlace i pool' inMutex' inFree' own where
  mutex := hmutex
  free_tasks_mutex := hfree
  own := by rw [hs.free, hs.queued]; exact hp.own
  cond := fun hc => by rw [hs.queued]; exact (hcond hc).elim hp.cond id
  free_tasks_cond := fun hc => by rw [hs.free]; exact (hfcond hc).elim hp.free_tasks_cond id

omit [DecidableEq ι] in

/-- Every structure stays where it is. -/
theorem SameTasks.kept (hs : SameTasks pool pool') (_ : ∀ task, Q task → task.isCalled = true)
    (t : ℕ) (ht : t ∈ pool.free ∨ t ∈ pool.queued ∨ own = some t) :
    t ∈ pool'.free ∨ t ∈ pool'.queued ∨ own = some t := by
  rwa [hs.free, hs.queued]

namespace PoolMoves

/-- Nothing happens. -/
theorem refl (h : PoolInv Q pool) (hp : PoolPlace i pool inMutex inFree own) :
    PoolMoves Q i pool own pool inMutex inFree own where
  inv := h
  rely := fun _ _ => SameTasks.rely ⟨rfl, rfl, rfl, rfl, rfl⟩ own Iff.rfl Iff.rfl id id (.inl rfl)
    (fun _ hc => hc) (fun _ he => he) rfl
  place := hp
  source := fun _ ht => .inl ht
  kept := fun _ _ ht => ht

/-- A task structure is forgotten: its task has no routine. -/
theorem drop (h : PoolInv Q pool) (hp : PoolPlace i pool inMutex inFree own)
    {task : ThreadpoolTask R D} (hQ : Q task) (hroutine : task.isCalled = false) :
    PoolMoves Q i pool own pool inMutex inFree none where
  inv := h
  rely := (refl h hp).rely
  place := ⟨hp.mutex, hp.free_tasks_mutex, by simp, hp.cond, hp.free_tasks_cond⟩
  source := by simp
  kept := fun hall => absurd (hall task hQ) (by simp [hroutine])

/-- The mutex of the queue is locked. -/
theorem lockMutex (h : PoolInv Q pool) (hp : PoolPlace i pool inMutex inFree own)
    (hlock : pool.lockMutex i = some pool') :
    PoolMoves Q i pool own pool' true inFree own ∧ pool' = { pool with mutex := some i } := by
  unfold Threadpool.lockMutex at hlock
  split_ifs at hlock with hsome
  have hnone : pool.mutex = none := by simpa using hsome
  cases hlock
  have hs : SameTasks pool { pool with mutex := some i } := ⟨rfl, rfl, rfl, rfl, rfl⟩
  refine ⟨⟨hs.inv h, fun j hj => hs.rely own ?_ Iff.rfl id id (.inl rfl) (fun _ hc => hc)
    (fun _ he => he) rfl, hs.place hp (by simp) hp.free_tasks_mutex .inl .inl,
    fun _ ht => .inl ht, hs.kept⟩, rfl⟩
  simp [hnone, hj]

/-- It is unlocked. -/
theorem unlockMutex (h : PoolInv Q pool) (hp : PoolPlace i pool true inFree own) :
    PoolMoves Q i pool own pool.unlockMutex false inFree own := by
  have hs : SameTasks pool pool.unlockMutex := ⟨rfl, rfl, rfl, rfl, rfl⟩
  refine ⟨hs.inv h, fun j hj => hs.rely own ?_ Iff.rfl id id (.inl rfl) (fun _ hc => hc)
    (fun _ he => he) rfl, hs.place hp (by simp [Threadpool.unlockMutex]) hp.free_tasks_mutex
    .inl .inl, fun _ ht => .inl ht, hs.kept⟩
  simp [Threadpool.unlockMutex, hp.mutex.mpr rfl, hj]

/-- The mutex of the free structures is locked. -/
theorem lockFree (h : PoolInv Q pool) (hp : PoolPlace i pool inMutex inFree own)
    (hlock : pool.lockFree i = some pool') :
    PoolMoves Q i pool own pool' inMutex true own ∧
      pool' = { pool with free_tasks_mutex := some i } := by
  unfold Threadpool.lockFree at hlock
  split_ifs at hlock with hsome
  have hnone : pool.free_tasks_mutex = none := by simpa using hsome
  cases hlock
  have hs : SameTasks pool { pool with free_tasks_mutex := some i } := ⟨rfl, rfl, rfl, rfl, rfl⟩
  refine ⟨⟨hs.inv h, fun j hj => hs.rely own Iff.rfl ?_ id id (.inl rfl) (fun _ hc => hc)
    (fun _ he => he) rfl, hs.place hp hp.mutex (by simp) .inl .inl, fun _ ht => .inl ht,
    hs.kept⟩, rfl⟩
  simp [hnone, hj]

/-- It is unlocked. -/
theorem unlockFree (h : PoolInv Q pool) (hp : PoolPlace i pool inMutex true own) :
    PoolMoves Q i pool own pool.unlockFree inMutex false own := by
  have hs : SameTasks pool pool.unlockFree := ⟨rfl, rfl, rfl, rfl, rfl⟩
  refine ⟨hs.inv h, fun j hj => hs.rely own Iff.rfl ?_ id id (.inl rfl) (fun _ hc => hc)
    (fun _ he => he) rfl, hs.place hp hp.mutex (by simp [Threadpool.unlockFree]) .inl .inl,
    fun _ ht => .inl ht, hs.kept⟩
  simp [Threadpool.unlockFree, hp.free_tasks_mutex.mpr rfl, hj]

/-- A thread waits for a task while there is none and the pool is not to stop. -/
theorem waitCond (h : PoolInv Q pool) (hp : PoolPlace i pool true inFree own)
    (hnil : pool.queued = []) (hstop : pool.stop_flag = false) :
    PoolMoves Q i pool own (pool.waitCond i) false inFree own := by
  have hs : SameTasks pool (pool.waitCond i) := ⟨rfl, rfl, rfl, rfl, rfl⟩
  refine ⟨hs.inv h, fun j hj => hs.rely own ?_ Iff.rfl ?_ id (.inl rfl) ?_ (fun _ he => he) rfl,
    hs.place hp (by simp [Threadpool.waitCond]) hp.free_tasks_mutex (fun _ => .inr hnil) .inl,
    fun _ ht => .inl ht, hs.kept⟩
  · simp [Threadpool.waitCond, hp.mutex.mpr rfl, hj]
  · simp [Threadpool.waitCond, Function.update_of_ne (Ne.symm hj)]
  · simp [hstop]

/-- A thread waits for a task structure while there is none. -/
theorem waitFreeCond (h : PoolInv Q pool) (hp : PoolPlace i pool inMutex true own)
    (hnil : pool.free = []) : PoolMoves Q i pool own (pool.waitFreeCond i) inMutex false own := by
  have hs : SameTasks pool (pool.waitFreeCond i) := ⟨rfl, rfl, rfl, rfl, rfl⟩
  refine ⟨hs.inv h, fun j hj => hs.rely own Iff.rfl ?_ id ?_ (.inl rfl) (fun _ hc => hc)
    (fun _ he => he) rfl, hs.place hp hp.mutex (by simp [Threadpool.waitFreeCond]) .inl
    (fun _ => .inr hnil), fun _ ht => .inl ht, hs.kept⟩
  · simp [Threadpool.waitFreeCond, hp.free_tasks_mutex.mpr rfl, hj]
  · simp [Threadpool.waitFreeCond, Function.update_of_ne (Ne.symm hj)]

/-- A thread wakes up. -/
theorem wake (h : PoolInv Q pool) (hp : PoolPlace i pool inMutex inFree own) :
    PoolMoves Q i pool own (pool.wake i) inMutex inFree own := by
  have hs : SameTasks pool (pool.wake i) := ⟨rfl, rfl, rfl, rfl, rfl⟩
  refine ⟨hs.inv h, fun j hj => hs.rely own Iff.rfl Iff.rfl ?_ ?_ (.inl rfl) ?_ (fun _ he => he) rfl,
    hs.place hp hp.mutex hp.free_tasks_mutex (by simp [Threadpool.wake])
      (by simp [Threadpool.wake]), fun _ ht => .inl ht, hs.kept⟩
  · simp [Threadpool.wake, Function.update_of_ne (Ne.symm hj)]
  · simp [Threadpool.wake, Function.update_of_ne (Ne.symm hj)]
  · intro _ hc th
    by_cases hth : th = i <;> simp [Threadpool.wake, hth, hc]

/-- All that wait are signalled. -/
theorem broadcast (h : PoolInv Q pool) (hp : PoolPlace i pool inMutex inFree own) :
    PoolMoves Q i pool own pool.broadcast inMutex inFree own := by
  have hs : SameTasks pool pool.broadcast := ⟨rfl, rfl, rfl, rfl, rfl⟩
  exact ⟨hs.inv h, fun j _ => hs.rely own Iff.rfl Iff.rfl (by simp [Threadpool.broadcast]) id
    (.inl rfl) (fun _ _ _ => rfl) (fun _ he => he) rfl, hs.place hp hp.mutex hp.free_tasks_mutex
    (by simp [Threadpool.broadcast]) .inl, fun _ ht => .inl ht, hs.kept⟩

/-- The flag is set. -/
theorem stop (h : PoolInv Q pool) (hp : PoolPlace .stopper pool inMutex inFree own) :
    PoolMoves Q .stopper pool own { pool with stop_flag := true } inMutex inFree own := by
  have hs : SameTasks pool { pool with stop_flag := true } := ⟨rfl, rfl, rfl, rfl, rfl⟩
  exact ⟨hs.inv h, fun j hj => hs.rely own Iff.rfl Iff.rfl id id (.inr ⟨Ne.symm hj, rfl⟩)
    (fun _ hc => hc)
    (fun _ he => he) rfl, hs.place hp hp.mutex hp.free_tasks_mutex .inl .inl, fun _ ht => .inl ht,
    hs.kept⟩

/-- A thread ends. -/
theorem finish (h : PoolInv Q pool) (hp : PoolPlace i pool inMutex inFree own) :
    PoolMoves Q i pool own (pool.finish i) inMutex inFree own := by
  have hs : SameTasks pool (pool.finish i) := ⟨rfl, rfl, rfl, rfl, rfl⟩
  refine ⟨hs.inv h, fun j hj => hs.rely own Iff.rfl Iff.rfl id id (.inl rfl) (fun _ hc => hc)
    ?_ ?_,
    hs.place hp hp.mutex hp.free_tasks_mutex .inl .inl, fun _ ht => .inl ht, hs.kept⟩
  · intro th he
    by_cases hth : th = i <;> simp [Threadpool.finish, hth, he]
  · simp [Threadpool.finish, Function.update_of_ne (Ne.symm hj)]

/-- **A task is taken from the queue**: the first one. -/
theorem dequeueTask (h : PoolInv Q pool) {k : Fin n}
    (hp : PoolPlace (.worker k) pool true inFree none) {rest : List ℕ}
    (hq : pool.queued = t :: rest) :
    ∃ pool' queue, queue.contents = rest ∧ pool.dequeueTask k = (some t, pool') ∧
      pool' = { pool with tasks_queue := queue, taken := pool.taken ++ [(k, pool.tasks t)] } ∧
      PoolMoves Q (.worker k) pool none pool' true inFree (some t) := by
  have hhas := h.queued
  rw [hq] at hhas
  obtain ⟨queue, hdeq, hqueue⟩ := hhas.dequeue
  have heq : pool.dequeueTask k = (some t,
      { pool with tasks_queue := queue, taken := pool.taken ++ [(k, pool.tasks t)] }) := by
    simp [Threadpool.dequeueTask, hdeq]
  have hcontents : queue.contents = rest := hqueue.contents_eq
  have hnodup := h.nodup
  have hlt := h.lt
  have hfifo := h.fifo
  rw [hq] at hnodup hlt hfifo
  have hm : pool.mutex = some (.worker k) := hp.mutex.mpr rfl
  have ht : t ∉ pool.free ∧ t ∉ rest := by
    obtain ⟨_, hrest, hapart⟩ := List.nodup_append.mp hnodup
    exact ⟨fun hf => hapart t hf t List.mem_cons_self rfl, (List.nodup_cons.mp hrest).1⟩
  refine ⟨_, queue, hcontents, heq, rfl, ⟨?_, h.free, ?_, ?_, ?_, h.sound⟩, fun j hj => ?_, ?_,
    fun u hu => ?_, fun _ u hu => ?_⟩
  · rw [Threadpool.queued, hcontents]
    exact hqueue
  · rw [Threadpool.queued, hcontents]
    exact hnodup.sublist ((List.sublist_cons_self t rest).append_left pool.free)
  · rw [Threadpool.queued, hcontents]
    exact fun u hu => hlt u (by
      rcases List.mem_append.mp hu with hf | hr
      · exact List.mem_append_left _ hf
      · exact List.mem_append_right _ (List.mem_cons_of_mem _ hr))
  · rw [Threadpool.queued, hcontents, hfifo]
    simp
  -- the others: only the holder of the mutex may count on what is queued
  · exact {
      mutex := Iff.rfl
      free_tasks_mutex := Iff.rfl
      queued := fun hmj => absurd (Option.some.inj (hm.symm.trans hmj)) hj
      free := fun _ => rfl
      mem := fun u hu => by
        rw [hq]
        rcases hu with hf | hr
        · exact .inl hf
        · rw [Threadpool.queued, hcontents] at hr
          exact .inr (.inl (List.mem_cons_of_mem _ hr))
      cond := fun hc => ⟨hc, fun hnil => absurd (hq.symm.trans hnil) (List.cons_ne_nil _ _)⟩
      free_tasks_cond := fun hc => ⟨hc, id⟩
      tasks := fun _ _ => rfl
      addedBy := fun _ _ => rfl
      takenBy := fun l hl => by
        have hne : k ≠ l := fun hkl => hj (by rw [hkl, hl])
        simp [Threadpool.takenBy, hne]
      stop_flag := .inl rfl
      woken := fun _ hc => hc
      ended := fun _ he => he
      ended_self := rfl }
  -- the thread itself: the task is in no queue now
  · refine ⟨hp.mutex, hp.free_tasks_mutex, fun u hu => ?_, fun hc => ?_, hp.free_tasks_cond⟩
    · cases hu
      rw [Threadpool.queued, hcontents]
      exact ⟨hlt t (List.mem_append_right _ List.mem_cons_self), ht⟩
    · exact absurd (hq.symm.trans (hp.cond hc)) (List.cons_ne_nil _ _)
  · cases hu
    exact .inr (.inr (by rw [hq]; exact List.mem_cons_self))
  · rw [hq] at hu
    rw [Threadpool.queued, hcontents]
    rcases hu with hf | hr | hown
    · exact .inl hf
    · rcases List.mem_cons.mp hr with rfl | hr
      · exact .inr (.inr rfl)
      · exact .inr (.inl hr)
    · cases hown

/-- A list without repetition that misses one of the numbers below `N` has fewer than `N`. -/
theorem length_lt_of_not_mem {N : ℕ} {xs : List ℕ} (hnodup : xs.Nodup) (hlt : ∀ u ∈ xs, u < N)
    (ht : t < N) (hnot : t ∉ xs) : xs.length < N := by
  have hsub : (t :: xs) ⊆ List.range N := fun u hu => by
    rcases List.mem_cons.mp hu with rfl | hu
    · exact List.mem_range.mpr ht
    · exact List.mem_range.mpr (hlt u hu)
  have hle := (List.nodup_cons.mpr ⟨hnot, hnodup⟩).subperm hsub
  simpa [Nat.succ_le_iff] using hle.length_le

/-- **A task is queued**: there is room for it. -/
theorem enqueueTask (h : PoolInv Q pool) {a : ι}
    (hp : PoolPlace (.caller a) pool true inFree (some t)) (hQ : Q (pool.tasks t)) :
    ∃ pool' queue cond, queue.contents = pool.queued ++ [t] ∧
      (∀ th, cond th = true → pool.cond th = true ∧ pool.queued ≠ []) ∧
      pool.enqueueTask a t = (0, pool') ∧
      pool' = { pool with
        tasks_queue := queue
        cond := cond
        added := pool.added ++ [(a, pool.tasks t)] } ∧
      PoolMoves Q (.caller a) pool (some t) pool' true inFree none := by
  obtain ⟨ht, hf, hq⟩ := hp.own t rfl
  have hm : pool.mutex = some (.caller a) := hp.mutex.mpr rfl
  have hnodup := List.nodup_append.mp h.nodup
  -- the task is one of `THREAD_POOL_QUEUE_SIZE`, and is not in the queue
  have hroom : pool.queued.length < THREAD_POOL_QUEUE_SIZE :=
    length_lt_of_not_mem hnodup.2.1 (fun u hu => h.lt u (List.mem_append_right _ hu)) ht hq
  obtain ⟨queue, henq, hqueue⟩ := h.queued.enqueue hroom t
  have hcontents : queue.contents = pool.queued ++ [t] := hqueue.contents_eq
  have hsize : threadpoolQueueGetsize queue = 1 ↔ pool.queued = [] := by
    rw [threadpoolQueueGetsize, hqueue.num_of_cells, List.length_append, List.length_singleton,
      Nat.add_eq_right, List.length_eq_zero_iff]
  -- all are woken when it is the first one
  obtain ⟨cond, hcond, heq⟩ : ∃ cond : PoolThread n ι → Bool,
      (∀ th, cond th = true → pool.cond th = true ∧ pool.queued ≠ []) ∧
      pool.enqueueTask a t = (0,
        { pool with
          tasks_queue := queue
          cond := cond
          added := pool.added ++ [(a, pool.tasks t)] }) := by
    by_cases hempty : pool.queued = []
    · refine ⟨fun _ => false, fun _ hc => absurd hc Bool.false_ne_true, ?_⟩
      simp [Threadpool.enqueueTask, henq, hsize.mpr hempty, Threadpool.broadcast]
    · refine ⟨pool.cond, fun _ hc => ⟨hc, hempty⟩, ?_⟩
      simp [Threadpool.enqueueTask, henq, mt hsize.mp hempty]
  have hmem : ∀ u, u ∈ pool.free ++ queue.contents → u ∈ pool.free ++ pool.queued ∨ u = t := by
    intro u hu
    rw [hcontents, ← List.append_assoc] at hu
    exact (List.mem_append.mp hu).imp_right List.mem_singleton.mp
  refine ⟨_, queue, cond, hcontents, hcond, heq, rfl,
    ⟨?_, h.free, ?_, fun u hu => ?_, ?_, fun u hu => ?_⟩, fun j hj => ?_,
    ⟨hp.mutex, hp.free_tasks_mutex, by simp, fun hc => ?_, hp.free_tasks_cond⟩, by simp,
    fun _ u hu => ?_⟩
  · rw [Threadpool.queued, hcontents]
    exact hqueue
  · have hnew : (pool.free ++ (pool.queued ++ [t])).Nodup := by
      rw [← List.append_assoc]
      refine List.nodup_append.mpr ⟨h.nodup, List.nodup_singleton t, fun u hu v hv huv => ?_⟩
      rw [List.mem_singleton.mp hv] at huv
      subst huv
      exact (List.mem_append.mp hu).elim hf hq
    rw [Threadpool.queued, hcontents]
    exact hnew
  · rcases hmem u hu with hu | rfl
    · exact h.lt u hu
    · exact ht
  · have hmap : (pool.added ++ [(a, pool.tasks t)]).map Prod.snd
        = pool.taken.map Prod.snd ++ queue.contents.map pool.tasks := by
      rw [hcontents, List.map_append, h.fifo]
      simp
    exact hmap
  · rcases List.mem_append.mp hu with hu | hu
    · exact h.sound u hu
    · rw [List.mem_singleton.mp hu]
      exact hQ
  · exact {
      mutex := Iff.rfl
      free_tasks_mutex := Iff.rfl
      queued := fun hmj => absurd (Option.some.inj (hm.symm.trans hmj)) hj
      free := fun _ => rfl
      mem := fun u hu => by
        rcases hmem u (List.mem_append.mpr hu) with hu | rfl
        · exact (List.mem_append.mp hu).imp_right .inl
        · exact .inr (.inr rfl)
      -- who still sleeps has not been woken, so the queue was not empty before
      cond := fun hc => ⟨(hcond j hc).1, fun hnil => absurd hnil (hcond j hc).2⟩
      free_tasks_cond := fun hc => ⟨hc, id⟩
      tasks := fun _ _ => rfl
      addedBy := fun b hb => by
        have hne : a ≠ b := fun hab => hj (by rw [hab, hb])
        simp [Threadpool.addedBy, hne]
      takenBy := fun _ _ => rfl
      stop_flag := .inl rfl
      woken := fun _ hc th => Bool.eq_false_iff.mpr fun hth =>
        absurd (hcond th hth).1 (by simp [hc th])
      ended := fun _ he => he
      ended_self := rfl }
  · exact absurd (hp.cond (hcond _ hc).1) (hcond _ hc).2
  · rw [Threadpool.queued, hcontents]
    rcases hu with hf | hq | hown
    · exact .inl hf
    · exact .inr (.inl (List.mem_append_left _ hq))
    · cases hown
      exact .inr (.inl (List.mem_append_right _ List.mem_cons_self))

/-- A free task structure is taken. -/
theorem dequeueFree (h : PoolInv Q pool) (hp : PoolPlace i pool inMutex true none)
    {rest : List ℕ} (hf : pool.free = t :: rest) :
    ∃ pool' queue, queue.contents = rest ∧ pool.dequeueFree = (some t, pool') ∧
      pool' = { pool with free_tasks_queue := queue } ∧
      PoolMoves Q i pool none pool' inMutex true (some t) := by
  have hhas := h.free
  rw [hf] at hhas
  obtain ⟨queue, hdeq, hqueue⟩ := hhas.dequeue
  have heq : pool.dequeueFree = (some t, { pool with free_tasks_queue := queue }) := by
    simp [Threadpool.dequeueFree, hdeq]
  have hcontents : queue.contents = rest := hqueue.contents_eq
  have hnodup := h.nodup
  have hlt := h.lt
  rw [hf] at hnodup hlt
  have hm : pool.free_tasks_mutex = some i := hp.free_tasks_mutex.mpr rfl
  have ht : t ∉ rest ∧ t ∉ pool.queued := by
    have hnot := (List.nodup_cons.mp hnodup).1
    exact ⟨fun hr => hnot (List.mem_append_left _ hr), fun hq => hnot (List.mem_append_right _ hq)⟩
  refine ⟨_, queue, hcontents, heq, rfl, ⟨h.queued, ?_, ?_, ?_, h.fifo, h.sound⟩, fun j hj => ?_,
    ?_, fun u hu => ?_, fun _ u hu => ?_⟩
  · rw [Threadpool.free, hcontents]
    exact hqueue
  · rw [Threadpool.free, hcontents]
    exact (List.nodup_cons.mp hnodup).2
  · rw [Threadpool.free, hcontents]
    exact fun u hu => hlt u (List.mem_cons_of_mem _ hu)
  -- the others: only the holder of the mutex may count on what is free
  · exact {
      mutex := Iff.rfl
      free_tasks_mutex := Iff.rfl
      queued := fun _ => rfl
      free := fun hmj => absurd (Option.some.inj (hm.symm.trans hmj)) hj
      mem := fun u hu => by
        rw [hf]
        rcases hu with hr | hq
        · rw [Threadpool.free, hcontents] at hr
          exact .inl (List.mem_cons_of_mem _ hr)
        · exact .inr (.inl hq)
      cond := fun hc => ⟨hc, id⟩
      free_tasks_cond := fun hc =>
        ⟨hc, fun hnil => absurd (hf.symm.trans hnil) (List.cons_ne_nil _ _)⟩
      tasks := fun _ _ => rfl
      addedBy := fun _ _ => rfl
      takenBy := fun _ _ => rfl
      stop_flag := .inl rfl
      woken := fun _ hc => hc
      ended := fun _ he => he
      ended_self := rfl }
  -- the thread itself: the structure is in no queue now
  · refine ⟨hp.mutex, hp.free_tasks_mutex, fun u hu => ?_, hp.cond, fun hc => ?_⟩
    · cases hu
      rw [Threadpool.free, hcontents]
      exact ⟨hlt t List.mem_cons_self, ht⟩
    · exact absurd (hf.symm.trans (hp.free_tasks_cond hc)) (List.cons_ne_nil _ _)
  · cases hu
    exact .inr (.inl (by rw [hf]; exact List.mem_cons_self))
  · rw [hf] at hu
    rw [Threadpool.free, hcontents]
    rcases hu with hr | hq | hown
    · rcases List.mem_cons.mp hr with rfl | hr
      · exact .inr (.inr rfl)
      · exact .inl hr
    · exact .inr (.inl hq)
    · cases hown

/-- **A task structure is given back**: there is room for it. -/
theorem enqueueFree (h : PoolInv Q pool) (hp : PoolPlace i pool inMutex true (some t)) :
    ∃ pool' queue cond, queue.contents = pool.free ++ [t] ∧
      (∀ th, cond th = true → pool.free_tasks_cond th = true ∧ pool.free ≠ []) ∧
      pool.enqueueFree t = (0, pool') ∧
      pool' = { pool with free_tasks_queue := queue, free_tasks_cond := cond } ∧
      PoolMoves Q i pool (some t) pool' inMutex true none := by
  obtain ⟨ht, hf, hq⟩ := hp.own t rfl
  have hm : pool.free_tasks_mutex = some i := hp.free_tasks_mutex.mpr rfl
  -- the structure is one of `THREAD_POOL_QUEUE_SIZE`, and is not in the queue
  have hroom : pool.free.length < THREAD_POOL_QUEUE_SIZE :=
    length_lt_of_not_mem (List.nodup_append.mp h.nodup).1
      (fun u hu => h.lt u (List.mem_append_left _ hu)) ht hf
  obtain ⟨queue, henq, hqueue⟩ := h.free.enqueue hroom t
  have hcontents : queue.contents = pool.free ++ [t] := hqueue.contents_eq
  have hsize : threadpoolQueueGetsize queue = 1 ↔ pool.free = [] := by
    rw [threadpoolQueueGetsize, hqueue.num_of_cells, List.length_append, List.length_singleton,
      Nat.add_eq_right, List.length_eq_zero_iff]
  -- all are woken when it is the first one
  obtain ⟨cond, hcond, heq⟩ : ∃ cond : PoolThread n ι → Bool,
      (∀ th, cond th = true → pool.free_tasks_cond th = true ∧ pool.free ≠ []) ∧
      pool.enqueueFree t = (0,
        { pool with free_tasks_queue := queue, free_tasks_cond := cond }) := by
    by_cases hempty : pool.free = []
    · refine ⟨fun _ => false, fun _ hc => absurd hc Bool.false_ne_true, ?_⟩
      simp [Threadpool.enqueueFree, henq, hsize.mpr hempty, Threadpool.broadcastFree]
    · refine ⟨pool.free_tasks_cond, fun _ hc => ⟨hc, hempty⟩, ?_⟩
      simp [Threadpool.enqueueFree, henq, mt hsize.mp hempty]
  have hperm : (pool.free ++ [t] ++ pool.queued).Perm (t :: (pool.free ++ pool.queued)) := by
    rw [List.append_assoc]
    exact List.perm_middle
  refine ⟨_, queue, cond, hcontents, hcond, heq, rfl,
    ⟨h.queued, ?_, ?_, ?_, h.fifo, h.sound⟩, fun j hj => ?_,
    ⟨hp.mutex, hp.free_tasks_mutex, by simp, hp.cond, fun hc => ?_⟩, by simp, fun _ u hu => ?_⟩
  · rw [Threadpool.free, hcontents]
    exact hqueue
  · have hnew : (pool.free ++ [t] ++ pool.queued).Nodup :=
      hperm.nodup_iff.mpr (List.nodup_cons.mpr
        ⟨fun hmem => (List.mem_append.mp hmem).elim hf hq, h.nodup⟩)
    rw [Threadpool.free, hcontents]
    exact hnew
  · have hnew : ∀ u ∈ pool.free ++ [t] ++ pool.queued, u < THREAD_POOL_QUEUE_SIZE := fun u hu => by
      rcases List.mem_cons.mp (hperm.mem_iff.mp hu) with rfl | hu
      · exact ht
      · exact h.lt u hu
    rw [Threadpool.free, hcontents]
    exact hnew
  · exact {
      mutex := Iff.rfl
      free_tasks_mutex := Iff.rfl
      queued := fun _ => rfl
      free := fun hmj => absurd (Option.some.inj (hm.symm.trans hmj)) hj
      mem := fun u hu => by
        rcases hu with hf | hq
        · rw [Threadpool.free, hcontents] at hf
          rcases List.mem_append.mp hf with hf | hf
          · exact .inl hf
          · exact .inr (.inr (by rw [List.mem_singleton.mp hf]))
        · exact .inr (.inl hq)
      cond := fun hc => ⟨hc, id⟩
      free_tasks_cond := fun hc => ⟨(hcond j hc).1, fun hnil => absurd hnil (hcond j hc).2⟩
      tasks := fun _ _ => rfl
      addedBy := fun _ _ => rfl
      takenBy := fun _ _ => rfl
      stop_flag := .inl rfl
      woken := fun _ hc => hc
      ended := fun _ he => he
      ended_self := rfl }
  · exact absurd (hp.free_tasks_cond (hcond _ hc).1) (hcond _ hc).2
  · rw [Threadpool.free, hcontents]
    rcases hu with hf | hq | hown
    · exact .inl (List.mem_append_left _ hf)
    · exact .inr (.inl hq)
    · cases hown
      exact .inl (List.mem_append_right _ List.mem_cons_self)

/-- A thread writes the task structure that it has. -/
theorem setTask (h : PoolInv Q pool) (hp : PoolPlace i pool inMutex inFree (some t))
    (value : ThreadpoolTask R D) :
    PoolMoves Q i pool (some t) (pool.setTask t value) inMutex inFree (some t) := by
  have hq : t ∉ pool.queued := (hp.own t rfl).2.2
  have hsame : ∀ u ∈ pool.queued, (pool.setTask t value).tasks u = pool.tasks u := fun u hu =>
    Threadpool.setTask_of_ne fun heq => hq (heq ▸ hu)
  refine ⟨⟨h.queued, h.free, h.nodup, h.lt, ?_, h.sound⟩, fun j _ => ?_,
    ⟨hp.mutex, hp.free_tasks_mutex, hp.own, hp.cond, hp.free_tasks_cond⟩, fun _ hu => .inl hu,
    fun _ _ hu => hu⟩
  · refine h.fifo.trans ?_
    rw [← List.map_congr_left hsame]
    rfl
  · exact {
      mutex := Iff.rfl
      free_tasks_mutex := Iff.rfl
      queued := fun _ => rfl
      free := fun _ => rfl
      mem := fun _ hu => hu.imp_right .inl
      cond := fun hc => ⟨hc, id⟩
      free_tasks_cond := fun hc => ⟨hc, id⟩
      tasks := fun u hu => Threadpool.setTask_of_ne fun heq => hu (by rw [heq])
      addedBy := fun _ _ => rfl
      takenBy := fun _ _ => rfl
      stop_flag := .inl rfl
      woken := fun _ hc => hc
      ended := fun _ he => he
      ended_self := rfl }

end PoolMoves

/-! ## What the threads keep -/

/-- A step of the thread `i`. -/
structure PoolStepKeeps (Q : ThreadpoolTask R D → Prop) (i : PoolThread n ι)
    (pool : Threadpool n ι R D) (x : PoolLocal R D i) (pool' : Threadpool n ι R D)
    (x' : PoolLocal R D i) : Prop where
  moves : PoolMoves Q i pool x.task pool' x'.inMutex x'.inFree x'.task
  role : PoolRoleInv Q pool' i x'

/-- **A worker keeps the invariant.** -/
theorem workerThrRoutine_keeps {k : Fin n} {w w' : PoolWorker R D} (h : PoolInv Q pool)
    (hw : PoolThreadInv Q (.worker k) pool w)
    (hstep : workerThrRoutine k pool w = some (pool', w')) :
    PoolStepKeeps Q (.worker k) pool w pool' w' := by
  obtain ⟨pc, executed⟩ := w
  obtain ⟨hplace, hexecuted, hhere, hended⟩ := hw
  -- the cases are the steps of the loop; what each leaves behind is a lemma on `PoolMoves`
  cases pc with
  | getTask =>
      cases hflag : pool.stop_flag <;>
        simp only [workerThrRoutine, hflag, Option.some.injEq, Prod.mk.injEq] at hstep <;>
        obtain ⟨rfl, rfl⟩ := hstep
      · exact ⟨.refl h hplace, hexecuted, trivial, hended⟩
      · exact ⟨.refl h hplace, hexecuted, hflag, hended⟩
  | lock =>
      simp only [workerThrRoutine, Option.map_eq_some_iff, Prod.mk.injEq] at hstep
      obtain ⟨_, hlock, rfl, rfl⟩ := hstep
      obtain ⟨hmoves, rfl⟩ := PoolMoves.lockMutex h hplace hlock
      exact ⟨hmoves, hexecuted, trivial, hended⟩
  | test =>
      -- `pthread_cond_wait` gives the mutex back
      by_cases hwait : pool.queued = [] ∧ pool.stop_flag = false
      · have hempty := h.queued.isEmpty_iff.mpr hwait.1
        simp only [workerThrRoutine, hempty, hwait.2, Bool.not_false, Bool.and_self, if_true,
          Option.some.injEq, Prod.mk.injEq] at hstep
        obtain ⟨rfl, rfl⟩ := hstep
        exact ⟨.waitCond h hplace hwait.1 hwait.2, hexecuted, trivial, hended⟩
      · have htake : pool.queued ≠ [] ∨ pool.stop_flag = true := by
          rwa [not_and_or, Bool.not_eq_false] at hwait
        have htest : (threadpoolQueueIsEmpty pool.tasks_queue && !pool.stop_flag) = false := by
          rw [Bool.and_eq_false_iff, Bool.not_eq_false_eq_eq_true]
          exact htake.imp_left fun hne => by
            rw [← Bool.not_eq_true, h.queued.isEmpty_iff]
            exact hne
        simp only [workerThrRoutine, htest, Bool.false_eq_true, if_false, Option.some.injEq,
          Prod.mk.injEq] at hstep
        obtain ⟨rfl, rfl⟩ := hstep
        exact ⟨.refl h hplace, hexecuted, htake, hended⟩
  | wait =>
      simp only [workerThrRoutine] at hstep
      split_ifs at hstep
      simp only [Option.map_eq_some_iff, Prod.mk.injEq] at hstep
      obtain ⟨_, hlock, rfl, rfl⟩ := hstep
      obtain ⟨hmoves, rfl⟩ := PoolMoves.lockMutex h hplace hlock
      exact ⟨hmoves, hexecuted, trivial, hended⟩
  | take =>
      cases hflag : pool.stop_flag <;>
        simp only [workerThrRoutine, hflag, Option.some.injEq, Prod.mk.injEq] at hstep <;>
        obtain ⟨rfl, rfl⟩ := hstep
      -- without the flag the test has found a task, and the mutex has kept it there
      · have hne : pool.queued ≠ [] := hhere.resolve_right (by simp [hflag])
        exact ⟨.refl h hplace, hexecuted, hne, hended⟩
      · exact ⟨.refl h hplace, hexecuted, hflag, hended⟩
  | dequeue =>
      obtain ⟨t, rest, hq⟩ := List.exists_cons_of_ne_nil hhere
      obtain ⟨_, queue, -, hdeq, rfl, hmoves⟩ := PoolMoves.dequeueTask h hplace hq
      simp only [workerThrRoutine, hdeq, Option.some.injEq, Prod.mk.injEq] at hstep
      obtain ⟨rfl, rfl⟩ := hstep
      refine ⟨hmoves, ?_, h.sound_queued (by rw [hq]; exact List.mem_cons_self), hended⟩
      -- the task that is taken is in the hand of the worker until it is executed
      have htaken : (pool.takenBy k).filter ThreadpoolTask.isCalled = executed := by
        simpa [WorkerPc.hand] using hexecuted
      simp [Threadpool.takenBy, PoolWorker.goTo, WorkerPc.hand, ← htaken]
  -- it gives the mutex back, with a task or to leave
  | unlock task =>
      cases task with
      | none =>
          simp only [workerThrRoutine, Option.some.injEq, Prod.mk.injEq] at hstep
          obtain ⟨rfl, rfl⟩ := hstep
          exact ⟨.unlockMutex h hplace, hexecuted, hhere, hended⟩
      | some t =>
          simp only [workerThrRoutine, Option.some.injEq, Prod.mk.injEq] at hstep
          obtain ⟨rfl, rfl⟩ := hstep
          exact ⟨.unlockMutex h hplace, hexecuted, hhere, hended⟩
  | execute t =>
      cases hcalled : (pool.tasks t).isCalled with
      | true =>
          have hroutine : (pool.tasks t).routine_cb.isSome = true := hcalled
          simp only [workerThrRoutine, hroutine, if_true, Option.some.injEq, Prod.mk.injEq] at hstep
          obtain ⟨rfl, rfl⟩ := hstep
          refine ⟨.refl h hplace, ?_, trivial, hended⟩
          rw [hexecuted]
          simp [WorkerPc.hand, hcalled]
      | false =>
          have hroutine : (pool.tasks t).routine_cb.isSome = false := hcalled
          simp only [workerThrRoutine, hroutine, Bool.false_eq_true, if_false, Option.some.injEq,
            Prod.mk.injEq] at hstep
          obtain ⟨rfl, rfl⟩ := hstep
          -- a task without routine is given up
          refine ⟨.drop h hplace hhere hcalled, ?_, trivial, hended⟩
          rw [hexecuted]
          simp [WorkerPc.hand, PoolWorker.goTo, hcalled]
  | running t =>
      simp only [workerThrRoutine, Option.some.injEq, Prod.mk.injEq] at hstep
      obtain ⟨rfl, rfl⟩ := hstep
      exact ⟨.setTask h hplace _, hexecuted, trivial, hended⟩
  | release t =>
      simp only [workerThrRoutine, Option.map_eq_some_iff, Prod.mk.injEq] at hstep
      obtain ⟨_, hlock, rfl, rfl⟩ := hstep
      obtain ⟨hmoves, rfl⟩ := PoolMoves.lockFree h hplace hlock
      exact ⟨hmoves, hexecuted, trivial, hended⟩
  | enqueue t =>
      obtain ⟨_, queue, cond, -, -, henq, rfl, hmoves⟩ := PoolMoves.enqueueFree h hplace
      simp only [workerThrRoutine, henq, Option.some.injEq, Prod.mk.injEq] at hstep
      obtain ⟨rfl, rfl⟩ := hstep
      exact ⟨hmoves, hexecuted, rfl, hended⟩
  | unlockFree rc =>
      have hrc : rc = 0 := hhere
      simp only [workerThrRoutine, hrc, ne_eq, not_true_eq_false, if_false, Option.some.injEq,
        Prod.mk.injEq] at hstep
      obtain ⟨rfl, rfl⟩ := hstep
      exact ⟨.unlockFree h hplace, hexecuted, trivial, hended⟩
  | leave =>
      simp only [workerThrRoutine, Option.some.injEq, Prod.mk.injEq] at hstep
      obtain ⟨rfl, rfl⟩ := hstep
      exact ⟨.finish h hplace, hexecuted, hhere, Function.update_self ..⟩
  | exited => cases hstep

/-- **So does a caller.** -/
theorem Threadpool.addTask_keeps {a : ι} {x x' : PoolCaller R D} (h : PoolInv Q pool)
    (hx : PoolThreadInv Q (.caller a) pool x) (hstep : pool.addTask a x = some (pool', x')) :
    PoolStepKeeps Q (.caller a) pool x pool' x' := by
  obtain ⟨pc, accepted⟩ := x
  obtain ⟨hplace, haccepted, hhere⟩ := hx
  cases pc with
  | idle last => cases hstep
  | lock c =>
      simp only [addTask, Option.map_eq_some_iff, Prod.mk.injEq] at hstep
      obtain ⟨_, hlock, rfl, rfl⟩ := hstep
      obtain ⟨hmoves, rfl⟩ := PoolMoves.lockFree h hplace hlock
      exact ⟨hmoves, haccepted, hhere⟩
  | test c =>
      by_cases hempty : threadpoolQueueIsEmpty pool.free_tasks_queue = true
      · have hnil : pool.free = [] := h.free.isEmpty_iff.mp hempty
        -- a caller that does not block is refused
        cases hblocking : c.blocking <;>
          simp only [addTask, hempty, hblocking, Bool.not_true, Bool.not_false, Bool.false_eq_true,
            if_true, if_false, Option.some.injEq, Prod.mk.injEq] at hstep <;>
          obtain ⟨rfl, rfl⟩ := hstep
        · exact ⟨.refl h hplace, haccepted, hblocking⟩
        · exact ⟨.waitFreeCond h hplace hnil, haccepted, hhere⟩
      · have hne : pool.free ≠ [] := fun hnil => hempty (h.free.isEmpty_iff.mpr hnil)
        simp only [addTask, if_neg hempty, Option.some.injEq, Prod.mk.injEq] at hstep
        obtain ⟨rfl, rfl⟩ := hstep
        exact ⟨.refl h hplace, haccepted, hhere, hne⟩
  | refuse c =>
      simp only [addTask, Option.some.injEq, Prod.mk.injEq] at hstep
      obtain ⟨rfl, rfl⟩ := hstep
      exact ⟨.unlockFree h hplace, haccepted, .inr ⟨rfl, hhere⟩⟩
  | wait c =>
      simp only [addTask] at hstep
      split_ifs at hstep
      simp only [Option.map_eq_some_iff, Prod.mk.injEq] at hstep
      obtain ⟨_, hlock, rfl, rfl⟩ := hstep
      obtain ⟨hmoves, rfl⟩ := PoolMoves.lockFree h hplace hlock
      exact ⟨hmoves, haccepted, hhere⟩
  | dequeue c =>
      obtain ⟨t, rest, hf⟩ := List.exists_cons_of_ne_nil hhere.2
      obtain ⟨_, queue, -, hdeq, rfl, hmoves⟩ := PoolMoves.dequeueFree h hplace hf
      simp only [addTask, hdeq, Option.some.injEq, Prod.mk.injEq] at hstep
      obtain ⟨rfl, rfl⟩ := hstep
      exact ⟨hmoves, haccepted, hhere.1⟩
  | unlock c task =>
      cases task with
      | none => exact absurd hhere id
      | some t =>
          simp only [addTask, Option.some.injEq, Prod.mk.injEq] at hstep
          obtain ⟨rfl, rfl⟩ := hstep
          exact ⟨.unlockFree h hplace, haccepted, hhere⟩
  | fill c t =>
      simp only [addTask, Option.some.injEq, Prod.mk.injEq] at hstep
      obtain ⟨rfl, rfl⟩ := hstep
      exact ⟨.setTask h hplace _, haccepted, hhere, setTask_self _⟩
  | lockTasks c t =>
      simp only [addTask, Option.map_eq_some_iff, Prod.mk.injEq] at hstep
      obtain ⟨_, hlock, rfl, rfl⟩ := hstep
      obtain ⟨hmoves, rfl⟩ := PoolMoves.lockMutex h hplace hlock
      exact ⟨hmoves, haccepted, hhere⟩
  | enqueue c t =>
      obtain ⟨hsound, htask⟩ := hhere
      obtain ⟨_, queue, cond, -, -, henq, rfl, hmoves⟩ :=
        PoolMoves.enqueueTask h hplace (htask ▸ hsound)
      simp only [addTask, henq, Option.some.injEq, Prod.mk.injEq] at hstep
      obtain ⟨rfl, rfl⟩ := hstep
      refine ⟨hmoves, ?_, rfl⟩
      -- the task has been in the hand of the caller until now
      have hadded : pool.addedBy a = accepted := by simpa [CallerPc.hand] using haccepted
      simp [addedBy, PoolCaller.goTo, CallerPc.hand, htask, ← hadded]
  | unlockTasks c rc =>
      have hrc : rc = 0 := hhere
      simp only [addTask, hrc, if_true, Option.some.injEq, Prod.mk.injEq] at hstep
      obtain ⟨rfl, rfl⟩ := hstep
      exact ⟨.unlockMutex h hplace, haccepted.trans (List.append_nil _).symm, .inl rfl⟩

/-- **So does the call that stops the pool.** -/
theorem stopWorkerThrRoutinesCb_keeps {pc pc' : StopperPc} (h : PoolInv Q pool)
    (hx : PoolThreadInv Q .stopper pool pc)
    (hstep : stopWorkerThrRoutinesCb pool pc = some (pool', pc')) :
    PoolStepKeeps Q .stopper pool pc pool' pc' := by
  obtain ⟨hplace, hhere⟩ := hx
  cases pc with
  | idle => cases hstep
  | start =>
      simp only [stopWorkerThrRoutinesCb, Option.some.injEq, Prod.mk.injEq] at hstep
      obtain ⟨rfl, rfl⟩ := hstep
      exact ⟨.stop h hplace, rfl⟩
  | lock =>
      simp only [stopWorkerThrRoutinesCb, Option.map_eq_some_iff, Prod.mk.injEq] at hstep
      obtain ⟨_, hlock, rfl, rfl⟩ := hstep
      obtain ⟨hmoves, rfl⟩ := PoolMoves.lockMutex h hplace hlock
      exact ⟨hmoves, hhere⟩
  | broadcast =>
      simp only [stopWorkerThrRoutinesCb, Option.some.injEq, Prod.mk.injEq] at hstep
      obtain ⟨rfl, rfl⟩ := hstep
      exact ⟨.broadcast h hplace, hhere, fun _ => rfl⟩
  | unlock =>
      simp only [stopWorkerThrRoutinesCb, Option.some.injEq, Prod.mk.injEq] at hstep
      obtain ⟨rfl, rfl⟩ := hstep
      exact ⟨.unlockMutex h hplace, hhere, fun _ hj => absurd hj (Nat.not_lt_zero _)⟩
  | join k =>
      obtain ⟨hwoken, hjoined⟩ := hhere
      by_cases hk : k < n
      · simp only [stopWorkerThrRoutinesCb, dif_pos hk] at hstep
        split_ifs at hstep with hended
        cases hstep
        refine ⟨.refl h hplace, hwoken, fun j hj => ?_⟩
        rcases Nat.lt_succ_iff_lt_or_eq.mp hj with hlt | heq
        · exact hjoined j hlt
        · subst heq
          exact hended
      · simp only [stopWorkerThrRoutinesCb, dif_neg hk, Option.some.injEq, Prod.mk.injEq] at hstep
        obtain ⟨rfl, rfl⟩ := hstep
        exact ⟨.refl h hplace, hwoken, fun j => hjoined j (by omega)⟩
  | stopped => cases hstep

/-- A wake-up of another thread leaves a worker where it is. -/
theorem WorkerPc.At.wake {pc : WorkerPc} (h : pc.At Q pool) : pc.At Q (pool.wake i) := by
  cases pc with
  | unlock task => cases task <;> exact h
  | _ => exact h

/-- It leaves a caller. -/
theorem CallerPc.At.wake {pc : CallerPc R D} (h : pc.At Q pool) : pc.At Q (pool.wake i) := by
  cases pc with
  | idle last => cases last <;> exact h
  | unlock c task => cases task <;> exact h
  | _ => exact h

/-- It leaves the stopper. -/
theorem StopperPc.At.wake {pc : StopperPc} (h : pc.At pool) : pc.At (pool.wake i) := by
  have hwoken : (∀ th, pool.cond th = false) → ∀ th, (pool.wake i).cond th = false := by
    intro hc th
    by_cases hth : th = i <;> simp [Threadpool.wake, hth, hc]
  cases pc with
  | unlock => exact h.imp_right hwoken
  | join k => exact h.imp_left (·.imp_right hwoken)
  | stopped => exact h.imp_left (·.imp_right hwoken)
  | _ => exact h

/-- An action may ask for tasks with `Q` only. -/
def PoolAction.Asks (Q : ThreadpoolTask R D → Prop) : PoolAction R D → Prop
  | .call c => Q c.task
  | _ => True

/-- **Every step keeps what it is about.** -/
theorem poolStep_keeps {i : PoolThread n ι} {x x' : PoolLocal R D i} {action : PoolAction R D}
    (h : PoolInv Q pool) (hx : PoolThreadInv Q i pool x) (hask : action.Asks Q)
    (hstep : poolStep i pool x action = some (pool', x')) : PoolStepKeeps Q i pool x pool' x' := by
  cases action with
  | go =>
      cases i with
      | worker k => exact workerThrRoutine_keeps h hx hstep
      | caller a => exact Threadpool.addTask_keeps h hx hstep
      | stopper => exact stopWorkerThrRoutinesCb_keeps h hx hstep
  | call c =>
      cases i with
      | caller a =>
          obtain ⟨pc, accepted⟩ := x
          obtain ⟨hplace, haccepted, -⟩ := hx
          cases pc with
          | idle last =>
              cases hstep
              exact ⟨.refl h hplace, haccepted, hask⟩
          | _ => cases hstep
      | worker k => cases hstep
      | stopper => cases hstep
  | stop =>
      cases i with
      | stopper =>
          cases x with
          | idle =>
              cases hstep
              exact ⟨.refl h hx.place, hx.role⟩
          | _ => cases hstep
      | worker k => cases hstep
      | caller a => cases hstep
  | wake =>
      have hmoves := PoolMoves.wake h hx.place
      cases i with
      | worker k =>
          cases hstep
          exact ⟨hmoves, hx.role.executed, hx.role.here.wake, hx.role.ended⟩
      | caller a =>
          cases hstep
          exact ⟨hmoves, hx.role.accepted, hx.role.here.wake⟩
      | stopper =>
          cases hstep
          exact ⟨hmoves, StopperPc.At.wake hx.role⟩

/-! ## The start -/

/-- The structures are put into the free queue one after the other. -/
theorem fillFreeTasks_eq {queue : ThreadpoolQueue ℕ} {xs ys : List ℕ} (h : queue.Has xs)
    (hle : (xs ++ ys).length ≤ THREAD_POOL_QUEUE_SIZE) :
    ∃ queue', fillFreeTasks queue ys = some queue' ∧ queue'.Has (xs ++ ys) := by
  induction ys generalizing queue xs with
  | nil => exact ⟨queue, rfl, by rwa [List.append_nil]⟩
  | cons y ys ih =>
      have hlt : xs.length < THREAD_POOL_QUEUE_SIZE := by
        simp only [List.length_append, List.length_cons] at hle
        omega
      obtain ⟨queue₁, henq, hqueue₁⟩ := h.enqueue hlt y
      obtain ⟨queue', hfill, hqueue'⟩ := ih hqueue₁ (by simpa using hle)
      refine ⟨queue', ?_, by simpa using hqueue'⟩
      simp [fillFreeTasks, henq, hfill]

/-- All structures are put into the queue of free ones. -/
theorem fillFreeTasks_range {m : ℕ} (hm : m ≤ THREAD_POOL_QUEUE_SIZE) :
    ∃ queue, fillFreeTasks threadpoolQueueInit (List.range m) = some queue ∧
      queue.Has (List.range m) := by
  have hle : ([] ++ List.range m).length ≤ THREAD_POOL_QUEUE_SIZE := by simpa using hm
  exact fillFreeTasks_eq ThreadpoolQueue.has_init hle

/-- **`threadpool_init` succeeds**, and all task structures are free. -/
theorem threadpoolInit_eq (n : ℕ) (ι R D : Type) :
    ∃ queue : ThreadpoolQueue ℕ, queue.Has (List.range THREAD_POOL_QUEUE_SIZE) ∧
      threadpoolInit n ι R D = some (.fresh n ι R D queue) := by
  obtain ⟨queue, hfill, hqueue⟩ := fillFreeTasks_range (Nat.le_refl THREAD_POOL_QUEUE_SIZE)
  exact ⟨queue, hqueue, by rw [threadpoolInit, hfill, Option.map_some]⟩

/-- The invariant holds of a new pool. -/
theorem poolInv_init (hinit : threadpoolInit n ι R D = some pool) :
    PoolInv Q pool ∧ (∀ i, PoolThreadInv Q i pool (PoolLocal.start i)) ∧
      pool.free = List.range THREAD_POOL_QUEUE_SIZE ∧ pool.queued = [] := by
  obtain ⟨queue, hqueue, heq⟩ := threadpoolInit_eq n ι R D
  cases heq.symm.trans hinit
  have hfree : (Threadpool.fresh n ι R D queue).free = List.range THREAD_POOL_QUEUE_SIZE :=
    hqueue.contents_eq
  have hqueued : (Threadpool.fresh n ι R D queue).queued = [] :=
    ThreadpoolQueue.has_init.contents_eq
  have hplace : ∀ i, PoolPlace i (Threadpool.fresh n ι R D queue) false false none := fun _ =>
    ⟨by simp [Threadpool.fresh], by simp [Threadpool.fresh], by simp, by simp [Threadpool.fresh],
      by simp [Threadpool.fresh]⟩
  refine ⟨⟨?_, ?_, ?_, ?_, ?_, ?_⟩, fun i => ?_, hfree, hqueued⟩
  · rw [hqueued]
    exact ThreadpoolQueue.has_init
  · rw [hfree]
    exact hqueue
  · rw [hfree, hqueued, List.append_nil]
    exact List.nodup_range
  · rw [hfree, hqueued, List.append_nil]
    exact fun t ht => List.mem_range.mp ht
  · rw [hqueued]
    rfl
  · simp [Threadpool.fresh]
  · cases i with
    | worker k => exact ⟨hplace _, rfl, trivial, rfl⟩
    | caller a => exact ⟨hplace _, rfl, trivial⟩
    | stopper => exact ⟨hplace _, rfl⟩

/-- **The invariant of a pool**: every step of every thread keeps it, where the callers ask for
tasks with `Q`. -/
theorem poolOutline (n : ℕ) (ι R D : Type) [DecidableEq ι] (Q : ThreadpoolTask R D → Prop) :
    Outline (poolProgram n ι R D) (fun _ action => action.Asks Q) (PoolInv Q) (PoolThreadInv Q)
      PoolApart where
  init := by
    rintro pool _ ⟨hinit, rfl⟩
    obtain ⟨hinv, hthreads, -⟩ := poolInv_init (Q := Q) hinit
    refine ⟨hinv, hthreads, fun i j _ t ht => ?_⟩
    cases i <;> cases ht
  own := fun h hx hask hstep => by
    obtain ⟨hmoves, hrole⟩ := poolStep_keeps h hx hask hstep
    exact ⟨hmoves.inv, hmoves.place, hrole⟩
  other := fun hij h hx hy hapart hask hstep => by
    obtain ⟨hmoves, hrole⟩ := poolStep_keeps h hx hask hstep
    refine ⟨(hmoves.rely _ hij).stable (fun t ht hown => hapart t hown ht) hy, fun t ht hyt => ?_⟩
    obtain ⟨-, hfree, hqueued⟩ := hy.place.own t hyt
    rcases hmoves.source t ht with hown | hf | hq
    · exact hapart t hown hyt
    · exact hfree hf
    · exact hqueued hq
  symm := fun hapart t hy hx => hapart t hx hy

end Trapd
