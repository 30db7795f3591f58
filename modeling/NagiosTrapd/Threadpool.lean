/-
# The thread pool (`threadpool.c`)

A pool has two queues, each in a ring of `THREAD_POOL_QUEUE_SIZE` cells: the tasks to be
executed, and the task structures that are free.  `threadpool_add_task` takes a free structure,
fills it and queues it; a worker thread takes it from the queue, calls the routine and gives the
structure back.  The two queues have a mutex and a condition variable each.

**Main result:** `threadpool_queue_fifo`: any sequence of operations on a ring is answered as by
a list with room for `THREAD_POOL_QUEUE_SIZE` elements, first in, first out.
-/
import NagiosTrapd.Interleaving
import NagiosTrapd.Ring
import NagiosTrapd.Simulation

namespace Trapd

open Interleaving Simulation

/-! ## Queues -/

/-- `THREAD_POOL_QUEUE_SIZE`. -/
def THREAD_POOL_QUEUE_SIZE : ℕ := 10000

/-- A queue has room. -/
theorem queue_size_pos : 0 < THREAD_POOL_QUEUE_SIZE := by decide

/-- `struct threadpool_queue`; `none` is a cell with `NULL`. -/
structure ThreadpoolQueue (α : Type) where
  head : ℕ
  tail : ℕ
  num_of_cells : ℕ
  cells : ℕ → Option α

variable {α : Type}

/-- `threadpool_queue_init`. -/
def threadpoolQueueInit : ThreadpoolQueue α := ⟨0, 0, 0, fun _ => none⟩

/-- `threadpool_queue_enqueue`; the callers put in no `NULL`. -/
def threadpoolQueueEnqueue (queue : ThreadpoolQueue α) (data : α) : ℤ × ThreadpoolQueue α :=
  if queue.num_of_cells = THREAD_POOL_QUEUE_SIZE then (-1, queue)
  else if (queue.cells queue.tail).isSome then (-1, queue)
  else
    let tail := queue.tail + 1
    (0,
      { queue with
        cells := Function.update queue.cells queue.tail (some data)
        num_of_cells := queue.num_of_cells + 1
        tail := if tail = THREAD_POOL_QUEUE_SIZE then 0 else tail })

/-- `threadpool_queue_dequeue`. -/
def threadpoolQueueDequeue (queue : ThreadpoolQueue α) : Option α × ThreadpoolQueue α :=
  if queue.num_of_cells = 0 then (none, queue)
  else
    let data := queue.cells queue.head
    let cells := Function.update queue.cells queue.head none
    let num_of_cells := queue.num_of_cells - 1
    if num_of_cells = 0 then (data, ⟨0, 0, num_of_cells, cells⟩)
    else
      let head := queue.head + 1
      (data,
        { queue with
          cells := cells
          num_of_cells := num_of_cells
          head := if head = THREAD_POOL_QUEUE_SIZE then 0 else head })

/-- `threadpool_queue_is_empty`. -/
def threadpoolQueueIsEmpty (queue : ThreadpoolQueue α) : Bool := queue.num_of_cells = 0

/-- `threadpool_queue_getsize`. -/
def threadpoolQueueGetsize (queue : ThreadpoolQueue α) : ℕ := queue.num_of_cells

namespace ThreadpoolQueue

/-- What is in the queue, from its head on. -/
def contents (queue : ThreadpoolQueue α) : List α :=
  Ring.read THREAD_POOL_QUEUE_SIZE queue.head queue.cells queue.num_of_cells

/-- The queue has `xs`, and head and tail agree with it. -/
structure Has (queue : ThreadpoolQueue α) (xs : List α) : Prop where
  num_of_cells : queue.num_of_cells = xs.length
  head_lt : queue.head < THREAD_POOL_QUEUE_SIZE
  tail : queue.tail = (queue.head + xs.length) % THREAD_POOL_QUEUE_SIZE
  window : Ring.Window THREAD_POOL_QUEUE_SIZE queue.head queue.cells xs

variable {queue : ThreadpoolQueue α} {x : α} {xs : List α}

/-- What it has are its contents. -/
theorem Has.contents_eq (h : queue.Has xs) : queue.contents = xs := by
  rw [contents, h.num_of_cells, h.window.read_eq]

/-- It has no more than its size. -/
theorem Has.length_le (h : queue.Has xs) : xs.length ≤ THREAD_POOL_QUEUE_SIZE :=
  h.window.length_le

/-- It is empty when it has nothing. -/
theorem Has.isEmpty_iff (h : queue.Has xs) : threadpoolQueueIsEmpty queue = true ↔ xs = [] := by
  rw [threadpoolQueueIsEmpty, decide_eq_true_eq, h.num_of_cells, List.length_eq_zero_iff]

/-- At the start it has nothing. -/
theorem has_init : (threadpoolQueueInit : ThreadpoolQueue α).Has [] :=
  ⟨rfl, queue_size_pos, rfl, Ring.window_nil_iff.mpr fun _ _ => rfl⟩

/-- A position, advanced and set back at the end of the array. -/
theorem advance_eq_mod {j : ℕ} (hj : j < THREAD_POOL_QUEUE_SIZE) :
    (if j + 1 = THREAD_POOL_QUEUE_SIZE then 0 else j + 1) = (j + 1) % THREAD_POOL_QUEUE_SIZE := by
  split_ifs with hend
  · rw [hend, Nat.mod_self]
  · rw [Nat.mod_eq_of_lt (by omega)]

/-- **A queue that is not full takes another element**, at its end. -/
theorem Has.enqueue (h : queue.Has xs) (hlt : xs.length < THREAD_POOL_QUEUE_SIZE) (x : α) :
    ∃ queue', threadpoolQueueEnqueue queue x = (0, queue') ∧ queue'.Has (xs ++ [x]) := by
  have hfull : queue.num_of_cells ≠ THREAD_POOL_QUEUE_SIZE := by
    rw [h.num_of_cells]
    omega
  have hcell : queue.cells queue.tail = none := by
    rw [h.tail]
    exact h.window.next_eq_none hlt
  have htail : queue.tail < THREAD_POOL_QUEUE_SIZE := by
    rw [h.tail]
    exact Nat.mod_lt _ queue_size_pos
  simp only [threadpoolQueueEnqueue, if_neg hfull, hcell, Option.isSome_none, Bool.false_eq_true,
    if_false]
  refine ⟨_, rfl, ?_, h.head_lt, ?_, ?_⟩
  · simp [h.num_of_cells]
  · rw [advance_eq_mod htail, h.tail, Nat.mod_add_mod, List.length_append, List.length_singleton,
      Nat.add_assoc]
  · rw [h.tail]
    exact h.window.push hlt

/-- A full queue takes no more. -/
theorem Has.enqueue_full (h : queue.Has xs) (hfull : xs.length = THREAD_POOL_QUEUE_SIZE) (x : α) :
    threadpoolQueueEnqueue queue x = (-1, queue) := by
  rw [threadpoolQueueEnqueue, if_pos (by rw [h.num_of_cells, hfull])]

/-- **The first element is taken out.** -/
theorem Has.dequeue (h : queue.Has (x :: xs)) :
    ∃ queue', threadpoolQueueDequeue queue = (some x, queue') ∧ queue'.Has xs := by
  have hnum : queue.num_of_cells = xs.length + 1 := h.num_of_cells
  have hhead : queue.head % THREAD_POOL_QUEUE_SIZE = queue.head := Nat.mod_eq_of_lt h.head_lt
  have hdata : queue.cells queue.head = some x := by
    rw [← hhead]
    exact h.window.head_eq
  have hpop := h.window.pop
  rw [hhead] at hpop
  simp only [threadpoolQueueDequeue, hnum, Nat.succ_ne_zero, if_false, Nat.add_sub_cancel, hdata]
  cases xs with
  | nil => exact ⟨_, by rw [List.length_nil, if_pos rfl], rfl, queue_size_pos, rfl, hpop.restart 0⟩
  | cons y ys =>
      refine ⟨_, by rw [if_neg (by simp)], rfl, ?_, ?_, ?_⟩
      · rw [advance_eq_mod h.head_lt]
        exact Nat.mod_lt _ queue_size_pos
      · rw [h.tail, advance_eq_mod h.head_lt, Nat.mod_add_mod]
        congr 1
        simp only [List.length_cons]
        omega
      · rw [advance_eq_mod h.head_lt]
        exact hpop.mod

/-- From an empty queue nothing is taken. -/
theorem Has.dequeue_nil (h : queue.Has []) : threadpoolQueueDequeue queue = (none, queue) := by
  have hnum : queue.num_of_cells = 0 := h.num_of_cells
  rw [threadpoolQueueDequeue, if_pos hnum]

end ThreadpoolQueue

/-- The operations on a queue. -/
inductive QueueOp (α : Type)
  | enqueue (data : α)
  | dequeue
  | isEmpty
  | getsize
  deriving DecidableEq, Repr

/-- What they return. -/
inductive QueueAnswer (α : Type)
  | rc (n : ℤ)
  | data (d : Option α)
  deriving DecidableEq, Repr

/-- `struct threadpool_queue` with its functions. -/
def threadpoolQueue (α : Type) : DataType (ThreadpoolQueue α) (QueueOp α) (QueueAnswer α) where
  apply queue
    | .enqueue data =>
        let (rc, queue) := threadpoolQueueEnqueue queue data
        (.rc rc, queue)
    | .dequeue =>
        let (data, queue) := threadpoolQueueDequeue queue
        (.data data, queue)
    | .isEmpty => (.rc (if threadpoolQueueIsEmpty queue then 1 else 0), queue)
    | .getsize => (.rc (threadpoolQueueGetsize queue), queue)

/-- A queue with room for `N` elements. -/
def boundedFifo (N : ℕ) (α : Type) : DataType (List α) (QueueOp α) (QueueAnswer α) where
  apply xs
    | .enqueue x => if xs.length < N then (.rc 0, xs ++ [x]) else (.rc (-1), xs)
    | .dequeue => (.data xs.head?, xs.tail)
    | .isEmpty => (.rc (if xs.isEmpty then 1 else 0), xs)
    | .getsize => (.rc xs.length, xs)

/-- **The queue is a bounded fifo.** -/
theorem threadpoolQueue_simulates : Simulates (threadpoolQueue α)
    (boundedFifo THREAD_POOL_QUEUE_SIZE α) (fun _ => True) ThreadpoolQueue.Has where
  apply {queue xs op} h _ := by
    cases op with
    | enqueue x =>
        by_cases hlt : xs.length < THREAD_POOL_QUEUE_SIZE
        · obtain ⟨queue', henq, hqueue'⟩ := h.enqueue hlt x
          simp only [threadpoolQueue, boundedFifo, henq, if_pos hlt]
          exact ⟨trivial, hqueue'⟩
        · have hfull : xs.length = THREAD_POOL_QUEUE_SIZE :=
            Nat.le_antisymm h.length_le (Nat.le_of_not_lt hlt)
          simp only [threadpoolQueue, boundedFifo, h.enqueue_full hfull, if_neg hlt]
          exact ⟨trivial, h⟩
    | dequeue =>
        cases xs with
        | nil =>
            simp only [threadpoolQueue, boundedFifo, h.dequeue_nil]
            exact ⟨rfl, h⟩
        | cons x xs =>
            obtain ⟨queue', hdeq, hqueue'⟩ := h.dequeue
            simp only [threadpoolQueue, boundedFifo, hdeq]
            exact ⟨rfl, hqueue'⟩
    | isEmpty =>
        have hiff : threadpoolQueueIsEmpty queue = xs.isEmpty := by
          rw [Bool.eq_iff_iff, h.isEmpty_iff, List.isEmpty_iff]
        simp only [threadpoolQueue, boundedFifo, hiff]
        exact ⟨trivial, h⟩
    | getsize =>
        simp only [threadpoolQueue, boundedFifo, threadpoolQueueGetsize, h.num_of_cells]
        exact ⟨trivial, h⟩

/-- **A ring is a queue**: every sequence of operations on a fresh one is answered as by a list
that takes `THREAD_POOL_QUEUE_SIZE` elements. -/
theorem threadpool_queue_fifo (ops : List (QueueOp α)) :
    ((threadpoolQueue α).run threadpoolQueueInit ops).1
      = ((boundedFifo THREAD_POOL_QUEUE_SIZE α).run [] ops).1 :=
  (threadpoolQueue_simulates.run ThreadpoolQueue.has_init fun _ _ => trivial).1

/-! ## The pool -/

/-- `struct threadpool_task`. -/
structure ThreadpoolTask (R D : Type) where
  routine_cb : Option R
  data : Option D
  deriving DecidableEq, Repr

/-- `threadpool_task_init`. -/
def threadpoolTaskInit {R D : Type} : ThreadpoolTask R D := ⟨none, none⟩

/-- The threads that use a pool: its own `n` workers, callers of `threadpool_add_task`, and the
one that runs `stop_worker_thr_routines_cb`. -/
inductive PoolThread (n : ℕ) (ι : Type)
  | worker (i : Fin n)
  | caller (a : ι)
  | stopper
  deriving DecidableEq

/-- `struct threadpool`, with the threads that wait for its condition variables and those that
have ended; a task structure is its index in `tasks`. -/
structure Threadpool (n : ℕ) (ι R D : Type) where
  tasks_queue : ThreadpoolQueue ℕ
  free_tasks_queue : ThreadpoolQueue ℕ
  tasks : ℕ → ThreadpoolTask R D
  stop_flag : Bool
  free_tasks_mutex : Option (PoolThread n ι)
  mutex : Option (PoolThread n ι)
  free_tasks_cond : PoolThread n ι → Bool
  cond : PoolThread n ι → Bool
  ended : PoolThread n ι → Bool
  /-- The tasks that have been queued, by whom; the code keeps no such record. -/
  added : List (ι × ThreadpoolTask R D)
  /-- The tasks that have been taken from the queue, by whom; no such record either. -/
  taken : List (Fin n × ThreadpoolTask R D)

variable {n : ℕ} {ι R D : Type}

namespace Threadpool

/-- `pthread_mutex_lock(&(pool->mutex))`; `none` is a thread that has to wait. -/
def lockMutex (pool : Threadpool n ι R D) (th : PoolThread n ι) : Option (Threadpool n ι R D) :=
  if pool.mutex.isSome then none else some { pool with mutex := some th }

def unlockMutex (pool : Threadpool n ι R D) : Threadpool n ι R D := { pool with mutex := none }

def lockFree (pool : Threadpool n ι R D) (th : PoolThread n ι) : Option (Threadpool n ι R D) :=
  if pool.free_tasks_mutex.isSome then none else some { pool with free_tasks_mutex := some th }

def unlockFree (pool : Threadpool n ι R D) : Threadpool n ι R D :=
  { pool with free_tasks_mutex := none }

variable [DecidableEq ι]

/-- `pthread_cond_wait(&(pool->cond), &(pool->mutex))`, up to the wake-up. -/
def waitCond (pool : Threadpool n ι R D) (th : PoolThread n ι) : Threadpool n ι R D :=
  { pool with mutex := none, cond := Function.update pool.cond th true }

def waitFreeCond (pool : Threadpool n ι R D) (th : PoolThread n ι) : Threadpool n ι R D :=
  { pool with
    free_tasks_mutex := none
    free_tasks_cond := Function.update pool.free_tasks_cond th true }

/-- A wake-up that nobody has asked for. -/
def wake (pool : Threadpool n ι R D) (th : PoolThread n ι) : Threadpool n ι R D :=
  { pool with
    cond := Function.update pool.cond th false
    free_tasks_cond := Function.update pool.free_tasks_cond th false }

/-- `pthread_cond_broadcast(&(pool->cond))`. -/
def broadcast (pool : Threadpool n ι R D) : Threadpool n ι R D :=
  { pool with cond := fun _ => false }

def broadcastFree (pool : Threadpool n ι R D) : Threadpool n ι R D :=
  { pool with free_tasks_cond := fun _ => false }

/-- The end of a thread. -/
def finish (pool : Threadpool n ι R D) (th : PoolThread n ι) : Threadpool n ι R D :=
  { pool with ended := Function.update pool.ended th true }

/-- A task is taken from the queue, by a worker. -/
def dequeueTask (pool : Threadpool n ι R D) (i : Fin n) : Option ℕ × Threadpool n ι R D :=
  let (task, queue) := threadpoolQueueDequeue pool.tasks_queue
  (task,
    { pool with
      tasks_queue := queue
      taken := pool.taken ++ task.toList.map fun t => (i, pool.tasks t) })

/-- A task is queued, and who waits for it notified. -/
def enqueueTask (pool : Threadpool n ι R D) (a : ι) (task : ℕ) : ℤ × Threadpool n ι R D :=
  let (rc, queue) := threadpoolQueueEnqueue pool.tasks_queue task
  if rc ≠ 0 then (rc, { pool with tasks_queue := queue })
  else
    let pool := { pool with
      tasks_queue := queue
      added := pool.added ++ [(a, pool.tasks task)] }
    (0, if threadpoolQueueGetsize queue = 1 then pool.broadcast else pool)

/-- A free task structure is taken. -/
def dequeueFree (pool : Threadpool n ι R D) : Option ℕ × Threadpool n ι R D :=
  let (task, queue) := threadpoolQueueDequeue pool.free_tasks_queue
  (task, { pool with free_tasks_queue := queue })

/-- A task structure is given back, and who waits for one notified. -/
def enqueueFree (pool : Threadpool n ι R D) (task : ℕ) : ℤ × Threadpool n ι R D :=
  let (rc, queue) := threadpoolQueueEnqueue pool.free_tasks_queue task
  let pool := { pool with free_tasks_queue := queue }
  if rc ≠ 0 then (rc, pool)
  else (0, if threadpoolQueueGetsize queue = 1 then pool.broadcastFree else pool)

/-- A task structure is written. -/
def setTask (pool : Threadpool n ι R D) (task : ℕ) (value : ThreadpoolTask R D) :
    Threadpool n ι R D :=
  { pool with tasks := Function.update pool.tasks task value }

end Threadpool

end Trapd
