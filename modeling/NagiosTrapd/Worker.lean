/-
# Connections of a worker (`worker.c`)

The main loop of a worker accepts connections and hands each to `child_thread`, as a task
of the thread pool or, without a pool, by a call.  `child_thread` is the list of what it
does with the connection; a run of the worker lets the connections advance in any order.

**Main result:** `connections_released`: each connection is closed once and its data freed
once, in runs in which `recv` never fails before a line end and every task is queued; any
other connection keeps its descriptor open for ever.
-/
import NagiosTrapd.Transition
import NagiosTrapd.Socket
import NagiosTrapd.Reply

namespace Trapd

open Transition

variable {D W : Type*}

/-! ## One connection -/

/-- What a worker is configured with. -/
structure WorkerConfig (W D : Type*) where
  trap_tokenizer : Str
  send_enabled : Bool
  threadpool_size : ℤ
  ops : DoubleOps D
  table : List (DiagnosticsEntry W D)

/-- What a connection brings: the pieces that `recv` returns and how they end, the socket it
came over, the time, the state that a dump shows and what `exec_trap` returns. -/
structure Request (W : Type*) where
  chunks : List Chunk
  ending : RecvEnd
  is_private : Bool
  tv : Timeval
  state : W
  executed : Bool

/-- What `child_thread` does with a connection. -/
inductive ChildAction
  | send (text : Str)
  | execTrap (trap : Trap)
  | traplogLog (trap : Trap) (executed : Bool)
  | freePdu
  /-- `close(child_data->client_s)` -/
  | close
  | freeBuffer
  /-- `free(arg)`: the `child_data`. -/
  | freeArg
  deriving DecidableEq, Repr

/-- The part of `child_thread` between reading and freeing the PDU. -/
def replyAndExec (cfg : WorkerConfig W D) (r : Request W) (buffer : Str) : List ChildAction :=
  let pdu := (parse cfg.trap_tokenizer r.tv buffer r.is_private).pdu
  match trapPduGetResponse cfg.ops cfg.table r.state pdu with
  | none => []
  | some response =>
      (if cfg.send_enabled then [.send response, .send ['\n']] else []) ++
        match trapIsTrap pdu with
        | none => []
        | some trap => [.execTrap trap, .traplogLog trap r.executed]

/-- `child_thread`. -/
def childThread (cfg : WorkerConfig W D) (r : Request W) : List ChildAction :=
  match (socketReadPdu r.chunks r.ending).pdu with
  -- no buffer: the descriptor stays open
  | none => [.freeArg]
  | some buffer => replyAndExec cfg r buffer ++ [.freePdu, .close, .freeBuffer, .freeArg]

/-- Where `threadpool_add_task` fails. -/
inductive AddTaskFailure
  | poolNull | lockFreeTasks | waitFreeTasks | dequeue | unlockFreeTasks | lock | enqueue
  | broadcast | unlock
  deriving DecidableEq, Repr

/-- `threadpool_add_task`: what it returns, and whether the task has been queued. -/
def threadpoolAddTask (failure : Option AddTaskFailure) : ℤ × Bool :=
  match failure with
  | none => (0, true)
  -- the queue has the task already
  | some .broadcast | some .unlock => (-1, true)
  | some _ => (-1, false)

/-- What becomes of an accepted connection: a task that is not queued is only logged. -/
def handling (cfg : WorkerConfig W D) (r : Request W) (failure : Option AddTaskFailure) :
    List ChildAction :=
  if 0 < cfg.threadpool_size then
    if (threadpoolAddTask failure).2 then childThread cfg r else []
  else childThread cfg r

/-! ## The worker -/

/-- An accepted connection: what has been done with it, and what is still to do. -/
structure Connection (W : Type*) where
  request : Request W
  failure : Option AddTaskFailure
  done : List ChildAction
  todo : List ChildAction

/-- How often the descriptor has been closed. -/
def Connection.closed (c : Connection W) : ℕ := c.done.count .close

/-- How often the `child_data` has been freed. -/
def Connection.freed (c : Connection W) : ℕ := c.done.count .freeArg

/-- A thread is at work on the connection. -/
def Connection.running (c : Connection W) : Bool := c.done ≠ [] && c.todo ≠ []

/-- What can happen to a worker: a connection is accepted, or a connection advances. -/
inductive WorkerEvent (W : Type*)
  | accept (r : Request W) (failure : Option AddTaskFailure)
  | act (i : ℕ)

/-- One step of a worker. -/
inductive WorkerStep (cfg : WorkerConfig W D) :
    List (Connection W) → WorkerEvent W → List (Connection W) → Prop
  /-- Without a pool `child_thread` is called by the main loop, which then waits. -/
  | accept {s : List (Connection W)} (r : Request W) (failure : Option AddTaskFailure)
      (hfree : cfg.threadpool_size ≤ 0 → ∀ c ∈ s, c.todo = []) :
      WorkerStep cfg s (.accept r failure) (s ++ [⟨r, failure, [], handling cfg r failure⟩])
  /-- The next action of a connection; a queued one needs a free thread to begin. -/
  | act {s : List (Connection W)} {i : ℕ} {c : Connection W} {a : ChildAction}
      {todo : List ChildAction} (hget : s[i]? = some c) (htodo : c.todo = a :: todo)
      (hthread : 0 < cfg.threadpool_size → c.done = [] →
        s.countP Connection.running < cfg.threadpool_size) :
      WorkerStep cfg s (.act i) (s.set i { c with done := c.done ++ [a], todo := todo })

/-- A worker, without connections at first. -/
def workerSystem (cfg : WorkerConfig W D) : System (List (Connection W)) (WorkerEvent W) where
  init := (· = [])
  step := WorkerStep cfg

/-- Every connection is closed and its data freed at most once, and exactly once when its
handling is over; no more descriptors are open than connections are handled. -/
structure Released (s : List (Connection W)) : Prop where
  once : ∀ c ∈ s, c.closed ≤ 1 ∧ c.freed ≤ 1
  finished : ∀ c ∈ s, c.todo = [] → c.closed = 1 ∧ c.freed = 1
  opened : s.countP (fun c => c.closed = 0) ≤ s.countP (fun c => c.todo ≠ [])

/-- A connection that is handled to its end: its task is queued, and `recv` does not fail
before a line end has come. -/
def Handled (cfg : WorkerConfig W D) (r : Request W) (failure : Option AddTaskFailure) : Prop :=
  (0 < cfg.threadpool_size → (threadpoolAddTask failure).2 = true) ∧
    ¬ (r.ending = .error ∧ ∀ chunk ∈ r.chunks, ¬ HasLineEnd chunk.1)

/-! ## What `child_thread` releases -/

/-- Neither the reply nor the execution releases anything. -/
theorem close_not_mem_replyAndExec (cfg : WorkerConfig W D) (r : Request W) (buffer : Str) :
    ChildAction.close ∉ replyAndExec cfg r buffer ∧
      ChildAction.freeArg ∉ replyAndExec cfg r buffer := by
  simp only [replyAndExec]
  cases trapPduGetResponse cfg.ops cfg.table r.state
      (parse cfg.trap_tokenizer r.tv buffer r.is_private).pdu with
  | none => simp
  | some response =>
      cases trapIsTrap (parse cfg.trap_tokenizer r.tv buffer r.is_private).pdu <;>
        cases cfg.send_enabled <;> simp

/-- **`child_thread` closes the connection once**, unless it has no buffer; it frees its data
once in any case. -/
theorem count_childThread (cfg : WorkerConfig W D) (r : Request W) :
    (childThread cfg r).count .close
        = (if r.ending = .error ∧ ∀ chunk ∈ r.chunks, ¬ HasLineEnd chunk.1 then 0 else 1) ∧
      (childThread cfg r).count .freeArg = 1 := by
  unfold childThread
  cases hread : (socketReadPdu r.chunks r.ending).pdu with
  | none =>
      have hfail := (socketReadPdu_eq_none r.chunks r.ending).mp hread
      rw [if_pos hfail]
      exact ⟨rfl, rfl⟩
  | some buffer =>
      have hgood : ¬ (r.ending = .error ∧ ∀ chunk ∈ r.chunks, ¬ HasLineEnd chunk.1) := by
        rw [← socketReadPdu_eq_none, hread]
        simp
      obtain ⟨hclose, hfree⟩ := close_not_mem_replyAndExec cfg r buffer
      rw [if_neg hgood, List.count_append, List.count_append, List.count_eq_zero_of_not_mem hclose,
        List.count_eq_zero_of_not_mem hfree]
      exact ⟨rfl, rfl⟩

/-- A connection is closed and its data freed at most once, and both are done exactly for
the connections that are handled to their end. -/
theorem count_handling (cfg : WorkerConfig W D) (r : Request W)
    (failure : Option AddTaskFailure) :
    (handling cfg r failure).count .close ≤ 1 ∧ (handling cfg r failure).count .freeArg ≤ 1 ∧
      ((handling cfg r failure).count .close = 1 ∧ (handling cfg r failure).count .freeArg = 1 ↔
        Handled cfg r failure) := by
  obtain ⟨hclose, hfree⟩ := count_childThread cfg r
  unfold Handled
  by_cases hlost : 0 < cfg.threadpool_size ∧ (threadpoolAddTask failure).2 = false
  · have hnone : handling cfg r failure = [] := by simp [handling, hlost.1, hlost.2]
    simp [hnone, hlost.1, hlost.2]
  · have hrun : handling cfg r failure = childThread cfg r := by
      unfold handling
      split_ifs with hpool hqueued
      · rfl
      · exact absurd ⟨hpool, by simpa using hqueued⟩ hlost
      · rfl
    have hqueued : 0 < cfg.threadpool_size → (threadpoolAddTask failure).2 = true := by
      intro hpool
      by_contra hnot
      exact hlost ⟨hpool, by simpa using hnot⟩
    rw [hrun, hclose, hfree]
    split_ifs with hfail
    · exact ⟨by omega, le_rfl, fun h => h.1.elim, fun h => absurd hfail h.2⟩
    · exact ⟨le_rfl, le_rfl, fun _ => ⟨hqueued, hfail⟩, fun _ => ⟨rfl, rfl⟩⟩

/-! ## Runs -/

variable {cfg : WorkerConfig W D}

/-- What is done and what is to do are together what becomes of the connection. -/
def Consistent (cfg : WorkerConfig W D) (s : List (Connection W)) : Prop :=
  ∀ c ∈ s, c.done ++ c.todo = handling cfg c.request c.failure

/-- Every step keeps the connections consistent. -/
theorem consistent_step {s s' : List (Connection W)} {e : WorkerEvent W}
    (h : Consistent cfg s) (hstep : WorkerStep cfg s e s') : Consistent cfg s' := by
  intro c hc
  cases hstep with
  | accept r failure =>
      rcases List.mem_append.mp hc with hc | hc
      · exact h c hc
      · obtain rfl := List.mem_singleton.mp hc
        rfl
  | @act i c' a todo hget htodo =>
      rcases List.mem_or_eq_of_mem_set hc with hc | rfl
      · exact h c hc
      · have hc' := h c' (List.mem_of_getElem? hget)
        rw [htodo] at hc'
        simpa using hc'

/-- So they are in every run. -/
theorem Consistent.of_reach {ok : List (Connection W) → WorkerEvent W → Prop}
    {s : List (Connection W)} (h : (workerSystem cfg).Reach ok s) : Consistent cfg s := by
  apply h.invariant
  · rintro _ rfl
    exact fun c hc => absurd hc List.not_mem_nil
  · intro s e s' hs _ hstep
    exact consistent_step hs hstep

/-- The step is no acceptance of a connection whose handling goes wrong. -/
def WorkerEvent.Handled (cfg : WorkerConfig W D) : WorkerEvent W → Prop
  | .accept r failure => Trapd.Handled cfg r failure
  | .act _ => True

/-- Where only such connections are accepted, there are no others. -/
theorem handled_of_reach {s : List (Connection W)}
    (h : (workerSystem cfg).Reach (fun _ e => e.Handled cfg) s) :
    ∀ c ∈ s, Handled cfg c.request c.failure := by
  apply h.invariant (I := fun s => ∀ c ∈ s, Handled cfg c.request c.failure)
  · rintro _ rfl
    exact fun c hc => absurd hc List.not_mem_nil
  · intro s e s' hs hok hstep c hc
    cases hstep with
    | accept r failure =>
        rcases List.mem_append.mp hc with hc | hc
        · exact hs c hc
        · obtain rfl := List.mem_singleton.mp hc
          exact hok
    | @act i c' a todo hget htodo =>
        rcases List.mem_or_eq_of_mem_set hc with hc | rfl
        · exact hs c hc
        · exact hs c' (List.mem_of_getElem? hget)

/-- **Which states are in order**: those where every connection that is over was one that is
handled to its end. -/
theorem Consistent.released_iff {s : List (Connection W)} (h : Consistent cfg s) :
    Released s ↔ ∀ c ∈ s, c.todo = [] → Handled cfg c.request c.failure := by
  have hover : ∀ c ∈ s, c.todo = [] → (c.closed = 1 ∧ c.freed = 1 ↔
      Handled cfg c.request c.failure) := by
    intro c hc htodo
    have hdone := h c hc
    rw [htodo, List.append_nil] at hdone
    rw [Connection.closed, Connection.freed, hdone]
    exact (count_handling cfg c.request c.failure).2.2
  constructor
  · intro hs c hc htodo
    exact (hover c hc htodo).mp (hs.finished c hc htodo)
  · intro hs
    refine ⟨?_, fun c hc htodo => (hover c hc htodo).mpr (hs c hc htodo), ?_⟩
    · intro c hc
      obtain ⟨hclose, hfree, -⟩ := count_handling cfg c.request c.failure
      rw [← h c hc, List.count_append] at hclose hfree
      constructor
      · show c.done.count .close ≤ 1
        omega
      · show c.done.count .freeArg ≤ 1
        omega
    · apply List.countP_mono_left
      intro c hc hopen
      have hopen : c.closed = 0 := by simpa using hopen
      by_contra hnot
      have htodo : c.todo = [] := by simpa using hnot
      have hclosed := (hover c hc htodo).mpr (hs c hc htodo)
      omega

/-- **Accepted connections are closed and their data freed**, once each, in every run that
accepts only connections whose task is queued and on which `recv` does not fail before a line
end; and a state reached by any run is in order exactly when the connections that are over by
then are such connections. -/
theorem connections_released (cfg : WorkerConfig W D) :
    (∀ s, (workerSystem cfg).Reach (fun _ e => e.Handled cfg) s → Released s) ∧
      ∀ s, (workerSystem cfg).Reachable s →
        (Released s ↔ ∀ c ∈ s, c.todo = [] → Handled cfg c.request c.failure) := by
  constructor
  · intro s hs
    have hhandled := handled_of_reach hs
    exact (Consistent.of_reach hs).released_iff.mpr fun c hc _ => hhandled c hc
  · intro s hs
    exact (Consistent.of_reach hs).released_iff

/-- A worker without a thread pool. -/
def plainWorker : WorkerConfig ℤ ℤ where
  trap_tokenizer := "::".toList
  send_enabled := true
  threadpool_size := 0
  ops := wholeNumbers
  table := parsedTrapsTable

/-- A client that sends a byte and then closes the connection, or resets it. -/
def oneByte (ending : RecvEnd) : Request ℤ :=
  ⟨[⟨['a'], by decide⟩], ending, false, ⟨1, 0⟩, 0, true⟩

/-- The connection of such a client, accepted by this worker. -/
def acceptedOneByte (ending : RecvEnd) : Connection ℤ :=
  ⟨oneByte ending, none, [], handling plainWorker (oneByte ending) none⟩

/-- A connection with one byte is accepted. -/
theorem reach_acceptedOneByte (ending : RecvEnd)
    {ok : List (Connection ℤ) → WorkerEvent ℤ → Prop}
    (hok : ok [] (.accept (oneByte ending) none)) :
    (workerSystem plainWorker).Reach ok [acceptedOneByte ending] := by
  apply System.Reach.step (System.Reach.init rfl) hok
  exact WorkerStep.accept _ _ fun _ c hc => absurd hc List.not_mem_nil

/-- Behind one that was closed everything is released. -/
theorem connections_released_closed : Released [acceptedOneByte .closed] := by
  apply (connections_released plainWorker).1
  apply reach_acceptedOneByte
  exact ⟨fun h => absurd h (by decide), fun h => absurd h.1 (by decide)⟩

/-- A client that resets the connection before a line end keeps a descriptor open. -/
theorem not_connections_released :
    ¬ ∀ s, (workerSystem plainWorker).Reachable s → Released s := by
  intro h
  have haccepted : (workerSystem plainWorker).Reachable [acceptedOneByte .error] :=
    reach_acceptedOneByte .error trivial
  -- without a buffer the only action is `free(arg)`
  have hact : WorkerStep plainWorker [acceptedOneByte .error] (.act 0)
      ([acceptedOneByte .error].set 0
        { acceptedOneByte .error with
          done := (acceptedOneByte .error).done ++ [.freeArg], todo := [] }) :=
    .act rfl rfl fun hpool => absurd hpool (by decide)
  have hclosed := ((h _ (haccepted.step hact)).finished _ (List.mem_singleton_self _) rfl).1
  exact absurd hclosed (by decide)

end Trapd
