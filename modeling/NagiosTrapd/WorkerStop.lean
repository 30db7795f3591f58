/-
# The end of a worker (`worker.c`)

SIGTERM can be delivered at any point of `worker_start_main_loop`.  Its handler sets a flag,
which the loop tests at one place, stops the thread pool and closes the primary socket; and
the worker sends itself the signal once more when it has left the loop.

**Main result:** `worker_stops`: no second `threadpool_free` and no `accept` on the closed
socket in a run in which no SIGTERM comes while the worker is on its way from `select` to the
primary socket, and with a thread pool only the first one comes; every other SIGTERM leads to
one of the two.
-/
import NagiosTrapd.WorkerSelect

namespace Trapd

open Transition

/-! ## The main loop of one worker -/

/-- Where the worker is in `worker_start_main_loop`. -/
inductive StopPhase
  /-- `server_sckt` is still 0. -/
  | starting
  | listening
  /-- In front of the test of `worker_must_terminate`. -/
  | testing
  | beforeSelect
  | inSelect
  | afterSelect (socks : FdSet)
  | inAccept (k : ListenSocket Unit)
  | handover
  /-- Behind the loop, in front of `kill`. -/
  | left
  | returned
  /-- In `log_critical`, which exits. -/
  | critical
  deriving DecidableEq

/-- The worker: whether the flag is set and the primary socket open, how often
`threadpool_free` has been called, and `accept` on the primary socket when it was closed. -/
structure MainLoop where
  phase : StopPhase
  worker_must_terminate : Bool
  server_open : Bool
  pool_frees : ℕ
  closed_accepts : ℕ

/-- What can happen: a signal is delivered, the worker goes on, or sends itself SIGTERM. -/
inductive MainEvent
  | sigterm
  | sighup
  | go
  | kill
  deriving DecidableEq, Repr

/-- The set with one socket. -/
def FdSet.only : ListenSocket Unit → FdSet
  | .server_sckt => ⟨true, false⟩
  | .private_s _ => ⟨false, true⟩

/-- Where the worker is behind a signal handler: `select` has failed and left the set it was
called with, `accept` is called again (`signal` installs handlers that restart it). -/
def StopPhase.interrupted : StopPhase → StopPhase
  | .inSelect => .afterSelect .watched
  | .inAccept k => .afterSelect (.only k)
  | p => p

/-- The process runs, and has not returned from the function. -/
def StopPhase.Running (p : StopPhase) : Prop := p ≠ .returned ∧ p ≠ .critical

/-- The worker goes on. -/
def MainLoop.goTo (s : MainLoop) (p : StopPhase) : MainLoop := { s with phase := p }

/-- `terminate`; at first it closes descriptor 0. -/
def MainLoop.terminate (threadpool_size : ℤ) (s : MainLoop) : MainLoop :=
  { s with
    worker_must_terminate := true
    pool_frees := if threadpool_size > 0 then s.pool_frees + 1 else s.pool_frees
    server_open := if s.phase = .starting then s.server_open else false }

/-- One step. -/
inductive MainStep (threadpool_size : ℤ) (nonblocking : Bool) :
    MainLoop → MainEvent → MainLoop → Prop
  | sigterm {s : MainLoop} (hrunning : s.phase.Running) :
      MainStep threadpool_size nonblocking s .sigterm
        ((s.terminate threadpool_size).goTo s.phase.interrupted)
  | sighup {s : MainLoop} (hrunning : s.phase.Running) :
      MainStep threadpool_size nonblocking s .sighup (s.goTo s.phase.interrupted)
  | getSocket {s : MainLoop} (hphase : s.phase = .starting) :
      MainStep threadpool_size nonblocking s .go (s.goTo .listening)
  | listen {s : MainLoop} (hphase : s.phase = .listening) (hopen : s.server_open = true) :
      MainStep threadpool_size nonblocking s .go (s.goTo .testing)
  | listenFails {s : MainLoop} (hphase : s.phase = .listening) :
      MainStep threadpool_size nonblocking s .go (s.goTo .critical)
  | leave {s : MainLoop} (hphase : s.phase = .testing) (hflag : s.worker_must_terminate = true) :
      MainStep threadpool_size nonblocking s .go (s.goTo .left)
  | stay {s : MainLoop} (hphase : s.phase = .testing) (hflag : s.worker_must_terminate = false) :
      MainStep threadpool_size nonblocking s .go (s.goTo .beforeSelect)
  | select {s : MainLoop} (hphase : s.phase = .beforeSelect) (hopen : s.server_open = true) :
      MainStep threadpool_size nonblocking s .go (s.goTo .inSelect)
  /-- `select` with a closed socket fails. -/
  | selectFails {s : MainLoop} (hphase : s.phase = .beforeSelect)
      (hclosed : s.server_open = false) :
      MainStep threadpool_size nonblocking s .go (s.goTo .critical)
  | selected {s : MainLoop} {socks : FdSet} (hphase : s.phase = .inSelect)
      (hsome : socks ≠ .zero) :
      MainStep threadpool_size nonblocking s .go (s.goTo (.afterSelect socks))
  /-- The private socket is never closed. -/
  | accept {s : MainLoop} {socks : FdSet} {k : ListenSocket Unit}
      (hphase : s.phase = .afterSelect socks) (hsocket : acceptSocket () socks = some k)
      (hopen : k = .server_sckt → s.server_open = true) :
      MainStep threadpool_size nonblocking s .go (s.goTo .handover)
  /-- Another worker has taken the connection. -/
  | acceptNothing {s : MainLoop} {socks : FdSet} {k : ListenSocket Unit}
      (hphase : s.phase = .afterSelect socks) (hsocket : acceptSocket () socks = some k)
      (hopen : k = .server_sckt → s.server_open = true) :
      MainStep threadpool_size nonblocking s .go
        (s.goTo (if nonblocking then .critical else .inAccept k))
  | acceptReturns {s : MainLoop} {k : ListenSocket Unit} (hphase : s.phase = .inAccept k) :
      MainStep threadpool_size nonblocking s .go (s.goTo .handover)
  | acceptClosed {s : MainLoop} {socks : FdSet} (hphase : s.phase = .afterSelect socks)
      (hsocket : acceptSocket () socks = some .server_sckt) (hclosed : s.server_open = false) :
      MainStep threadpool_size nonblocking s .go
        ({ s with closed_accepts := s.closed_accepts + 1 }.goTo .critical)
  | noSocket {s : MainLoop} {socks : FdSet} (hphase : s.phase = .afterSelect socks)
      (hsocket : acceptSocket () socks = none) :
      MainStep threadpool_size nonblocking s .go (s.goTo .critical)
  | handOver {s : MainLoop} (hphase : s.phase = .handover) :
      MainStep threadpool_size nonblocking s .go (s.goTo .testing)
  | kill {s : MainLoop} (hphase : s.phase = .left) :
      MainStep threadpool_size nonblocking s .kill
        ((s.terminate threadpool_size).goTo .returned)

/-- A worker that calls `worker_start_main_loop`. -/
def stopSystem (threadpool_size : ℤ) (nonblocking : Bool) : System MainLoop MainEvent where
  init := (· = ⟨.starting, false, true, 0, 0⟩)
  step := MainStep threadpool_size nonblocking

/-- The pool is freed at most once, and `accept` is never called on the closed socket. -/
structure CleanStop (s : MainLoop) : Prop where
  pool_frees : s.pool_frees ≤ 1
  closed_accepts : s.closed_accepts = 0

/-- The worker is in `select`, or on its way to `accept` on the primary socket, or in it. -/
def StopPhase.AtServer : StopPhase → Prop
  | .inSelect => True
  | .afterSelect socks => socks.server_sckt = true
  | .inAccept k => k = .server_sckt
  | _ => False

/-- No SIGTERM comes on the way to the primary socket, and with a thread pool none comes
behind the first one, be it the worker's own. -/
def MainEvent.Harmless (threadpool_size : ℤ) (s : MainLoop) : MainEvent → Prop
  | .sigterm => ¬ s.phase.AtServer ∧ (threadpool_size > 0 → s.worker_must_terminate = false)
  | .kill => ¬ threadpool_size > 0
  | _ => True

/-! ## Signals -/

variable {threadpool_size : ℤ} {nonblocking : Bool} {s s' : MainLoop} {e : MainEvent}

/-- A signal does not turn the worker away from the primary socket, nor to it. -/
theorem atServer_interrupted (p : StopPhase) : p.interrupted.AtServer ↔ p.AtServer := by
  cases p with
  | inSelect => exact iff_of_true rfl trivial
  | inAccept k => cases k <;> simp [StopPhase.interrupted, StopPhase.AtServer, FdSet.only]
  | _ => exact Iff.rfl

theorem interrupted_eq_beforeSelect {p : StopPhase} :
    p.interrupted = .beforeSelect ↔ p = .beforeSelect := by
  cases p <;> simp [StopPhase.interrupted]

theorem interrupted_eq_left {p : StopPhase} : p.interrupted = .left ↔ p = .left := by
  cases p <;> simp [StopPhase.interrupted]

/-- On its way to the primary socket the worker is about to call `accept` on it, once a
signal has been handled. -/
theorem interrupted_of_atServer {p : StopPhase} (h : p.AtServer) :
    ∃ socks, p.interrupted = .afterSelect socks ∧ socks.server_sckt = true := by
  cases p with
  | inSelect => exact ⟨.watched, rfl, rfl⟩
  | afterSelect socks => exact ⟨socks, rfl, h⟩
  | inAccept k =>
      refine ⟨.only k, rfl, ?_⟩
      rw [show k = .server_sckt from h]
      rfl
  | _ => exact h.elim

theorem acceptSocket_ne_server {socks : FdSet} {k : ListenSocket Unit}
    (hsocket : acceptSocket () socks = some k) (hno : ¬ socks.server_sckt = true) :
    k ≠ .server_sckt := by
  rintro rfl
  exact hno (acceptSocket_eq_server.mp hsocket)

/-! ## Harmless runs -/

/-- As long as no signal does harm: the pool is freed with the first SIGTERM, only a set flag
closes the primary socket, and with the flag set the worker stays away from it. -/
structure InOrder (threadpool_size : ℤ) (s : MainLoop) : Prop where
  pool_frees : s.pool_frees
    = if threadpool_size > 0 ∧ s.worker_must_terminate = true then 1 else 0
  closed_accepts : s.closed_accepts = 0
  flagged_of_closed : s.server_open = false → s.worker_must_terminate = true
  closed_of_flagged : s.worker_must_terminate = true → s.phase = .beforeSelect →
    s.server_open = false
  not_atServer : s.worker_must_terminate = true → ¬ s.phase.AtServer

theorem InOrder.cleanStop (h : InOrder threadpool_size s) : CleanStop s where
  pool_frees := by
    rw [h.pool_frees]
    split_ifs <;> omega
  closed_accepts := h.closed_accepts

/-- A step of the loop that leads to the primary socket only without the flag. -/
theorem InOrder.goTo (h : InOrder threadpool_size s) {p : StopPhase}
    (hbefore : p = .beforeSelect → s.worker_must_terminate = false ∨ s.phase = .beforeSelect)
    (hserver : s.worker_must_terminate = true → ¬ p.AtServer) :
    InOrder threadpool_size (s.goTo p) where
  pool_frees := h.pool_frees
  closed_accepts := h.closed_accepts
  flagged_of_closed := h.flagged_of_closed
  closed_of_flagged hflag hp := by
    rcases hbefore hp with hno | hphase
    · exact absurd (hno.symm.trans hflag) Bool.false_ne_true
    · exact h.closed_of_flagged hflag hphase
  not_atServer := hserver

/-- A SIGTERM that does no harm. -/
theorem InOrder.terminate (h : InOrder threadpool_size s)
    (hfirst : threadpool_size > 0 → s.worker_must_terminate = false) {p : StopPhase}
    (hbefore : p = .beforeSelect → s.phase = .beforeSelect) (hserver : ¬ p.AtServer) :
    InOrder threadpool_size ((s.terminate threadpool_size).goTo p) where
  pool_frees := by
    show (if threadpool_size > 0 then s.pool_frees + 1 else s.pool_frees)
      = if threadpool_size > 0 ∧ true = true then 1 else 0
    have hfrees := h.pool_frees
    by_cases hpool : threadpool_size > 0
    · simp [hfirst hpool] at hfrees
      simp [hpool, hfrees]
    · simp [hpool] at hfrees ⊢
      exact hfrees
  closed_accepts := h.closed_accepts
  flagged_of_closed _ := rfl
  closed_of_flagged _ hp := by
    show (if s.phase = .starting then s.server_open else false) = false
    rw [hbefore hp, if_neg (by simp)]
  not_atServer _ := hserver

/-- **A harmless step keeps the order.** -/
theorem inOrder_step (h : InOrder threadpool_size s) (hharmless : e.Harmless threadpool_size s)
    (hstep : MainStep threadpool_size nonblocking s e s') : InOrder threadpool_size s' := by
  cases hstep with
  | sigterm =>
      apply h.terminate hharmless.2 interrupted_eq_beforeSelect.mp
      rw [atServer_interrupted]
      exact hharmless.1
  | sighup =>
      apply h.goTo fun hp => Or.inr (interrupted_eq_beforeSelect.mp hp)
      intro hflag
      rw [atServer_interrupted]
      exact h.not_atServer hflag
  | stay _ hflag => exact h.goTo (fun _ => Or.inl hflag) fun _ => id
  | select hphase hopen =>
      apply h.goTo (by simp)
      intro hflag
      exact absurd ((h.closed_of_flagged hflag hphase).symm.trans hopen) Bool.false_ne_true
  | selected hphase =>
      apply h.goTo (by simp)
      intro hflag
      have hnot := h.not_atServer hflag
      rw [hphase] at hnot
      exact absurd trivial hnot
  | @acceptNothing socks k hphase hsocket hopen =>
      cases nonblocking with
      | true => exact h.goTo (by simp) fun _ => id
      | false =>
          apply h.goTo (by simp)
          intro hflag
          have hnot := h.not_atServer hflag
          rw [hphase] at hnot
          exact acceptSocket_ne_server hsocket hnot
  | acceptClosed hphase hsocket hclosed =>
      have hnot := h.not_atServer (h.flagged_of_closed hclosed)
      rw [hphase] at hnot
      exact absurd (acceptSocket_eq_server.mp hsocket) hnot
  | kill hphase => exact h.terminate (fun hpool => absurd hpool hharmless) (by simp) id
  -- the other steps lead away from the primary socket
  | _ => exact h.goTo (by simp) fun _ => id

/-! ## All runs -/

/-- In every run the flag comes with a call of `threadpool_free`, and the loop is left with
the flag set. -/
structure Flagged (threadpool_size : ℤ) (s : MainLoop) : Prop where
  freed : threadpool_size > 0 → s.worker_must_terminate = true → 1 ≤ s.pool_frees
  left : s.phase = .left → s.worker_must_terminate = true

theorem Flagged.goTo (h : Flagged threadpool_size s) {p : StopPhase}
    (hleft : p = .left → s.worker_must_terminate = true) :
    Flagged threadpool_size (s.goTo p) :=
  ⟨h.freed, hleft⟩

theorem flagged_terminate (s : MainLoop) (p : StopPhase) :
    Flagged threadpool_size ((s.terminate threadpool_size).goTo p) where
  freed hpool _ := by
    show 1 ≤ if threadpool_size > 0 then s.pool_frees + 1 else s.pool_frees
    rw [if_pos hpool]
    omega
  left _ := rfl

theorem flagged_step (h : Flagged threadpool_size s)
    (hstep : MainStep threadpool_size nonblocking s e s') : Flagged threadpool_size s' := by
  cases hstep with
  | sigterm => exact flagged_terminate s _
  | sighup => exact h.goTo fun hp => h.left (interrupted_eq_left.mp hp)
  | leave _ hflag => exact h.goTo fun _ => hflag
  | acceptNothing => cases nonblocking <;> exact h.goTo (by simp)
  | acceptClosed => exact ⟨h.freed, by simp [MainLoop.goTo]⟩
  | kill => exact flagged_terminate s _
  | _ => exact h.goTo (by simp)

theorem flagged_of_reachable (h : (stopSystem threadpool_size nonblocking).Reachable s) :
    Flagged threadpool_size s := by
  apply h.invariant (I := Flagged threadpool_size)
  · rintro _ rfl
    exact ⟨fun _ hflag => absurd hflag Bool.false_ne_true, by simp⟩
  · exact fun _ _ _ hs _ hstep => flagged_step hs hstep

/-- A SIGTERM behind the first one frees the pool again. -/
theorem not_cleanStop_terminate (h : Flagged threadpool_size s) (hpool : threadpool_size > 0)
    (hflag : s.worker_must_terminate = true) (p : StopPhase) :
    ¬ CleanStop ((s.terminate threadpool_size).goTo p) := by
  intro hclean
  have hfrees : s.pool_frees + 1 ≤ 1 := by
    have hle := hclean.pool_frees
    rwa [MainLoop.goTo, MainLoop.terminate, if_pos hpool] at hle
  have hfreed := h.freed hpool hflag
  omega

/-- On the way to the primary socket the worker calls `accept` on it when it is closed. -/
theorem not_cleanStop_atServer (h : s.phase.AtServer) :
    ∃ s'', MainStep threadpool_size nonblocking
      ((s.terminate threadpool_size).goTo s.phase.interrupted) .go s'' ∧ ¬ CleanStop s'' := by
  obtain ⟨socks, hphase, hserver⟩ := interrupted_of_atServer h
  have hclosed : (s.terminate threadpool_size).server_open = false := by
    have hstarted : s.phase ≠ .starting := by
      intro hphase
      rw [hphase] at h
      exact h
    rw [MainLoop.terminate, if_neg hstarted]
  refine ⟨_, .acceptClosed hphase (acceptSocket_eq_server.mpr hserver) hclosed, fun hclean => ?_⟩
  exact absurd hclean.closed_accepts (Nat.succ_ne_zero _)

/-- A step that is not harmless ends the clean stop, at the latest with the next step. -/
theorem not_cleanStop_of_not_harmless (h : Flagged threadpool_size s)
    (hnot : ¬ e.Harmless threadpool_size s) (hstep : MainStep threadpool_size nonblocking s e s') :
    ∃ s'', (s'' = s' ∨ MainStep threadpool_size nonblocking s' .go s'') ∧ ¬ CleanStop s'' := by
  cases hstep with
  | sigterm =>
      by_cases hserver : s.phase.AtServer
      · obtain ⟨s'', hnext, hbad⟩ := not_cleanStop_atServer hserver
        exact ⟨s'', Or.inr hnext, hbad⟩
      · have hagain : threadpool_size > 0 ∧ s.worker_must_terminate = true := by
          simpa [MainEvent.Harmless, hserver] using hnot
        exact ⟨_, Or.inl rfl, not_cleanStop_terminate h hagain.1 hagain.2 _⟩
  | kill hphase =>
      have hpool : threadpool_size > 0 := not_not.mp hnot
      exact ⟨_, Or.inl rfl, not_cleanStop_terminate h hpool (h.left hphase) _⟩
  | _ => exact absurd trivial hnot

/-- **When a worker stops cleanly.**  In every run whose steps are harmless the pool is freed
at most once and `accept` is not called on the closed primary socket; and a step of any run
that is not harmless leads, at the latest with the next step, to a state where that fails. -/
theorem worker_stops (threadpool_size : ℤ) (nonblocking : Bool) :
    (∀ s, (stopSystem threadpool_size nonblocking).Reach
        (fun s e => e.Harmless threadpool_size s) s → CleanStop s) ∧
      ∀ s e s', (stopSystem threadpool_size nonblocking).Reachable s →
        (stopSystem threadpool_size nonblocking).step s e s' →
        ¬ e.Harmless threadpool_size s →
        ∃ s'', (s'' = s' ∨ (stopSystem threadpool_size nonblocking).step s' .go s'') ∧
          ¬ CleanStop s'' := by
  constructor
  · intro s hs
    apply InOrder.cleanStop
    apply hs.invariant (I := InOrder threadpool_size)
    · rintro _ rfl
      exact ⟨by simp, rfl, by simp, by simp, by simp⟩
    · intro s e s' h hharmless hstep
      exact inOrder_step h hharmless hstep
  · intro s e s' hs hstep hnot
    exact not_cleanStop_of_not_harmless (flagged_of_reachable hs) hnot hstep

/-- The start of every run, up to the first test of the flag. -/
theorem reach_testing (threadpool_size : ℤ) (nonblocking : Bool)
    {ok : MainLoop → MainEvent → Prop} (hok : ∀ s, ok s .go) :
    (stopSystem threadpool_size nonblocking).Reach ok ⟨.testing, false, true, 0, 0⟩ := by
  have hstart : (stopSystem threadpool_size nonblocking).Reach ok ⟨.starting, false, true, 0, 0⟩ :=
    System.Reach.init rfl
  have hsocket := hstart.step (hok _) (MainStep.getSocket rfl)
  exact hsocket.step (hok _) (MainStep.listen rfl rfl)

theorem running_testing : StopPhase.Running .testing := by
  constructor <;> simp

/-- Without a thread pool: a SIGTERM in front of the test, and the one the worker sends. -/
theorem worker_stops_without_pool : CleanStop ⟨.returned, true, false, 0, 0⟩ := by
  apply (worker_stops 0 true).1
  have htesting : (stopSystem 0 true).Reach (fun s e => e.Harmless 0 s) _ :=
    reach_testing 0 true fun _ => trivial
  have hsafe : MainEvent.Harmless 0 ⟨.testing, false, true, 0, 0⟩ .sigterm :=
    ⟨id, fun hpool => absurd hpool (by decide)⟩
  have hflagged : (stopSystem 0 true).Reach (fun s e => e.Harmless 0 s)
      ⟨.testing, true, false, 0, 0⟩ := htesting.step hsafe (MainStep.sigterm running_testing)
  have hleft : (stopSystem 0 true).Reach (fun s e => e.Harmless 0 s) ⟨.left, true, false, 0, 0⟩ :=
    hflagged.step (a := MainEvent.go) trivial (MainStep.leave rfl rfl)
  have hown : MainEvent.Harmless 0 ⟨.left, true, false, 0, 0⟩ .kill := by
    show ¬ (0 : ℤ) > 0
    omega
  exact hleft.step hown (MainStep.kill rfl)

/-- With a thread pool one SIGTERM is enough for a second `threadpool_free`. -/
theorem not_worker_stops : ¬ ∀ s, (stopSystem 1 true).Reachable s → CleanStop s := by
  intro h
  have htesting : (stopSystem 1 true).Reachable _ := reach_testing 1 true fun _ => trivial
  have hflagged := htesting.step (MainStep.sigterm running_testing)
  have hleft := hflagged.step (MainStep.leave rfl rfl)
  have hreturned := hleft.step (MainStep.kill rfl)
  exact absurd (h _ hreturned).pool_frees (by decide)

end Trapd
