/-
# The main loop of several workers (`worker.c`)

All workers accept from the primary socket, each also from a private socket of its own.
Only the loop's `select` and `accept` are modelled, one step each, the workers taking turns
in any order; what is done with a connection is the subject of `Worker`.

**Main result:** `workers_survive`: no worker dies in a run in which no `select` is
interrupted and no `accept` empties the primary socket under another worker that is about to
accept from it, and every other step leads to a worker's death.
-/
import Mathlib.Logic.Function.Basic
import NagiosTrapd.Transition
import NagiosTrapd.Util

namespace Trapd

open Transition

/-! ## The loop of one worker -/

/-- `socket_set_nonblocking`: whether the flag is set, by the option of this name. -/
def socketSetNonblocking (option : Str) : Bool := option = "true".toList

/-- A listening socket: `server_sckt`, or the `private_s` of a worker. -/
inductive ListenSocket (Worker : Type*)
  | server_sckt
  | private_s (w : Worker)
  deriving DecidableEq

/-- An `fd_set`, as far as a worker uses it: its bits for `server_sckt` and `private_s`. -/
structure FdSet where
  server_sckt : Bool
  private_s : Bool
  deriving DecidableEq, Repr

variable {Worker : Type*}

/-- `FD_ISSET`. -/
def FdSet.Mem (socks : FdSet) : ListenSocket Worker → Prop
  | .server_sckt => socks.server_sckt = true
  | .private_s _ => socks.private_s = true

/-- The set that `select` is called with. -/
def FdSet.watched : FdSet := ⟨true, true⟩

/-- The set without sockets, which `FD_ZERO` makes. -/
def FdSet.zero : FdSet := ⟨false, false⟩

/-- The socket on which `accept` is called. -/
def acceptSocket (w : Worker) (socks : FdSet) : Option (ListenSocket Worker) :=
  if socks.server_sckt then some .server_sckt
  else if socks.private_s then some (.private_s w)
  else none

/-- Where a worker is in its loop: in front of or in `select`, or behind it with the set
that `select` has left and the sockets it has reported; or it has called `log_critical`. -/
inductive LoopPhase
  | selecting
  | accepting (socks reported : FdSet)
  | critical
  deriving DecidableEq, Repr

/-! ## All workers -/

/-- The connections that wait at each socket, and where each worker is. -/
structure Workers (Worker : Type*) where
  pending : ListenSocket Worker → ℕ
  phase : Worker → LoopPhase

/-- What can happen. -/
inductive LoopEvent (Worker : Type*)
  /-- A client connects. -/
  | connect (k : ListenSocket Worker)
  /-- `select` returns. -/
  | select (w : Worker) (socks : FdSet)
  /-- SIGHUP is delivered, and interrupts `select` or not. -/
  | sighup (w : Worker) (interrupts : Bool)
  /-- `accept` returns. -/
  | accept (w : Worker)

variable [DecidableEq Worker]

/-- One more connection waits. -/
def Workers.enqueue (s : Workers Worker) (k : ListenSocket Worker) : Workers Worker :=
  { s with pending := Function.update s.pending k (s.pending k + 1) }

/-- One connection less waits. -/
def Workers.dequeue (s : Workers Worker) (k : ListenSocket Worker) : Workers Worker :=
  { s with pending := Function.update s.pending k (s.pending k - 1) }

/-- A worker goes on. -/
def Workers.goTo (s : Workers Worker) (w : Worker) (p : LoopPhase) : Workers Worker :=
  { s with phase := Function.update s.phase w p }

/-- One step. -/
inductive LoopStep (nonblocking : Bool) :
    Workers Worker → LoopEvent Worker → Workers Worker → Prop
  | connect {s : Workers Worker} (k : ListenSocket Worker) :
      LoopStep nonblocking s (.connect k) (s.enqueue k)
  /-- `select` reports sockets at which connections wait, at least one. -/
  | select {s : Workers Worker} {w : Worker} {socks : FdSet} (hphase : s.phase w = .selecting)
      (hserver : socks.server_sckt → 0 < s.pending .server_sckt)
      (hprivate : socks.private_s → 0 < s.pending (.private_s w)) (hsome : socks ≠ .zero) :
      LoopStep nonblocking s (.select w socks) (s.goTo w (.accepting socks socks))
  /-- The handler dumps the diagnostics; where it has interrupted `select`, the loop goes on
  with the set that `select` was called with. -/
  | interrupt {s : Workers Worker} {w : Worker} (hphase : s.phase w = .selecting) :
      LoopStep nonblocking s (.sighup w true) (s.goTo w (.accepting .watched .zero))
  | sighup {s : Workers Worker} (w : Worker) : LoopStep nonblocking s (.sighup w false) s
  | accept {s : Workers Worker} {w : Worker} {socks reported : FdSet} {k : ListenSocket Worker}
      (hphase : s.phase w = .accepting socks reported) (hsocket : acceptSocket w socks = some k)
      (hpending : 0 < s.pending k) :
      LoopStep nonblocking s (.accept w) ((s.dequeue k).goTo w .selecting)
  /-- Without a connection a blocking `accept` waits, a nonblocking one returns -1. -/
  | acceptNothing {s : Workers Worker} {w : Worker} {socks reported : FdSet}
      {k : ListenSocket Worker} (hphase : s.phase w = .accepting socks reported)
      (hsocket : acceptSocket w socks = some k) (hpending : s.pending k = 0)
      (hnonblocking : nonblocking = true) :
      LoopStep nonblocking s (.accept w) (s.goTo w .critical)
  /-- No bit is set: `client_s` is still -1. -/
  | noSocket {s : Workers Worker} {w : Worker} {socks reported : FdSet}
      (hphase : s.phase w = .accepting socks reported) (hsocket : acceptSocket w socks = none) :
      LoopStep nonblocking s (.accept w) (s.goTo w .critical)

/-- The workers in front of their first `select`, no connection waiting. -/
def workersSystem (Worker : Type*) [DecidableEq Worker] (nonblocking : Bool) :
    System (Workers Worker) (LoopEvent Worker) where
  init := (· = ⟨fun _ => 0, fun _ => .selecting⟩)
  step := LoopStep nonblocking

/-- No worker has called `log_critical`, and each that is behind its `select` calls `accept`
on a socket that this `select` has reported. -/
structure Alive (s : Workers Worker) : Prop where
  not_critical : ∀ w, s.phase w ≠ .critical
  reported : ∀ w socks reported, s.phase w = .accepting socks reported →
    ∃ k, acceptSocket w socks = some k ∧ reported.Mem k

/-- A worker is about to accept from the primary socket. -/
def LoopPhase.AtServer : LoopPhase → Prop
  | .accepting socks _ => socks.server_sckt = true
  | _ => False

/-- The step interrupts no `select`, and does not take the last connection of the primary
socket while another worker is about to accept from it. -/
def LoopEvent.Careful (s : Workers Worker) : LoopEvent Worker → Prop
  | .sighup _ interrupts => interrupts = false
  | .accept w => (s.phase w).AtServer → s.pending .server_sckt = 1 →
      ∀ v, (s.phase v).AtServer → v = w
  | _ => True

/-! ## The socket of `accept` -/

omit [DecidableEq Worker]

theorem mem_of_acceptSocket {w : Worker} {socks : FdSet} {k : ListenSocket Worker}
    (h : acceptSocket w socks = some k) : socks.Mem k := by
  unfold acceptSocket at h
  split_ifs at h with hserver hprivate
  · cases h
    exact hserver
  · cases h
    exact hprivate

theorem acceptSocket_eq_server {w : Worker} {socks : FdSet} :
    acceptSocket w socks = some .server_sckt ↔ socks.server_sckt = true := by
  unfold acceptSocket
  split_ifs <;> simp_all

/-- A private socket is accepted from by its owner only. -/
theorem eq_of_acceptSocket_private {v w : Worker} {socks : FdSet}
    (h : acceptSocket w socks = some (.private_s v)) : v = w := by
  unfold acceptSocket at h
  split_ifs at h
  · cases h
  · cases h
    rfl

/-- Where a bit is set there is a socket to accept from. -/
theorem exists_acceptSocket {socks : FdSet} (h : socks ≠ .zero) (w : Worker) :
    ∃ k, acceptSocket w socks = some k := by
  obtain ⟨_ | _, _ | _⟩ := socks
  · exact absurd rfl h
  · exact ⟨.private_s w, rfl⟩
  · exact ⟨.server_sckt, rfl⟩
  · exact ⟨.server_sckt, rfl⟩

/-! ## Runs -/

/-- The worker can go on: behind `select` it has left the set as reported, and a connection
waits at the socket that it is about to accept from. -/
def Workers.Ready (s : Workers Worker) (w : Worker) : Prop :=
  match s.phase w with
  | .selecting => True
  | .accepting socks reported =>
      reported = socks ∧ ∃ k, acceptSocket w socks = some k ∧ 0 < s.pending k
  | .critical => False

/-- What a ready worker behind `select` does next. -/
theorem Workers.Ready.accepting {s : Workers Worker} {w : Worker} (h : s.Ready w)
    {socks reported : FdSet} (hphase : s.phase w = .accepting socks reported) :
    reported = socks ∧ ∃ k, acceptSocket w socks = some k ∧ 0 < s.pending k := by
  rwa [Workers.Ready, hphase] at h

theorem alive_of_ready {s : Workers Worker} (h : ∀ w, s.Ready w) : Alive s where
  not_critical w hw := by
    have hready := h w
    rwa [Workers.Ready, hw] at hready
  reported w socks reported hw := by
    obtain ⟨rfl, k, hk, -⟩ := (h w).accepting hw
    exact ⟨k, hk, mem_of_acceptSocket hk⟩

variable [DecidableEq Worker] {s s' : Workers Worker} {e : LoopEvent Worker} {nonblocking : Bool}

theorem ready_goTo_self {w : Worker} {p : LoopPhase} :
    (s.goTo w p).Ready w ↔ match p with
      | .selecting => True
      | .accepting socks reported =>
          reported = socks ∧ ∃ k, acceptSocket w socks = some k ∧ 0 < s.pending k
      | .critical => False := by
  simp only [Workers.Ready, Workers.goTo, Function.update_self]

theorem ready_goTo_of_ne {v w : Worker} {p : LoopPhase} (h : v ≠ w) :
    (s.goTo w p).Ready v ↔ s.Ready v := by
  simp only [Workers.Ready, Workers.goTo, Function.update_of_ne h]

omit [DecidableEq Worker] in
/-- A worker stays ready where a connection is left at the socket it accepts from. -/
theorem ready_of_pending {v : Worker} (h : s.Ready v) (hphase : s'.phase v = s.phase v)
    (hpending : ∀ socks reported k, s.phase v = .accepting socks reported →
      acceptSocket v socks = some k → 0 < s.pending k → 0 < s'.pending k) : s'.Ready v := by
  unfold Workers.Ready
  rw [hphase]
  cases hv : s.phase v with
  | selecting => trivial
  | critical =>
      rw [Workers.Ready, hv] at h
      exact h
  | accepting socks reported =>
      obtain ⟨hreported, k, hk, hpos⟩ := h.accepting hv
      exact ⟨hreported, k, hk, hpending socks reported k hv hk hpos⟩

theorem ready_enqueue {v : Worker} (h : s.Ready v) (k : ListenSocket Worker) :
    (s.enqueue k).Ready v := by
  refine ready_of_pending h rfl ?_
  intro _ _ k' _ _ hpos
  show 0 < Function.update s.pending k (s.pending k + 1) k'
  by_cases hk : k' = k
  · subst hk
    rw [Function.update_self]
    omega
  · rwa [Function.update_of_ne hk]

/-- A socket that `select` has reported has a connection for the worker. -/
theorem ready_select {w : Worker} {socks : FdSet}
    (hserver : socks.server_sckt → 0 < s.pending .server_sckt)
    (hprivate : socks.private_s → 0 < s.pending (.private_s w)) (hsome : socks ≠ .zero) :
    (s.goTo w (.accepting socks socks)).Ready w := by
  obtain ⟨k, hk⟩ := exists_acceptSocket hsome w
  refine ready_goTo_self.mpr ⟨rfl, k, hk, ?_⟩
  have hmem := mem_of_acceptSocket hk
  cases k with
  | server_sckt => exact hserver hmem
  | private_s u =>
      obtain rfl := eq_of_acceptSocket_private hk
      exact hprivate hmem

/-- **A careful `accept` leaves the others ready**: the socket that it shares with another
worker is the primary one, and has a second connection. -/
theorem ready_dequeue {v w : Worker} {socks reported : FdSet} {k : ListenSocket Worker}
    (h : s.Ready v) (hne : v ≠ w) (hcareful : LoopEvent.Careful s (.accept w))
    (hphase : s.phase w = .accepting socks reported) (hsocket : acceptSocket w socks = some k) :
    (s.dequeue k).Ready v := by
  refine ready_of_pending h rfl ?_
  intro socks' reported' k' hphase' hsocket' hpos
  show 0 < Function.update s.pending k (s.pending k - 1) k'
  by_cases hk : k' = k
  · subst hk
    rw [Function.update_self]
    cases k' with
    | private_s u =>
        rw [eq_of_acceptSocket_private hsocket] at hsocket'
        exact absurd (eq_of_acceptSocket_private hsocket').symm hne
    | server_sckt =>
        have hlast : s.pending .server_sckt ≠ 1 := fun hone =>
          hne (hcareful (by rw [hphase]; exact acceptSocket_eq_server.mp hsocket) hone v
            (by rw [hphase']; exact acceptSocket_eq_server.mp hsocket'))
        omega
  · rwa [Function.update_of_ne hk]

/-- **A careful step keeps every worker ready.** -/
theorem ready_step (h : ∀ w, s.Ready w) (hcareful : e.Careful s)
    (hstep : LoopStep nonblocking s e s') : ∀ w, s'.Ready w := by
  intro v
  cases hstep with
  | connect k => exact ready_enqueue (h v) k
  | @select w socks hphase hserver hprivate hsome =>
      by_cases hv : v = w
      · subst hv
        exact ready_select hserver hprivate hsome
      · exact (ready_goTo_of_ne hv).mpr (h v)
  | interrupt => exact absurd hcareful Bool.true_eq_false.mp
  | sighup w => exact h v
  | @accept w socks reported k hphase hsocket hpending =>
      by_cases hv : v = w
      · subst hv
        exact ready_goTo_self.mpr trivial
      · exact (ready_goTo_of_ne hv).mpr (ready_dequeue (h v) hv hcareful hphase hsocket)
  | @acceptNothing w socks reported k hphase hsocket hpending =>
      obtain ⟨-, k', hk', hpos⟩ := (h w).accepting hphase
      obtain rfl := Option.some_inj.mp (hsocket.symm.trans hk')
      omega
  | @noSocket w socks reported hphase hsocket =>
      obtain ⟨-, k', hk', -⟩ := (h w).accepting hphase
      exact absurd (hsocket.symm.trans hk') (Option.some_ne_none k').symm

theorem not_alive_critical (s : Workers Worker) (w : Worker) : ¬ Alive (s.goTo w .critical) := by
  intro h
  exact h.not_critical w (Function.update_self ..)

/-- A step that is not careful interrupts a `select`, which has reported nothing, or leaves
another worker without a connection, which dies of it. -/
theorem not_alive_of_not_careful (hnot : ¬ e.Careful s) (hstep : LoopStep true s e s') :
    ∃ s'', (s'' = s' ∨ ∃ w, LoopStep true s' (.accept w) s'') ∧ ¬ Alive s'' := by
  cases hstep with
  | connect k => exact absurd trivial hnot
  | select => exact absurd trivial hnot
  | sighup w => exact absurd rfl hnot
  | @interrupt w hphase =>
      refine ⟨_, .inl rfl, fun halive => ?_⟩
      obtain ⟨k, hk, hreported⟩ := halive.reported w .watched .zero (Function.update_self ..)
      obtain rfl : .server_sckt = k := Option.some.inj hk
      exact absurd hreported Bool.false_ne_true
  | @accept w socks reported k hphase hsocket hpending =>
      simp only [LoopEvent.Careful, not_forall] at hnot
      obtain ⟨hserver, hone, v, hv, hne⟩ := hnot
      rw [hphase] at hserver
      obtain rfl : k = .server_sckt :=
        Option.some_inj.mp (hsocket.symm.trans (acceptSocket_eq_server.mpr hserver))
      -- the connection is gone when `v` calls `accept`
      refine ⟨((s.dequeue .server_sckt).goTo w .selecting).goTo v .critical, .inr ⟨v, ?_⟩,
        not_alive_critical _ v⟩
      cases hphase' : s.phase v with
      | selecting => rw [hphase'] at hv; exact hv.elim
      | critical => rw [hphase'] at hv; exact hv.elim
      | accepting socks' reported' =>
          rw [hphase'] at hv
          have hempty : ((s.dequeue .server_sckt).goTo w .selecting).pending .server_sckt = 0 := by
            show Function.update s.pending .server_sckt (s.pending .server_sckt - 1)
              .server_sckt = 0
            rw [Function.update_self, hone]
          have hstill : ((s.dequeue .server_sckt).goTo w .selecting).phase v
              = .accepting socks' reported' :=
            (Function.update_of_ne hne ..).trans hphase'
          exact .acceptNothing hstill (acceptSocket_eq_server.mpr hv) hempty rfl
  | @acceptNothing w => exact ⟨_, .inl rfl, not_alive_critical _ w⟩
  | @noSocket w => exact ⟨_, .inl rfl, not_alive_critical _ w⟩

/-- **When workers survive.**  In every run whose steps are careful all workers stay alive;
and a step of any run that is not careful leads, at the latest with the next `accept`, to a
state in which they are not. -/
theorem workers_survive (Worker : Type*) [DecidableEq Worker] :
    (∀ s, (workersSystem Worker (socketSetNonblocking "true".toList)).Reach
        (fun s e => e.Careful s) s → Alive s) ∧
      ∀ s e s', (workersSystem Worker (socketSetNonblocking "true".toList)).Reachable s →
        (workersSystem Worker (socketSetNonblocking "true".toList)).step s e s' → ¬ e.Careful s →
        ∃ s'', (s'' = s' ∨ ∃ w, (workersSystem Worker (socketSetNonblocking "true".toList)).step
          s' (.accept w) s'') ∧ ¬ Alive s'' := by
  constructor
  · intro s hs
    apply alive_of_ready
    apply hs.invariant (I := fun s => ∀ w, s.Ready w)
    · rintro _ rfl w
      exact trivial
    · intro s e s' h hcareful hstep
      exact ready_step h hcareful hstep
  · intro s e s' _ hstep hnot
    exact not_alive_of_not_careful hnot hstep

/-- A worker alone, after a client has connected and `select` has returned. -/
theorem workers_survive_one : Alive
    (((⟨fun _ => 0, fun _ => .selecting⟩ : Workers Unit).enqueue .server_sckt).goTo ()
      (.accepting ⟨true, false⟩ ⟨true, false⟩)) := by
  apply (workers_survive Unit).1
  have hidle : (workersSystem Unit (socketSetNonblocking "true".toList)).Reach
      (fun s e => e.Careful s) ⟨fun _ => 0, fun _ => .selecting⟩ := System.Reach.init rfl
  have hconnected := hidle.step (a := LoopEvent.connect .server_sckt) trivial (LoopStep.connect _)
  apply hconnected.step (a := LoopEvent.select () ⟨true, false⟩) trivial
  apply LoopStep.select rfl
  · exact fun _ => Nat.one_pos
  · exact fun h => absurd h Bool.false_ne_true
  · decide

/-- A worker that waits in `select`, no client being there, dies of a SIGHUP. -/
theorem not_workers_survive :
    ¬ ∀ s, (workersSystem Unit (socketSetNonblocking "true".toList)).Reachable s → Alive s := by
  intro h
  apply not_alive_critical _ ()
  apply h
  have hidle : (workersSystem Unit (socketSetNonblocking "true".toList)).Reachable
      ⟨fun _ => 0, fun _ => .selecting⟩ := System.Reachable.init rfl
  have hinterrupted := hidle.step (LoopStep.interrupt (w := ()) rfl)
  exact hinterrupted.step (LoopStep.acceptNothing rfl rfl rfl rfl)

end Trapd
