/-
# Sections guarded by a record lock and a stream lock

A small library about two nested locks of different scope.  Threads belong to
processes.  A record lock on a file belongs to a process and is not counted: a
second request of the same process succeeds at once, and one release drops it.  A
stream lock belongs to a thread and excludes only threads of the same process, each
process having a stream of its own for the file.

A guarded section takes the record lock, then the stream lock, writes, and gives both
up in reverse order.  Two threads of one process can overlap so that the first to
finish drops the record lock under the other (`State.Drops`); `exclusive_of_not_drops`
says that nothing else lets two threads between taking and giving up the stream lock,
and `exclusive_iff` which assignments of threads to processes rule it out.
-/
import Mathlib.Logic.Function.Basic
import Mathlib.Tactic

namespace FileLocks

/-! ## Operations and states -/

/-- What a thread does with a file. -/
inductive Op (File Data : Type*)
  | lockRecord (f : File)
  | lockStream (f : File)
  | write (f : File) (d : Data)
  | unlockStream (f : File)
  | unlockRecord (f : File)

/-- What is left to do for every thread, the process that holds the record lock of a
file, and the thread that holds the stream lock of a file in a process. -/
structure State (Thread Proc File Data : Type*) where
  todo : Thread → List (Op File Data)
  record : File → Option Proc
  stream : File → Proc → Option Thread

variable {Thread Proc File Data : Type*}

/-- All threads idle, all locks free. -/
def State.init : State Thread Proc File Data :=
  ⟨fun _ => [], fun _ => none, fun _ _ => none⟩

/-- A thread is between taking and giving up the stream lock of a file. -/
def State.Inside (s : State Thread Proc File Data) (f : File) (t : Thread) : Prop :=
  .unlockStream f ∈ s.todo t ∧ .lockStream f ∉ s.todo t

/-- A thread is between taking the record lock of a file and giving up its stream
lock. -/
def State.Holding (s : State Thread Proc File Data) (f : File) (t : Thread) : Prop :=
  .unlockStream f ∈ s.todo t ∧ .lockRecord f ∉ s.todo t

/-- At most one thread is between taking and giving up the stream lock of a file. -/
def State.Exclusive (s : State Thread Proc File Data) (f : File) : Prop :=
  ∀ t u, s.Inside f t → s.Inside f u → t = u

/-- The next operation of a thread gives up the record lock of a file while another
thread of its process relies on the lock to keep other processes out. -/
def State.Drops (proc : Thread → Proc) (s : State Thread Proc File Data) (f : File)
    (t : Thread) : Prop :=
  (∃ ops, s.todo t = .unlockRecord f :: ops) ∧
    (∃ u, u ≠ t ∧ proc u = proc t ∧ s.Holding f u) ∧ ∃ v, proc v ≠ proc t

/-- A guarded section. -/
def guarded (f : File) (d : Data) : List (Op File Data) :=
  [.lockRecord f, .lockStream f, .write f d, .unlockStream f, .unlockRecord f]

/-- Every call in a set is a guarded section, or does nothing. -/
def Guarded (calls : Set (List (Op File Data))) : Prop :=
  ∀ ops ∈ calls, ops = [] ∨ ∃ f d, ops = guarded f d

/-- Every thread is idle or somewhere in a guarded section. -/
def State.WellPlaced (s : State Thread Proc File Data) : Prop :=
  ∀ t, s.todo t = [] ∨ ∃ f d, s.todo t <:+ guarded f d

variable {proc : Thread → Proc} {calls : Set (List (Op File Data))}
  {s s' : State Thread Proc File Data}

/-- A stream lock is held by the thread of the process that is inside. -/
def State.StreamHeld (proc : Thread → Proc) (s : State Thread Proc File Data) : Prop :=
  ∀ f p t, s.stream f p = some t ↔ s.Inside f t ∧ proc t = p

/-- While a thread needs it, its process holds the record lock. -/
def State.RecordHeld (proc : Thread → Proc) (s : State Thread Proc File Data) (f : File) :
    Prop :=
  ∀ t, s.Holding f t → s.record f = some (proc t)

/-! ## Places in a section -/

/-- A thread `k` operations into a section is inside behind the second and the third. -/
theorem State.inside_iff {f g : File} {d : Data} {t : Thread} {k : ℕ}
    (htodo : s.todo t = (guarded f d).drop k) : s.Inside g t ↔ g = f ∧ (k = 2 ∨ k = 3) := by
  rcases k with _ | _ | _ | _ | _ | k
  all_goals simp [State.Inside, htodo, guarded]

/-- It relies on the record lock behind the first as well. -/
theorem State.holding_iff {f g : File} {d : Data} {t : Thread} {k : ℕ}
    (htodo : s.todo t = (guarded f d).drop k) :
    s.Holding g t ↔ g = f ∧ (k = 1 ∨ k = 2 ∨ k = 3) := by
  rcases k with _ | _ | _ | _ | _ | k
  all_goals simp [State.Holding, htodo, guarded]

/-- A thread inside relies on the record lock. -/
theorem State.Inside.holding {f : File} {t : Thread} (h : s.Inside f t)
    (hs : s.WellPlaced) : s.Holding f t := by
  obtain hidle | ⟨g, d, hsuffix⟩ := hs t
  · simp [State.Inside, hidle] at h
  · obtain ⟨front, hsplit⟩ := hsuffix
    have htodo : s.todo t = (guarded g d).drop front.length := by
      rw [← hsplit, List.drop_left]
    obtain ⟨hg, hk⟩ := (State.inside_iff htodo).mp h
    exact (State.holding_iff htodo).mpr ⟨hg, .inr hk⟩

/-- Where each process has one thread, or there is one process, no step drops a record
lock under a thread. -/
theorem not_drops_of_procs {f : File} (s : State Thread Proc File Data) (t : Thread)
    (hprocs : Function.Injective proc ∨ ∀ t u, proc t = proc u) : ¬ s.Drops proc f t := by
  rintro ⟨-, ⟨u, hut, hproc, -⟩, v, hv⟩
  obtain hinjective | hone := hprocs
  · exact hut (hinjective hproc)
  · exact hv (hone v t)

/-! ## Updates of a state -/

section Todo

variable [DecidableEq Thread]

/-- Set what is left to do for a thread. -/
def State.setTodo (s : State Thread Proc File Data) (t : Thread) (ops : List (Op File Data)) :
    State Thread Proc File Data :=
  { s with todo := Function.update s.todo t ops }

@[simp]
theorem State.setTodo_todo_self (s : State Thread Proc File Data)
    (t : Thread) (ops : List (Op File Data)) :
    (s.setTodo t ops).todo t = ops :=
  Function.update_self ..

@[simp]
theorem State.setTodo_todo_of_ne (s : State Thread Proc File Data)
    {t u : Thread} (ops : List (Op File Data)) (h : u ≠ t) :
    (s.setTodo t ops).todo u = s.todo u :=
  Function.update_of_ne h ..

@[simp]
theorem State.setTodo_record (s : State Thread Proc File Data)
    (t : Thread) (ops : List (Op File Data)) :
    (s.setTodo t ops).record = s.record := rfl

@[simp]
theorem State.setTodo_stream (s : State Thread Proc File Data)
    (t : Thread) (ops : List (Op File Data)) :
    (s.setTodo t ops).stream = s.stream := rfl

theorem State.WellPlaced.start {t : Thread} {ops : List (Op File Data)} (hs : s.WellPlaced)
    (hcalls : Guarded calls) (hops : ops ∈ calls) : (s.setTodo t ops).WellPlaced := by
  intro u
  by_cases hu : u = t
  · subst hu
    rw [State.setTodo_todo_self]
    exact (hcalls ops hops).imp id fun ⟨f, d, h⟩ => ⟨f, d, h ▸ List.suffix_rfl⟩
  · rw [State.setTodo_todo_of_ne _ _ hu]
    exact hs u

/-- A thread that starts a call is not inside, -/
theorem State.inside_start {t : Thread} {ops : List (Op File Data)} (hcalls : Guarded calls)
    (hops : ops ∈ calls) (hidle : s.todo t = []) (f : File) (u : Thread) :
    (s.setTodo t ops).Inside f u ↔ s.Inside f u := by
  by_cases hu : u = t
  · subst hu
    obtain rfl | ⟨g, d, rfl⟩ := hcalls ops hops
    · simp [State.Inside, hidle]
    · simp [State.Inside, hidle, guarded]
  · rw [State.Inside, State.Inside, State.setTodo_todo_of_ne _ _ hu]

/-- and does not rely on a record lock. -/
theorem State.holding_start {t : Thread} {ops : List (Op File Data)} (hcalls : Guarded calls)
    (hops : ops ∈ calls) (hidle : s.todo t = []) (f : File) (u : Thread) :
    (s.setTodo t ops).Holding f u ↔ s.Holding f u := by
  by_cases hu : u = t
  · subst hu
    obtain rfl | ⟨g, d, rfl⟩ := hcalls ops hops
    · simp [State.Holding, hidle]
    · simp [State.Holding, hidle, guarded]
  · rw [State.Holding, State.Holding, State.setTodo_todo_of_ne _ _ hu]

end Todo

section Locks

variable [DecidableEq File]

/-- Set the process that holds a record lock. -/
def State.setRecord (s : State Thread Proc File Data) (f : File) (holder : Option Proc) :
    State Thread Proc File Data :=
  { s with record := Function.update s.record f holder }

@[simp]
theorem State.setRecord_todo (s : State Thread Proc File Data) (f : File) (holder : Option Proc) :
    (s.setRecord f holder).todo = s.todo := rfl

theorem State.setRecord_record (s : State Thread Proc File Data)
    (f g : File) (holder : Option Proc) :
    (s.setRecord f holder).record g = if g = f then holder else s.record g :=
  Function.update_apply ..

@[simp]
theorem State.setRecord_stream (s : State Thread Proc File Data)
    (f : File) (holder : Option Proc) :
    (s.setRecord f holder).stream = s.stream := rfl

variable [DecidableEq Proc]

/-- Set the thread that holds a stream lock in a process. -/
def State.setStream (s : State Thread Proc File Data) (f : File) (p : Proc)
    (holder : Option Thread) : State Thread Proc File Data :=
  { s with stream := Function.update s.stream f (Function.update (s.stream f) p holder) }

@[simp]
theorem State.setStream_todo (s : State Thread Proc File Data)
    (f : File) (p : Proc) (holder : Option Thread) :
    (s.setStream f p holder).todo = s.todo := rfl

@[simp]
theorem State.setStream_record (s : State Thread Proc File Data)
    (f : File) (p : Proc) (holder : Option Thread) :
    (s.setStream f p holder).record = s.record := rfl

theorem State.setStream_stream (s : State Thread Proc File Data)
    (f g : File) (p q : Proc) (holder : Option Thread) :
    (s.setStream f p holder).stream g q = if g = f ∧ q = p then holder else s.stream g q := by
  by_cases hfile : g = f
  · subst hfile
    simp [State.setStream, Function.update_apply]
  · simp [State.setStream, hfile]

end Locks

/-! ## Steps -/

variable [DecidableEq Thread] [DecidableEq Proc] [DecidableEq File]

/-- The effect of an operation on the locks; `none` where the thread has to wait. -/
def perform (proc : Thread → Proc) (s : State Thread Proc File Data) (t : Thread) :
    Op File Data → Option (State Thread Proc File Data)
  | .lockRecord f =>
      -- a second request of the same process succeeds at once
      if s.record f = none ∨ s.record f = some (proc t) then
        some (s.setRecord f (some (proc t)))
      else none
  | .lockStream f =>
      if s.stream f (proc t) = none then some (s.setStream f (proc t) (some t)) else none
  | .write _ _ => some s
  | .unlockStream f => some (s.setStream f (proc t) none)
  | .unlockRecord f =>
      -- one release drops the lock of the process, however often it was taken
      if s.record f = some (proc t) then some (s.setRecord f none) else some s

/-- A thread performs its next operation. -/
def step (proc : Thread → Proc) (s : State Thread Proc File Data) (t : Thread) :
    Option (State Thread Proc File Data) :=
  match s.todo t with
  | [] => none
  | op :: ops => (perform proc s t op).map fun s' => s'.setTodo t ops

/-- The states reached when idle threads start calls and threads perform their
operations, in any order; a thread is let step only where `ok` allows it. -/
inductive Reachable (proc : Thread → Proc) (calls : Set (List (Op File Data)))
    (ok : State Thread Proc File Data → Thread → Prop) : State Thread Proc File Data → Prop
  | init : Reachable proc calls ok .init
  | start {s : State Thread Proc File Data} {t : Thread} {ops : List (Op File Data)}
      (h : Reachable proc calls ok s) (hidle : s.todo t = []) (hops : ops ∈ calls) :
      Reachable proc calls ok (s.setTodo t ops)
  | step {s s' : State Thread Proc File Data} {t : Thread} (h : Reachable proc calls ok s)
      (hok : ok s t) (hstep : step proc s t = some s') : Reachable proc calls ok s'

/-- What a step of a thread in a guarded section does. -/
inductive Stepped (proc : Thread → Proc) (s s' : State Thread Proc File Data) (t : Thread) :
    Prop
  | lockRecord (f : File) (d : Data) (htodo : s.todo t = (guarded f d).drop 0)
      (hfree : s.record f = none ∨ s.record f = some (proc t))
      (hs' : s' = (s.setRecord f (some (proc t))).setTodo t ((guarded f d).drop 1))
  | lockStream (f : File) (d : Data) (htodo : s.todo t = (guarded f d).drop 1)
      (hfree : s.stream f (proc t) = none)
      (hs' : s' = (s.setStream f (proc t) (some t)).setTodo t ((guarded f d).drop 2))
  | write (f : File) (d : Data) (htodo : s.todo t = (guarded f d).drop 2)
      (hs' : s' = s.setTodo t ((guarded f d).drop 3))
  | unlockStream (f : File) (d : Data) (htodo : s.todo t = (guarded f d).drop 3)
      (hs' : s' = (s.setStream f (proc t) none).setTodo t ((guarded f d).drop 4))
  | unlockRecord (f : File) (d : Data) (htodo : s.todo t = (guarded f d).drop 4)
      (hs' : s' = (if s.record f = some (proc t) then s.setRecord f none else s).setTodo t
        ((guarded f d).drop 5))

/-- **What one step does**, for a thread in a guarded section. -/
theorem step_cases {proc : Thread → Proc} {s s' : State Thread Proc File Data} {t : Thread}
    (hs : s.WellPlaced) (h : step proc s t = some s') : Stepped proc s s' t := by
  unfold step at h
  obtain hidle | ⟨f, d, hsuffix⟩ := hs t
  · simp [hidle] at h
  · simp only [guarded, List.suffix_cons_iff, List.suffix_nil] at hsuffix
    obtain htodo | htodo | htodo | htodo | htodo | htodo := hsuffix
    all_goals simp only [htodo, perform, Option.map_eq_some_iff, Option.ite_none_right_eq_some,
      Option.some.injEq, reduceCtorEq] at h
    · obtain ⟨_, ⟨hfree, rfl⟩, rfl⟩ := h
      exact .lockRecord f d htodo hfree rfl
    · obtain ⟨_, ⟨hfree, rfl⟩, rfl⟩ := h
      exact .lockStream f d htodo hfree rfl
    · obtain ⟨_, rfl, rfl⟩ := h
      exact .write f d htodo rfl
    · obtain ⟨_, rfl, rfl⟩ := h
      exact .unlockStream f d htodo rfl
    · obtain ⟨_, hrecord, rfl⟩ := h
      refine .unlockRecord f d htodo ?_
      congr 1
      split_ifs at hrecord ⊢ <;> simpa using hrecord.symm

/-- A step takes the next operation of its thread, -/
theorem Stepped.todo_self {proc : Thread → Proc} {s s' : State Thread Proc File Data}
    {t : Thread} (h : Stepped proc s s' t) : s'.todo t = (s.todo t).tail := by
  cases h with
  | lockRecord f d htodo _ hs' => rw [hs', htodo, State.setTodo_todo_self]; rfl
  | lockStream f d htodo _ hs' => rw [hs', htodo, State.setTodo_todo_self]; rfl
  | write f d htodo hs' => rw [hs', htodo, State.setTodo_todo_self]; rfl
  | unlockStream f d htodo hs' => rw [hs', htodo, State.setTodo_todo_self]; rfl
  | unlockRecord f d htodo hs' => rw [hs', htodo, State.setTodo_todo_self]; rfl

/-- and leaves the other threads where they are. -/
theorem Stepped.todo_of_ne {proc : Thread → Proc} {s s' : State Thread Proc File Data}
    {t u : Thread} (h : Stepped proc s s' t) (hu : u ≠ t) : s'.todo u = s.todo u := by
  cases h with
  | lockRecord f d _ _ hs' => rw [hs', State.setTodo_todo_of_ne _ _ hu, State.setRecord_todo]
  | lockStream f d _ _ hs' => rw [hs', State.setTodo_todo_of_ne _ _ hu, State.setStream_todo]
  | write f d _ hs' => rw [hs', State.setTodo_todo_of_ne _ _ hu]
  | unlockStream f d _ hs' => rw [hs', State.setTodo_todo_of_ne _ _ hu, State.setStream_todo]
  | unlockRecord f d _ hs' =>
      rw [hs', State.setTodo_todo_of_ne _ _ hu]
      split_ifs <;> simp

/-! ## What holds in every reachable state -/

variable {ok : State Thread Proc File Data → Thread → Prop}

theorem State.WellPlaced.step {t : Thread} (hs : s.WellPlaced) (h : Stepped proc s s' t) :
    s'.WellPlaced := by
  intro u
  by_cases hu : u = t
  · subst hu
    rw [h.todo_self]
    obtain hidle | ⟨f, d, hsuffix⟩ := hs u
    · exact .inl (by rw [hidle]; rfl)
    · exact .inr ⟨f, d, (List.tail_suffix _).trans hsuffix⟩
  · rw [h.todo_of_ne hu]
    exact hs u

/-- Whether another thread holds a stream lock does not change in a step. -/
theorem Stepped.stream_of_ne {t u : Thread} (hs : s.StreamHeld proc)
    (h : Stepped proc s s' t) (hu : u ≠ t) (g : File) (p : Proc) :
    s'.stream g p = some u ↔ s.stream g p = some u := by
  cases h with
  | lockRecord f d htodo _ hs' => rw [hs', State.setTodo_stream, State.setRecord_stream]
  | lockStream f d htodo hfree hs' =>
      rw [hs', State.setTodo_stream, State.setStream_stream]
      split_ifs with hsame
      · rw [hsame.1, hsame.2, hfree]
        simp [hu.symm]
      · rfl
  | write f d htodo hs' => rw [hs', State.setTodo_stream]
  | unlockStream f d htodo hs' =>
      rw [hs', State.setTodo_stream, State.setStream_stream]
      split_ifs with hsame
      · have hheld := (hs f (proc t) t).mpr ⟨(State.inside_iff htodo).mpr ⟨rfl, .inr rfl⟩, rfl⟩
        rw [hsame.1, hsame.2, hheld]
        simp [hu.symm]
      · rfl
  | unlockRecord f d htodo hs' =>
      rw [hs', State.setTodo_stream]
      split_ifs <;> simp

/-- Whether the thread that takes a step holds a stream lock. -/
theorem State.StreamHeld.step_self {t : Thread} (hs : s.StreamHeld proc)
    (h : Stepped proc s s' t) (g : File) (p : Proc) :
    s'.stream g p = some t ↔ s'.Inside g t ∧ proc t = p := by
  have hbefore := hs g p t
  cases h with
  | lockRecord f d htodo _ hs' =>
      subst hs'
      rw [State.inside_iff htodo] at hbefore
      rw [State.inside_iff (State.setTodo_todo_self ..)]
      simpa using hbefore
  | lockStream f d htodo _ hs' =>
      subst hs'
      rw [State.inside_iff htodo] at hbefore
      rw [State.inside_iff (State.setTodo_todo_self ..), State.setTodo_stream,
        State.setStream_stream]
      split_ifs with hsame
      · simp [hsame]
      -- another file, or the stream of another process: the thread holds it as before
      · simp only [hbefore]
        constructor
        · rintro ⟨⟨_, h | h⟩, _⟩ <;> omega
        · rintro ⟨⟨hg, _⟩, hp⟩
          exact absurd ⟨hg, hp.symm⟩ hsame
  | write f d htodo hs' =>
      subst hs'
      rw [State.inside_iff htodo] at hbefore
      rw [State.inside_iff (State.setTodo_todo_self ..)]
      simpa using hbefore
  | unlockStream f d htodo hs' =>
      subst hs'
      rw [State.inside_iff htodo] at hbefore
      rw [State.inside_iff (State.setTodo_todo_self ..), State.setTodo_stream,
        State.setStream_stream]
      split_ifs with hsame
      · simp
      · simp only [hbefore]
        constructor
        · rintro ⟨⟨hg, _⟩, hp⟩
          exact absurd ⟨hg, hp.symm⟩ hsame
        · rintro ⟨⟨_, h | h⟩, _⟩ <;> omega
  | unlockRecord f d htodo hs' =>
      subst hs'
      rw [State.inside_iff htodo] at hbefore
      rw [State.inside_iff (State.setTodo_todo_self ..), State.setTodo_stream]
      split_ifs <;> simpa using hbefore

theorem State.StreamHeld.step {t : Thread} (hs : s.StreamHeld proc)
    (h : Stepped proc s s' t) : s'.StreamHeld proc := by
  intro g p u
  by_cases hu : u = t
  · subst hu
    exact hs.step_self h g p
  · rw [h.stream_of_ne hs hu, hs g p u, State.Inside, State.Inside, h.todo_of_ne hu]

/-- A thread that relies on the record lock after its own step has taken it with this step, or
relied on it before. -/
theorem State.RecordHeld.step_self {f : File} {t : Thread} (hs : s.RecordHeld proc f)
    (h : Stepped proc s s' t) (ht : s'.Holding f t) : s'.record f = some (proc t) := by
  cases h with
  | lockRecord g d htodo _ hs' =>
      subst hs'
      obtain ⟨hg, -⟩ := (State.holding_iff (State.setTodo_todo_self ..)).mp ht
      rw [State.setTodo_record, State.setRecord_record, if_pos hg]
  | lockStream g d htodo _ hs' =>
      subst hs'
      obtain ⟨hg, -⟩ := (State.holding_iff (State.setTodo_todo_self ..)).mp ht
      exact hs t ((State.holding_iff htodo).mpr ⟨hg, by omega⟩)
  | write g d htodo hs' =>
      subst hs'
      obtain ⟨hg, -⟩ := (State.holding_iff (State.setTodo_todo_self ..)).mp ht
      exact hs t ((State.holding_iff htodo).mpr ⟨hg, by omega⟩)
  | unlockStream g d htodo hs' =>
      subst hs'
      obtain ⟨-, h | h | h⟩ := (State.holding_iff (State.setTodo_todo_self ..)).mp ht <;> omega
  | unlockRecord g d htodo hs' =>
      subst hs'
      obtain ⟨-, h | h | h⟩ := (State.holding_iff (State.setTodo_todo_self ..)).mp ht <;> omega

/-- The record lock stays with the process of another thread that relies on it. -/
theorem Stepped.record_of_ne {f : File} {t u : Thread} (h : Stepped proc s s' t) (hut : u ≠ t)
    (hu : s.Holding f u) (hrecord : s.record f = some (proc u))
    (hother : ∃ v, proc v ≠ proc t) (hdrops : ¬ s.Drops proc f t) :
    s'.record f = some (proc u) := by
  cases h with
  | lockRecord g d htodo hfree hs' =>
      subst hs'
      rw [State.setTodo_record, State.setRecord_record]
      split_ifs with hg
      · -- the lock is not free, so it is the thread's own process that has it
        subst hg
        rw [hrecord] at hfree
        simpa [eq_comm] using hfree
      · exact hrecord
  | lockStream g d htodo _ hs' => rwa [hs']
  | write g d htodo hs' => rwa [hs']
  | unlockStream g d htodo hs' => rwa [hs']
  | unlockRecord g d htodo hs' =>
      subst hs'
      rw [State.setTodo_record]
      split_ifs with hown
      · rw [State.setRecord_record]
        split_ifs with hg
        · subst hg
          have hproc : proc u = proc t := Option.some.inj (hrecord.symm.trans hown)
          exact absurd ⟨⟨[], htodo⟩, ⟨u, hut, hproc, hu⟩, hother⟩ hdrops
        · exact hrecord
      · exact hrecord

/-- A step that does not drop the record lock under a thread leaves it with the process
of every thread that relies on it. -/
theorem State.RecordHeld.step {f : File} {t : Thread} (hs : s.RecordHeld proc f)
    (hother : ∃ v, proc v ≠ proc t) (h : Stepped proc s s' t)
    (hdrops : ¬ s.Drops proc f t) : s'.RecordHeld proc f := by
  intro u hu
  by_cases hut : u = t
  · subst hut
    exact hs.step_self h hu
  · have hholding : s.Holding f u := by
      rwa [State.Holding, h.todo_of_ne hut] at hu
    exact h.record_of_ne hut hholding (hs u hholding) hother hdrops

/-- In every reachable state each thread is idle or in a guarded section, and each stream
lock is with the thread inside. -/
theorem Reachable.streamHeld (hcalls : Guarded calls) (h : Reachable proc calls ok s) :
    s.WellPlaced ∧ s.StreamHeld proc := by
  induction h with
  | init => exact ⟨fun _ => .inl rfl, by simp [State.StreamHeld, State.init, State.Inside]⟩
  | start _ hidle hops ih =>
      refine ⟨ih.1.start hcalls hops, fun f p u => ?_⟩
      rw [State.setTodo_stream, ih.2 f p u, State.inside_start hcalls hops hidle]
  | step _ _ hstep ih =>
      have hstepped := step_cases ih.1 hstep
      exact ⟨ih.1.step hstepped, ih.2.step hstepped⟩

/-- Two threads of one process are never both inside. -/
theorem Reachable.inside_unique (hcalls : Guarded calls) (h : Reachable proc calls ok s)
    {f : File} {t u : Thread} (ht : s.Inside f t) (hu : s.Inside f u)
    (hproc : proc t = proc u) : t = u := by
  have hheld := (h.streamHeld hcalls).2
  have hstream := (hheld f (proc t) t).mpr ⟨ht, rfl⟩
  rw [(hheld f (proc t) u).mpr ⟨hu, hproc.symm⟩] at hstream
  exact (Option.some.inj hstream).symm

/-- Where no step drops the record lock of a file under a thread, the lock is with the
process of each thread that relies on it. -/
theorem Reachable.recordHeld {f : File} (hcalls : Guarded calls)
    (hother : ∀ t, ∃ v, proc v ≠ proc t)
    (h : Reachable proc calls (fun s t => ¬ s.Drops proc f t) s) : s.RecordHeld proc f := by
  induction h with
  | init => simp [State.RecordHeld, State.init, State.Holding]
  | start _ hidle hops ih =>
      intro u hu
      exact ih u ((State.holding_start hcalls hops hidle f u).mp hu)
  | step h hok hstep ih =>
      exact ih.step (hother _) (step_cases (h.streamHeld hcalls).1 hstep) hok

/-! ## Exclusion -/

/-- **A run that never drops the record lock under a thread keeps the sections of the
file apart.** -/
theorem exclusive_of_not_drops {f : File} (hcalls : Guarded calls)
    (h : Reachable proc calls (fun s t => ¬ s.Drops proc f t) s) : s.Exclusive f := by
  intro t u ht hu
  by_cases hproc : proc t = proc u
  · exact h.inside_unique hcalls ht hu hproc
  · -- two processes, so each has another beside it
    have hother : ∀ w, ∃ v, proc v ≠ proc w := by
      intro w
      by_cases hw : proc t = proc w
      · exact ⟨u, fun hv => hproc (hw.trans hv.symm)⟩
      · exact ⟨t, hw⟩
    have hwell := (h.streamHeld hcalls).1
    have hrecord := h.recordHeld hcalls hother
    have ht' := hrecord t (ht.holding hwell)
    rw [hrecord u (hu.holding hwell)] at ht'
    exact absurd (Option.some.inj ht').symm hproc

/-- What can be done is done by a step. -/
theorem Stepped.step_eq {t : Thread} (h : Stepped proc s s' t) :
    FileLocks.step proc s t = some s' := by
  cases h with
  | lockRecord f d htodo hfree hs' => simp [FileLocks.step, htodo, guarded, perform, hfree, hs']
  | lockStream f d htodo hfree hs' => simp [FileLocks.step, htodo, guarded, perform, hfree, hs']
  | write f d htodo hs' => simp [FileLocks.step, htodo, guarded, perform, hs']
  | unlockStream f d htodo hs' => simp [FileLocks.step, htodo, guarded, perform, hs']
  | unlockRecord f d htodo hs' =>
      simp only [FileLocks.step, htodo, guarded, List.drop_succ_cons, List.drop_zero, perform,
        hs']
      split_ifs <;> rfl

/-- **Two threads of a process and one of another can be inside together.** -/
theorem exists_not_exclusive {f : File} {d : Data} (hcalls : guarded f d ∈ calls)
    {a b c : Thread} (hab : a ≠ b) (hproc : proc a = proc b) (hc : proc c ≠ proc a) :
    ∃ s, Reachable proc calls (fun _ _ => True) s ∧ ¬ s.Exclusive f := by
  have hca : c ≠ a := fun h => hc (congrArg proc h)
  rw [hproc] at hc
  have hcb : c ≠ b := fun h => hc (congrArg proc h)
  have h0 : Reachable proc calls (fun _ _ => True) .init := .init
  have h1 := h0.start (t := a) rfl hcalls
  have h2 := h1.start (t := b) (by simp [hab.symm, State.init]) hcalls
  have h3 := h2.start (t := c) (by simp [hca, hcb, State.init]) hcalls
  have h4 := h3.step trivial
    (Stepped.lockRecord (t := a) f d (by simp [hab, hca.symm]) (.inl rfl) rfl).step_eq
  have h5 := h4.step trivial
    (Stepped.lockStream (t := a) f d (by simp) rfl rfl).step_eq
  -- the second thread gets the record lock of the process as well
  have h6 := h5.step trivial
    (Stepped.lockRecord (t := b) f d (by simp [hab.symm, hcb.symm])
      (.inr (by simp [State.setRecord_record, hproc])) rfl).step_eq
  have h7 := h6.step trivial (Stepped.write (t := a) f d (by simp [hab]) rfl).step_eq
  have h8 := h7.step trivial (Stepped.unlockStream (t := a) f d (by simp) rfl).step_eq
  -- the first thread drops it, and the third finds it free
  have h9 := h8.step trivial (Stepped.unlockRecord (t := a) f d (by simp) rfl).step_eq
  rw [if_pos (by simp [State.setRecord_record, hproc])] at h9
  have h10 := h9.step trivial
    (Stepped.lockStream (t := b) f d (by simp [hab.symm])
      (by simp [hproc, State.setStream_stream]) rfl).step_eq
  have h11 := h10.step trivial
    (Stepped.lockRecord (t := c) f d (by simp [hca, hcb])
      (.inl (by simp [State.setRecord_record])) rfl).step_eq
  have h12 := h11.step trivial
    (Stepped.lockStream (t := c) f d (by simp)
      (by simp [hproc, hc, State.setStream_stream, State.init]) rfl).step_eq
  refine ⟨_, h12, fun hexclusive => ?_⟩
  refine hcb (hexclusive c b ?_ ?_)
  · exact (State.inside_iff (State.setTodo_todo_self ..)).mpr ⟨rfl, .inl rfl⟩
  · refine (State.inside_iff (f := f) (d := d) (k := 2) ?_).mpr ⟨rfl, .inl rfl⟩
    simp [hcb.symm]

/-- A run of which no step drops the record lock is one in which steps may not. -/
theorem Reachable.of_not_drops {f : File}
    (hdrops : ∀ s t, Reachable proc calls (fun _ _ => True) s → ¬ s.Drops proc f t)
    (h : Reachable proc calls (fun _ _ => True) s) :
    Reachable proc calls (fun s t => ¬ s.Drops proc f t) s := by
  induction h with
  | init => exact .init
  | start _ hidle hops ih => exact ih.start hidle hops
  | step h _ hstep ih => exact ih.step (hdrops _ _ h) hstep

/-- **When the sections of a file exclude each other in every run**: when each process
has one thread, or there is one process. -/
theorem exclusive_iff_procs {f : File} {d : Data} (hcalls : Guarded calls)
    (hf : guarded f d ∈ calls) :
    (∀ s, Reachable proc calls (fun _ _ => True) s → s.Exclusive f) ↔
      Function.Injective proc ∨ ∀ t u, proc t = proc u := by
  constructor
  · intro hexclusive
    by_contra hprocs
    simp only [Function.Injective, not_or, not_forall] at hprocs
    obtain ⟨⟨a, b, hproc, hab⟩, t, u, htu⟩ := hprocs
    have hother : ∃ c, proc c ≠ proc a := by
      by_cases ht : proc t = proc a
      · exact ⟨u, fun hu => htu (ht.trans hu.symm)⟩
      · exact ⟨t, ht⟩
    obtain ⟨c, hc⟩ := hother
    obtain ⟨s, hs, hnot⟩ := exists_not_exclusive hf hab hproc hc
    exact hnot (hexclusive s hs)
  · intro hprocs s hs
    exact exclusive_of_not_drops hcalls
      (hs.of_not_drops fun s t _ => not_drops_of_procs s t hprocs)

/-- **The sections of a file exclude each other in every run exactly when no step of any
run drops the record lock under a thread.** -/
theorem exclusive_iff {f : File} {d : Data} (hcalls : Guarded calls)
    (hf : guarded f d ∈ calls) :
    (∀ s, Reachable proc calls (fun _ _ => True) s → s.Exclusive f) ↔
      ∀ s t, Reachable proc calls (fun _ _ => True) s → ¬ s.Drops proc f t := by
  constructor
  · intro hexclusive s t _
    exact not_drops_of_procs s t ((exclusive_iff_procs hcalls hf).mp hexclusive)
  · intro hdrops s hs
    exact exclusive_of_not_drops hcalls (hs.of_not_drops hdrops)

end FileLocks
