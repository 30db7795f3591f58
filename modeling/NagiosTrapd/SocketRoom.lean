/-
# The room in the buffer of `socket_read_pdu`

The growth test compares `bufferlen + retcode` with `alloclen` by `>`, so that a piece which
fills the allocation exactly leaves no room for the terminator; and the scan of a piece
looks at `in_buf[i]` before it compares `i` with `retcode`.

**Main result:** `room_kept_iff`: a request is read without either fault exactly when no
running total of the lengths hits the size in force, and every piece has a byte at which
the scan stops.
-/
import Mathlib.Data.List.Basic
import NagiosTrapd.Socket

namespace Trapd

/-! ## The pieces that are read -/

/-- The pieces `recv` is called for: up to the first with a line end. -/
def receivedChunks : List Chunk → List Chunk
  | [] => []
  | chunk :: chunks =>
      if (scanChunk chunk.1).2 then [chunk] else chunk :: receivedChunks chunks

/-- The variables before the first piece and behind each. -/
def readStates (chunks : List Chunk) : List ReadState :=
  (receivedChunks chunks).scanl (fun s chunk => s.copy chunk.1) .init

/-- The variables when the loop is left. -/
def lastState (s : ReadState) (chunks : List Chunk) : ReadState :=
  (receivedChunks chunks).foldl (fun s chunk => s.copy chunk.1) s

/-- The terminator is stored: a line end has come, or `recv` did not fail. -/
def StoresTerminator (chunks : List Chunk) (ending : RecvEnd) : Prop :=
  (∃ chunk ∈ chunks, HasLineEnd chunk.1) ∨ ending = .closed

/-- There is a byte behind the copy. -/
def ReadState.Room (s : ReadState) : Prop := s.buffer.length < s.alloclen

/-- **The loop by its last state**: where the terminator is stored, it is stored there. -/
theorem readLoop_faults (ending : RecvEnd) (chunks : List Chunk) :
    ∀ s : ReadState, (readLoop ending s chunks).faults = []
      ↔ (lastState s chunks).faults = []
        ∧ (StoresTerminator chunks ending → (lastState s chunks).Room) := by
  have hfinish : ∀ s : ReadState, s.finish.faults = [] ↔ s.faults = [] ∧ s.Room := by
    intro s
    show s.faults ++ (if s.alloclen ≤ s.buffer.length then _ else _) = [] ↔ _
    split_ifs with hfull
    · simp [ReadState.Room, hfull]
    · simp [ReadState.Room, Nat.lt_of_not_le hfull]
  induction chunks with
  | nil =>
      intro s
      cases ending with
      | closed => simpa [readLoop, lastState, receivedChunks, StoresTerminator] using hfinish s
      | error => simp [readLoop, lastState, receivedChunks, StoresTerminator]
  | cons chunk chunks ih =>
      intro s
      rw [readLoop, lastState, receivedChunks]
      by_cases hfound : (scanChunk chunk.1).2 = true
      · have hstored : StoresTerminator (chunk :: chunks) ending :=
          Or.inl ⟨chunk, List.mem_cons_self, hfound⟩
        rw [if_pos hfound, if_pos hfound, hfinish]
        simp [hstored]
      · have hstored : StoresTerminator (chunk :: chunks) ending
            ↔ StoresTerminator chunks ending := by
          simp [StoresTerminator, HasLineEnd, hfound]
        rw [if_neg hfound, if_neg hfound, ih, hstored]
        rfl

/-! ## The scan -/

/-- The scan of a piece stops inside the piece. -/
theorem scanFaults_eq_nil (chunk : Str) :
    scanFaults chunk = [] ↔ ∃ c ∈ chunk, isLineStop c = true := by
  rw [scanFaults, ← List.any_eq_true]
  split_ifs with hstop
  · simp [hstop]
  · simp [hstop]

theorem lastState_faults (chunks : List Chunk) (s : ReadState) :
    (lastState s chunks).faults
      = s.faults ++ (receivedChunks chunks).flatMap fun chunk => scanFaults chunk.1 := by
  rw [lastState]
  induction receivedChunks chunks generalizing s with
  | nil => simp
  | cons chunk rest ih =>
      rw [List.foldl_cons, ih, List.flatMap_cons, ← List.append_assoc]
      rfl

/-! ## The running total -/

/-- **No exact hit**: no running total of the lengths is the size in force.  A total that
exceeds the size replaces it by itself and twice the size. -/
def NoExactHit : ℕ → ℕ → List ℕ → Prop
  | _, _, [] => True
  | size, total, len :: lens =>
      total + len ≠ size
        ∧ NoExactHit (if size < total + len then total + len + 2 * size else size) (total + len)
            lens

/-- There is room behind every piece exactly when no total hits the size. -/
theorem forall_room_scanl (chunks : List Chunk) :
    ∀ s : ReadState, s.Room →
      ((∀ s' ∈ chunks.scanl (fun s chunk => s.copy chunk.1) s, s'.Room)
        ↔ NoExactHit s.alloclen s.buffer.length (chunks.map fun chunk => chunk.1.length)) := by
  -- on the chunks; `alloclen` is the running size of the block
  induction chunks with
  | nil =>
      intro s hroom
      simpa [NoExactHit] using hroom
  | cons chunk chunks ih =>
      intro s hroom
      have hbuffer : (s.copy chunk.1).buffer.length = s.buffer.length + chunk.1.length := by
        rw [ReadState.copy, List.length_append, length_scanChunk]
      have halloc : (s.copy chunk.1).alloclen
          = if s.alloclen < s.buffer.length + chunk.1.length
            then s.buffer.length + chunk.1.length + 2 * s.alloclen else s.alloclen := rfl
      have hcopy : (s.copy chunk.1).Room ↔ s.buffer.length + chunk.1.length ≠ s.alloclen := by
        rw [ReadState.Room, hbuffer, halloc]
        rw [ReadState.Room] at hroom
        split_ifs
        · omega
        · omega
      rw [List.scanl_cons, List.forall_mem_cons, List.map_cons, NoExactHit, ← hcopy, ← hbuffer]
      constructor
      · rintro ⟨-, hall⟩
        have hnext : (s.copy chunk.1).Room := by
          apply hall
          cases chunks <;> simp
        refine ⟨hnext, ?_⟩
        have h := (ih _ hnext).mp hall
        rwa [halloc, ← hbuffer] at h
      · rintro ⟨hnext, hrest⟩
        refine ⟨hroom, (ih _ hnext).mpr ?_⟩
        rwa [halloc, ← hbuffer]

/-! ## The whole call -/

/-- What is asked of a call: room for the terminator before the first piece and behind each
piece, so that the copied bytes are inside the allocation, and no access outside a buffer. -/
structure RoomKept (chunks : List Chunk) (ending : RecvEnd) : Prop where
  room : ∀ s ∈ readStates chunks, s.Room
  faultless : (socketReadPdu chunks ending).faults = []

theorem mem_readStates_lastState (chunks : List Chunk) :
    lastState .init chunks ∈ readStates chunks := by
  rw [lastState, readStates]
  generalize ReadState.init = s
  induction receivedChunks chunks generalizing s with
  | nil => simp
  | cons chunk rest ih =>
      rw [List.scanl_cons, List.foldl_cons]
      exact List.mem_cons_of_mem _ (ih _)

/-- **When the buffer has room**: no running total of the received lengths hits the size of
the allocation, and each received piece has a NUL or a line end. -/
theorem room_kept_iff (chunks : List Chunk) (ending : RecvEnd) :
    RoomKept chunks ending
      ↔ NoExactHit SCK_BUF_SIZE 0 ((receivedChunks chunks).map fun chunk => chunk.1.length)
        ∧ ∀ chunk ∈ receivedChunks chunks, ∃ c ∈ chunk.1, isLineStop c = true := by
  have hinit : ReadState.init.Room := by
    show 0 < SCK_BUF_SIZE
    decide
  have hroom := forall_room_scanl (receivedChunks chunks) .init hinit
  have hscan : (lastState .init chunks).faults = []
      ↔ ∀ chunk ∈ receivedChunks chunks, ∃ c ∈ chunk.1, isLineStop c = true := by
    rw [lastState_faults]
    simp only [ReadState.init, List.nil_append, List.flatMap_eq_nil_iff, scanFaults_eq_nil]
  constructor
  · rintro ⟨hall, hfaults⟩
    refine ⟨hroom.mp hall, hscan.mp ?_⟩
    exact ((readLoop_faults ending chunks .init).mp hfaults).1
  · rintro ⟨hhit, hstops⟩
    have hall : ∀ s ∈ readStates chunks, s.Room := hroom.mpr hhit
    refine ⟨hall, (readLoop_faults ending chunks .init).mpr ⟨hscan.mpr hstops, ?_⟩⟩
    intro _
    exact hall _ (mem_readStates_lastState chunks)

theorem length_line (n : ℕ) : (List.replicate n 'a' ++ ['\n']).length = n + 1 := by
  rw [List.length_append, List.length_replicate, List.length_singleton]

/-- A piece as long as the allocation, which ends its line. -/
def fullChunk : Chunk :=
  ⟨List.replicate 1023 'a' ++ ['\n'], List.append_ne_nil_of_right_ne_nil _ (by decide),
    (length_line 1023).le⟩

/-- A piece of 1024 bytes leaves no byte for the terminator, and behind `ALIVE?`, in a piece
of its own, the scan looks at a byte that was not received. -/
theorem not_room_kept :
    ¬ RoomKept [fullChunk] .closed ∧ ¬ RoomKept [⟨"ALIVE?".toList, by decide⟩] .closed := by
  constructor
  · rintro ⟨hroom, -⟩
    have hlast := hroom _ (mem_readStates_lastState _)
    have hreceived : receivedChunks [fullChunk] = [fullChunk] := by
      rw [receivedChunks, receivedChunks, ite_self]
    have hlength : fullChunk.1.length = 1024 := length_line 1023
    rw [lastState, hreceived] at hlast
    simp [ReadState.Room, ReadState.copy, ReadState.init, length_scanChunk, hlength,
      SCK_BUF_SIZE] at hlast
  · rintro ⟨-, hfaults⟩
    exact absurd hfaults (by decide)

end Trapd
