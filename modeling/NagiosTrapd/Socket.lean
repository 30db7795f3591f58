/-
# Reading a PDU from a socket (`socket.c`)

`socket_read_pdu` copies what `recv` delivers, piece by piece, until the stream ends or
a piece has a line end, and returns what stands before the first NUL of the copy.  Where
it reads or writes outside a buffer this is recorded in `faults`, and the run goes on.

**Main result:** `socketReadPdu_segments`: however the stream is cut into pieces, the
string returned is the first line of the stream.
-/
import Mathlib.Data.List.TakeWhile
import NagiosTrapd.Util

namespace Trapd

/-! ## The reading loop -/

/-- `SCK_BUF_SIZE`. -/
def SCK_BUF_SIZE : ℕ := 1024

/-- What one successful `recv` delivers. -/
abbrev Chunk : Type := {chunk : Str // chunk ≠ [] ∧ chunk.length ≤ SCK_BUF_SIZE}

/-- What the last `recv` returns: 0 where the peer has closed the connection, or -1. -/
inductive RecvEnd
  | closed | error
  deriving DecidableEq, Repr

/-- Undefined behaviour of `socket_read_pdu`. -/
inductive ReadFault
  /-- `in_buf` is read where this `recv` has stored nothing. -/
  | inBuf (index : ℕ)
  /-- `buffer` is written outside its allocation. -/
  | buffer (index : ℕ)
  deriving DecidableEq, Repr

/-- The bytes at which the `for` loop over a piece stops. -/
def isLineStop (c : Char) : Bool := c == '\x00' || c == '\n' || c == '\r'

/-- The `for` loop: a line end in front of every NUL becomes a NUL, and `cr_found`. -/
def scanChunk : Str → Str × Bool
  | [] => ([], false)
  | c :: chunk =>
      if c = '\x00' then (c :: chunk, false)
      else if c = '\n' ∨ c = '\r' then ('\x00' :: chunk, true)
      else
        let rest := scanChunk chunk
        (c :: rest.1, rest.2)

/-- The loop looks at `in_buf[i]` before it compares `i` with the number of bytes. -/
def scanFaults (chunk : Str) : List ReadFault :=
  if chunk.any isLineStop then [] else [.inBuf chunk.length]

/-- The local variables of `socket_read_pdu`: the first `bufferlen` bytes of `buffer`,
and the size of its allocation. -/
structure ReadState where
  buffer : Str
  alloclen : ℕ
  faults : List ReadFault
  deriving DecidableEq, Repr

/-- The variables before the first `recv`. -/
def ReadState.init : ReadState := ⟨[], SCK_BUF_SIZE, []⟩

/-- Make room for a piece and append it, its line end overwritten. -/
def ReadState.copy (s : ReadState) (chunk : Str) : ReadState :=
  let retcode := chunk.length
  let bufferlen := s.buffer.length
  { buffer := s.buffer ++ (scanChunk chunk).1
    alloclen :=
      if bufferlen + retcode > s.alloclen then bufferlen + retcode + 2 * s.alloclen
      else s.alloclen
    faults := s.faults ++ scanFaults chunk }

/-- What a call of `socket_read_pdu` returns, and the undefined behaviour met. -/
structure ReadResult where
  pdu : Option Str
  faults : List ReadFault
  deriving DecidableEq, Repr

/-- The end without error: the terminator is stored, the string ends at the first NUL. -/
def ReadState.finish (s : ReadState) : ReadResult where
  pdu := some (s.buffer.takeWhile (· ≠ '\x00'))
  faults := s.faults ++ if s.alloclen ≤ s.buffer.length then [.buffer s.buffer.length] else []

/-- The `while` loop over the calls of `recv`, and what follows it. -/
def readLoop (ending : RecvEnd) : ReadState → List Chunk → ReadResult
  | s, [] =>
      match ending with
      | .closed => s.finish
      | .error => ⟨none, s.faults⟩
  | s, chunk :: chunks =>
      if (scanChunk chunk.1).2 then (s.copy chunk.1).finish
      else readLoop ending (s.copy chunk.1) chunks

/-- `socket_read_pdu`, by what the calls of `recv` deliver. -/
def socketReadPdu (chunks : List Chunk) (ending : RecvEnd) : ReadResult :=
  readLoop ending .init chunks

/-! ## What a piece contributes -/

/-- The bytes before the first NUL, line feed or carriage return. -/
def firstLine (stream : Str) : Str := stream.takeWhile fun c => !isLineStop c

/-- The string in a scanned piece is the first line of the piece. -/
theorem scanChunk_takeWhile (chunk : Str) :
    (scanChunk chunk).1.takeWhile (· ≠ '\x00') = firstLine chunk := by
  induction chunk with
  | nil => rfl
  | cons c chunk ih =>
      rw [scanChunk]
      by_cases hnul : c = '\x00'
      · simp [hnul, firstLine, isLineStop]
      · by_cases hline : c = '\n' ∨ c = '\r'
        · have hstop : isLineStop c = true := by rcases hline with rfl | rfl <;> rfl
          simp [hnul, hline, firstLine, hstop]
        · have hstop : isLineStop c = false := by simpa [isLineStop, hnul] using hline
          rw [if_neg hnul, if_neg hline]
          simpa [hnul, firstLine, hstop] using ih

/-- Where a line end is found, the piece does not consist of its first line alone. -/
theorem firstLine_ne_of_scanChunk {chunk : Str} (h : (scanChunk chunk).2 = true) :
    (firstLine chunk).length ≠ chunk.length := by
  induction chunk with
  | nil => simp [scanChunk] at h
  | cons c chunk ih =>
      rw [scanChunk] at h
      by_cases hnul : c = '\x00'
      · simp [hnul] at h
      · by_cases hline : c = '\n' ∨ c = '\r'
        · have hstop : isLineStop c = true := by rcases hline with rfl | rfl <;> rfl
          simp [firstLine, hstop]
        · have hstop : isLineStop c = false := by simpa [isLineStop, hnul] using hline
          rw [if_neg hnul, if_neg hline] at h
          simpa [firstLine, hstop] using ih h

/-- Appending to a list that stops early changes nothing in front of the stop. -/
theorem firstLine_append_of_ne {received : Str} (h : (firstLine received).length ≠ received.length)
    (rest : Str) : firstLine (received ++ rest) = firstLine received := by
  unfold firstLine at h ⊢
  rw [List.takeWhile_append, if_neg h]

theorem length_scanChunk (chunk : Str) : (scanChunk chunk).1.length = chunk.length := by
  induction chunk with
  | nil => rfl
  | cons c chunk ih =>
      rw [scanChunk]
      split_ifs
      · rfl
      · rfl
      · simpa using ih

/-! ## The whole stream -/

/-- **The copy stands for what has been received**: it has as many bytes, and its string is
the first line. -/
structure Received (s : ReadState) (received : Str) : Prop where
  length_eq : s.buffer.length = received.length
  string_eq : s.buffer.takeWhile (· ≠ '\x00') = firstLine received

/-- Copying the next piece keeps this. -/
theorem Received.copy {s : ReadState} {received : Str} (h : Received s received) (chunk : Str) :
    Received (s.copy chunk) (received ++ chunk) where
  length_eq := by
    rw [ReadState.copy, List.length_append, List.length_append, h.length_eq, length_scanChunk]
  string_eq := by
    have hscan := scanChunk_takeWhile chunk
    have hstring := h.string_eq
    unfold firstLine at hscan hstring ⊢
    rw [ReadState.copy, List.takeWhile_append, List.takeWhile_append, hscan, hstring,
      h.length_eq]
    split_ifs with hall
    · -- no stop so far: copy and stream are the same bytes
      have hreceived := List.IsPrefix.eq_of_length (List.takeWhile_prefix _) hall
      rw [hreceived] at hstring
      have hbuffer : s.buffer = received := by
        rw [← hstring]
        refine (List.IsPrefix.eq_of_length (List.takeWhile_prefix _) ?_).symm
        rw [hstring, h.length_eq]
      rw [hbuffer]
    · rfl

/-- The loop returns the first line of what has been received and what is still to come. -/
theorem readLoop_closed (chunks : List Chunk) :
    ∀ {s : ReadState} {received : Str}, Received s received →
      (readLoop .closed s chunks).pdu
        = some (firstLine (received ++ (chunks.map Subtype.val).flatten)) := by
  induction chunks with
  | nil =>
      intro s received h
      rw [readLoop, ReadState.finish, h.string_eq]
      simp
  | cons chunk chunks ih =>
      intro s received h
      have hcopy := h.copy chunk.1
      rw [readLoop, List.map_cons, List.flatten_cons, ← List.append_assoc]
      split_ifs with hfound
      · -- what follows the line end is never read
        have hstop : (firstLine (received ++ chunk.1)).length ≠ (received ++ chunk.1).length := by
          have hne := firstLine_ne_of_scanChunk hfound
          unfold firstLine at hne ⊢
          rw [List.takeWhile_append]
          split_ifs with hall
          · simpa using hne
          · have hle := (List.takeWhile_prefix (fun c => !isLineStop c) (l := received)).length_le
            rw [List.length_append]
            omega
        rw [firstLine_append_of_ne hstop, ReadState.finish, hcopy.string_eq]
      · exact ih hcopy

/-- The longest prefix of a stream without NUL, line feed and carriage return. -/
structure LongestLine (stream line : Str) : Prop where
  isPrefix : line <+: stream
  clean : ∀ c ∈ line, isLineStop c = false
  longest : ∀ other, other <+: stream → (∀ c ∈ other, isLineStop c = false) → other <+: line

theorem longestLine_iff {stream line : Str} :
    LongestLine stream line ↔ line = firstLine stream := by
  have hfirst : LongestLine stream (firstLine stream) := by
    refine ⟨List.takeWhile_prefix _, ?_, ?_⟩
    · intro c hc
      simpa using List.mem_takeWhile_imp hc
    · rintro other ⟨rest, rfl⟩ hclean
      have hall : other.takeWhile (fun c => !isLineStop c) = other :=
        List.takeWhile_eq_self_iff.mpr fun c hc => by simp [hclean c hc]
      unfold firstLine
      rw [List.takeWhile_append, hall, if_pos rfl]
      exact List.prefix_append other _
  constructor
  · intro h
    have hle := hfirst.longest line h.isPrefix h.clean
    exact hle.eq_of_length_le (h.longest _ hfirst.isPrefix hfirst.clean).length_le
  · rintro rfl
    exact hfirst

/-- **Segmentation independence.**  However a stream is cut into pieces of up to
`SCK_BUF_SIZE` bytes, `socket_read_pdu` returns its longest prefix without NUL, line feed
and carriage return.  The byte behind `in_buf` that it may read is left to `room_kept_iff`. -/
theorem socketReadPdu_segments (chunks : List Chunk) (line : Str) :
    (socketReadPdu chunks .closed).pdu = some line
      ↔ LongestLine (chunks.map Subtype.val).flatten line := by
  have hnothing : Received .init [] := ⟨rfl, rfl⟩
  have hread := readLoop_closed chunks hnothing
  rw [List.nil_append] at hread
  rw [socketReadPdu, hread, longestLine_iff, Option.some_inj, eq_comm]

/-- A request in two pieces, the second with a NUL in front of a line end. -/
example : (socketReadPdu [⟨"ALI".toList, by decide⟩, ⟨"VE?\x00x\n".toList, by decide⟩]
    .closed).pdu = some "ALIVE?".toList := by decide

/-! ## When the connection breaks -/

/-- A piece ends the reading: it has a line end in front of every NUL. -/
def HasLineEnd (chunk : Str) : Prop := (scanChunk chunk).2 = true

instance (chunk : Str) : Decidable (HasLineEnd chunk) :=
  inferInstanceAs (Decidable (_ = true))

/-- **When `socket_read_pdu` returns NULL**: `recv` fails before a line end has come. -/
theorem socketReadPdu_eq_none (chunks : List Chunk) (ending : RecvEnd) :
    (socketReadPdu chunks ending).pdu = none
      ↔ ending = .error ∧ ∀ chunk ∈ chunks, ¬ HasLineEnd chunk.1 := by
  have hloop : ∀ s : ReadState, (readLoop ending s chunks).pdu = none
      ↔ ending = .error ∧ ∀ chunk ∈ chunks, ¬ HasLineEnd chunk.1 := by
    induction chunks with
    | nil =>
        intro s
        cases ending <;> simp [readLoop, ReadState.finish]
    | cons chunk chunks ih =>
        intro s
        rw [readLoop]
        split_ifs with hfound
        · simp [ReadState.finish, HasLineEnd, hfound]
        · rw [ih]
          simp [HasLineEnd, hfound]
  exact hloop .init

end Trapd
