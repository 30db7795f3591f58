/-
# Traps as text (`trap_serialize`)

`trap_serialize` sums up in one pass how many bytes it needs, allocates them, and prints the
trap into them in a second pass: timestamp, flag, host name, sender address and OID, and the
objects in one of two forms.  `sprintf` stores a terminator behind each piece.

**Main results:** `trapSerialize_outside_iff`: the two passes agree but for one field, the
sender address, which counts as empty and is printed as `(null)` where there is none.
`trap_serialized_iff`: the text of an accepted trap fits and is its fields and objects exactly
when the trap has a sender address.
-/
import NagiosTrapd.PduReader
import NagiosTrapd.TrapContents
import NagiosTrapd.TrapInv

namespace Trapd

open Blocks

/-! ## The two passes -/

/-- `trap_serialize_mode`, as `trap_init` sets it. -/
inductive SerializeMode
  | old | new
  deriving DecidableEq, Repr

/-- The format `%s`; the C library prints NULL as `(null)`. -/
def printString (s : Option Str) : Str := s.getD "(null)".toList

/-- The format `%012u` for a number of seconds cut to an `unsigned int`. -/
def printTimestamp (seconds : ℕ) : Str :=
  let digits := decimal ((seconds % 2 ^ 32 : ℕ) : ℤ)
  List.replicate (12 - digits.length) '0' ++ digits

/-- The flag of a trap whose plugin was run. -/
def printExecuted (executed : ℤ) : Str :=
  if executed ≠ 0 then "OK".toList else "NO".toList

/-- OID and quoted value of an object; `none` where the quoted value is not set. -/
def MibObject.printed (o : MibObject) : Option (Option Str × Option Str) :=
  match o.quoted_value with
  | .unset => none
  | .set quoted_value => some (o.oid, quoted_value)

/-- The first pass: the length to allocate. -/
def serializeLength (trap : Trap) (objects : List (Option Str × Option Str))
    (delimiter : Option Str) : ℕ :=
  let delimit_len := xstrlen delimiter
  -- timestamp and flag, the three fields and their delimiters
  let buflen := 12 + 2 + xstrlen trap.ipaddress + xstrlen trap.hostname + xstrlen trap.oid
    + 4 * delimit_len
  objects.foldl (fun buflen o => buflen + xstrlen o.1 + xstrlen o.2 + 2 * max delimit_len 1) buflen
    + 1

/-- The variables of the second pass. -/
structure SerializeState where
  buffer : Block Char
  auxlen : ℕ
  first_oid : Bool
  deriving DecidableEq, Repr

/-- `sprintf(buffer+auxlen, ..)` with what it prints, and the step of `auxlen` behind it. -/
def SerializeState.sprintf (s : SerializeState) (text : Str) : SerializeState :=
  { s with
    buffer := s.buffer.store s.auxlen (text ++ ['\x00'])
    auxlen := s.auxlen + text.length }

/-- The first `sprintf`, into `buflen` bytes. -/
def serializeHead (trap : Trap) (executed : ℤ) (delimiter : Option Str) (buflen : ℕ) :
    SerializeState :=
  let delimiter := printString delimiter
  SerializeState.sprintf ⟨Block.alloc buflen, 0, true⟩
    (printTimestamp trap.seconds ++ delimiter ++ printExecuted executed ++ delimiter
      ++ printString trap.hostname ++ delimiter ++ printString trap.ipaddress ++ delimiter
      ++ printString trap.oid)

/-- One turn of the loop of `TRAP_SERIALIZE_MODE_OLD`. -/
def serializeObject (delimiter : Option Str) (s : SerializeState) (o : Option Str × Option Str) :
    SerializeState :=
  if !isEmpty o.1 && !isEmpty o.2 then
    if s.first_oid then
      { s.sprintf (printString delimiter ++ printString o.1 ++ ';' :: printString o.2) with
        first_oid := false }
    else s.sprintf (';' :: printString o.1 ++ ';' :: printString o.2)
  else s

/-- `trap_serialize`; `none` is undefined behaviour, `some none` the NULL it returns. -/
def trapSerialize (mode : SerializeMode) (trap : Option Trap) (executed : ℤ)
    (delimiter : Option Str) : Option (Option (Block Char)) :=
  match trap with
  | none => some none
  | some trap => do
      let objects ← trap.objects.mapM MibObject.printed
      let s := serializeHead trap executed delimiter (serializeLength trap objects delimiter)
      let s ←
        match mode with
        | .old => some (objects.foldl (serializeObject delimiter) s)
        | .new => do
            let contents ← trapGetContents trap
            -- strlen(contents)
            let contents ← contents
            some (s.sprintf (printString delimiter ++ contents))
      some (some (s.buffer.put s.auxlen '\x00'))

/-! ## Printing piece by piece -/

/-- The pieces printed so far make up `text`, in a buffer of `size` bytes: they are in the
buffer with a terminator, and no byte went outside, exactly when there is room for both. -/
structure Printed (size : ℕ) (text : Str) (s : SerializeState) : Prop where
  size_eq : s.buffer.size = size
  auxlen : s.auxlen = text.length
  outside_iff : s.buffer.outside = [] ↔ text.length + 1 ≤ size
  holds : text.length + 1 ≤ size → Holds s.buffer (text ++ ['\x00'])

/-- One more piece is printed in place of the terminator. -/
theorem Printed.sprintf {size : ℕ} {text : Str} {s : SerializeState} (h : Printed size text s)
    (more : Str) : Printed size (text ++ more) (s.sprintf more) := by
  have hlen : (more ++ ['\x00']).length = more.length + 1 := by simp
  refine ⟨?_, ?_, ?_, ?_⟩
  · rw [SerializeState.sprintf, Block.size_store, h.size_eq]
  · rw [SerializeState.sprintf, List.length_append, h.auxlen]
  · rw [SerializeState.sprintf, Block.outside_store, h.outside_iff, h.size_eq, h.auxlen, hlen,
      List.length_append]
    constructor
    · rintro ⟨-, hnil | hle⟩
      · simp at hnil
      · omega
    · intro hle
      exact ⟨by omega, Or.inr (by omega)⟩
  · intro hle
    rw [List.length_append] at hle
    have htext := (h.holds (by omega)).left
    have hstore := htext.store (more ++ ['\x00']) (by rw [hlen, h.size_eq]; omega)
    rwa [← h.auxlen, ← List.append_assoc] at hstore

/-- The first piece. -/
theorem printed_alloc (size : ℕ) (first_oid : Bool) (text : Str) :
    Printed size text (SerializeState.sprintf ⟨Block.alloc size, 0, first_oid⟩ text) := by
  have hlen : (text ++ ['\x00']).length = text.length + 1 := by simp
  refine ⟨?_, ?_, ?_, ?_⟩
  · rw [SerializeState.sprintf, Block.size_store, Block.size_alloc]
  · rw [SerializeState.sprintf, Nat.zero_add]
  · rw [SerializeState.sprintf, Block.outside_store, Block.size_alloc, hlen, Nat.zero_add]
    constructor
    · rintro ⟨-, hnil | hle⟩
      · simp at hnil
      · exact hle
    · intro hle
      exact ⟨rfl, Or.inr hle⟩
  · intro hle
    exact (Holds.alloc size).store _ (by rw [hlen, Block.size_alloc]; simpa using hle)

/-- The last terminator is stored a second time. -/
theorem Printed.finish {size : ℕ} {text : Str} {s : SerializeState} (h : Printed size text s) :
    ((s.buffer.put s.auxlen '\x00').outside = [] ↔ text.length + 1 ≤ size) ∧
      (text.length + 1 ≤ size → Holds (s.buffer.put s.auxlen '\x00') (text ++ ['\x00'])) := by
  constructor
  · rw [Block.outside_put, h.outside_iff, h.size_eq, h.auxlen]
    omega
  · intro hle
    rw [h.auxlen]
    exact (h.holds hle).left.put (by rw [h.size_eq]; omega) '\x00'

/-! ## The text that is printed -/

/-- The objects as the two modes print them, by OID and quoted value. -/
def serializedObjects (mode : SerializeMode) (objects : List (Str × Str)) : Str :=
  match mode with
  | .old => [';'].intercalate (objects.flatMap fun o => [o.1, o.2])
  | .new => joinSp (objects.map fun o => o.1 ++ '=' :: o.2)

/-- The fields of a trap and its objects with the delimiter between them, `ipaddress` standing
for the sender. -/
def delimitedTrap (mode : SerializeMode) (trap : Trap) (ipaddress : Str)
    (objects : List (Str × Str)) (executed : ℤ) (delimiter : Str) : Str :=
  delimiter.intercalate [printTimestamp trap.seconds, printExecuted executed,
    trap.hostname.getD [], ipaddress, trap.oid.getD [], serializedObjects mode objects]

/-- A trap with all its fields but, possibly, the sender address, and with these objects. -/
structure Printable (trap : Trap) (objects : List (Str × Str)) : Prop where
  hostname : trap.hostname ≠ none
  oid : trap.oid ≠ none
  objects_eq : trap.objects.map (fun o => (o.oid, o.quoted_value))
    = objects.map fun o => (some o.1, .set (some o.2))
  filled : ∀ o ∈ objects, o.1 ≠ [] ∧ o.2 ≠ []
  nonempty : objects ≠ []

namespace Printable

variable {trap : Trap} {objects : List (Str × Str)}

theorem objects_ne_nil (h : Printable trap objects) : trap.objects ≠ [] := by
  intro hnil
  have heq := h.objects_eq
  rw [hnil, List.map_nil] at heq
  exact h.nonempty (List.map_eq_nil_iff.mp heq.symm)

/-- The fields of each object. -/
theorem fields (h : Printable trap objects) :
    ∀ o ∈ trap.objects, o.oid ≠ none ∧ ∃ q, o.quoted_value = .set (some q) := by
  intro o ho
  have hmem := List.mem_map_of_mem (f := fun o : MibObject => (o.oid, o.quoted_value)) ho
  rw [h.objects_eq] at hmem
  obtain ⟨p, -, hp⟩ := List.mem_map.mp hmem
  obtain ⟨hoid, hvalue⟩ := Prod.mk.inj hp
  exact ⟨by rw [← hoid]; simp, p.2, hvalue.symm⟩

/-- The texts that `trap_get_contents` joins. -/
theorem filterMap_objectContents (h : Printable trap objects) :
    trap.objects.filterMap objectContents = objects.map fun o => o.1 ++ '=' :: o.2 := by
  have hpairs : trap.objects.map objectContents
      = (objects.map fun o => o.1 ++ '=' :: o.2).map some := by
    have hsplit : objectContents = (fun p : Option Str × Slot (Option Str) =>
        objectContents ⟨p.1, none, p.2⟩) ∘ fun o : MibObject => (o.oid, o.quoted_value) := rfl
    rw [hsplit, ← List.map_map, h.objects_eq, List.map_map, List.map_map]
    rfl
  have htexts := exists_texts h.fields
  rw [hpairs] at htexts
  exact (List.map_injective_iff.mpr (Option.some_injective Str) htexts).symm

end Printable

theorem mapM_printed {os : List MibObject} :
    ∀ {objects : List (Str × Str)}, os.map (fun o => (o.oid, o.quoted_value))
        = objects.map (fun o => (some o.1, .set (some o.2))) →
      os.mapM MibObject.printed = some (objects.map fun o => (some o.1, some o.2)) := by
  induction os with
  | nil =>
      intro objects h
      cases objects with
      | nil => rfl
      | cons o objects => simp at h
  | cons o os ih =>
      intro objects h
      cases objects with
      | nil => simp at h
      | cons p objects =>
          rw [List.map_cons, List.map_cons, List.cons.injEq, Prod.mk.injEq] at h
          have hprinted : o.printed = some (some p.1, some p.2) := by
            simp only [MibObject.printed, h.1.2, h.1.1]
          rw [List.mapM_cons, hprinted, ih h.2]
          rfl

/-- The objects behind the first, in the old mode. -/
theorem printed_objects {size : ℕ} (delimiter : Option Str) (objects : List (Str × Str))
    (hfilled : ∀ o ∈ objects, o.1 ≠ [] ∧ o.2 ≠ []) :
    ∀ {text : Str} {s : SerializeState}, Printed size text s → s.first_oid = false →
      Printed size (text ++ objects.flatMap fun o => ';' :: o.1 ++ ';' :: o.2)
        ((objects.map fun o => (some o.1, some o.2)).foldl (serializeObject delimiter) s) := by
  induction objects with
  | nil =>
      intro text s h _
      simpa using h
  | cons o objects ih =>
      intro text s h hfirst
      obtain ⟨hoid, hvalue⟩ := hfilled o List.mem_cons_self
      have hstep : serializeObject delimiter s (some o.1, some o.2)
          = s.sprintf (';' :: o.1 ++ ';' :: o.2) := by
        simp [serializeObject, hoid, hvalue, hfirst, printString]
      have hrest := ih (fun p hp => hfilled p (List.mem_cons_of_mem o hp))
        (h.sprintf (';' :: o.1 ++ ';' :: o.2)) hfirst
      rw [List.map_cons, List.foldl_cons, hstep, List.flatMap_cons, ← List.append_assoc]
      exact hrest

theorem intercalate_objects (o : Str × Str) (objects : List (Str × Str)) :
    [';'].intercalate ((o :: objects).flatMap fun o => [o.1, o.2])
      = o.1 ++ ';' :: o.2 ++ objects.flatMap fun o => ';' :: o.1 ++ ';' :: o.2 := by
  induction objects generalizing o with
  | nil => simp [List.intercalate_cons_cons]
  | cons p objects ih =>
      have hrest := ih p
      simp only [List.flatMap_cons, List.cons_append, List.nil_append,
        List.intercalate_cons_cons] at hrest ⊢
      rw [hrest]
      simp

/-- All objects in the old mode, the first behind the delimiter. -/
theorem printed_old {size : ℕ} {delimiter text : Str} {s : SerializeState}
    (h : Printed size text s) (hfirst : s.first_oid = true) {objects : List (Str × Str)}
    (hne : objects ≠ []) (hfilled : ∀ o ∈ objects, o.1 ≠ [] ∧ o.2 ≠ []) :
    Printed size (text ++ (delimiter ++ serializedObjects .old objects))
      ((objects.map fun o => (some o.1, some o.2)).foldl (serializeObject (some delimiter)) s) := by
  obtain ⟨o, rest, rfl⟩ := List.exists_cons_of_ne_nil hne
  obtain ⟨hoid, hvalue⟩ := hfilled o List.mem_cons_self
  have hobject : serializeObject (some delimiter) s (some o.1, some o.2)
      = { s.sprintf (delimiter ++ o.1 ++ ';' :: o.2) with first_oid := false } := by
    simp [serializeObject, hoid, hvalue, hfirst, printString]
  have hstep := h.sprintf (delimiter ++ o.1 ++ ';' :: o.2)
  have hflag : Printed size _
      { s.sprintf (delimiter ++ o.1 ++ ';' :: o.2) with first_oid := false } :=
    ⟨hstep.size_eq, hstep.auxlen, hstep.outside_iff, hstep.holds⟩
  have hall := printed_objects (some delimiter) rest
    (fun p hp => hfilled p (List.mem_cons_of_mem o hp)) hflag rfl
  rw [serializedObjects, intercalate_objects, List.map_cons, List.foldl_cons, hobject]
  simpa [List.append_assoc] using hall

/-- The text in front of the objects. -/
def delimitedHead (trap : Trap) (ipaddress : Str) (executed : ℤ) (delimiter : Str) : Str :=
  printTimestamp trap.seconds ++ delimiter ++ printExecuted executed ++ delimiter
    ++ trap.hostname.getD [] ++ delimiter ++ ipaddress ++ delimiter ++ trap.oid.getD []

theorem delimitedTrap_eq (mode : SerializeMode) (trap : Trap) (ipaddress : Str)
    (objects : List (Str × Str)) (executed : ℤ) (delimiter : Str) :
    delimitedTrap mode trap ipaddress objects executed delimiter
      = delimitedHead trap ipaddress executed delimiter
          ++ (delimiter ++ serializedObjects mode objects) := by
  simp [delimitedTrap, delimitedHead, List.intercalate_cons_cons]

theorem serializeHead_eq {trap : Trap} (hhost : trap.hostname ≠ none) (hoid : trap.oid ≠ none)
    (executed : ℤ) (delimiter : Str) (size : ℕ) :
    serializeHead trap executed (some delimiter) size
      = SerializeState.sprintf ⟨Block.alloc size, 0, true⟩
          (delimitedHead trap (printString trap.ipaddress) executed delimiter) := by
  obtain ⟨host, hhost⟩ := Option.ne_none_iff_exists'.mp hhost
  obtain ⟨oid, hoid⟩ := Option.ne_none_iff_exists'.mp hoid
  simp [serializeHead, delimitedHead, printString, hhost, hoid]

/-- The whole text is printed. -/
theorem exists_printed (mode : SerializeMode) {trap : Trap} {objects : List (Str × Str)}
    (h : Printable trap objects) (executed : ℤ) (delimiter : Str) :
    ∃ s, Printed (serializeLength trap (objects.map fun o => (some o.1, some o.2)) (some delimiter))
        (delimitedTrap mode trap (printString trap.ipaddress) objects executed delimiter) s ∧
      trapSerialize mode (some trap) executed (some delimiter)
        = some (some (s.buffer.put s.auxlen '\x00')) := by
  have hobjects := mapM_printed h.objects_eq
  generalize hsize : serializeLength trap (objects.map fun o => (some o.1, some o.2))
    (some delimiter) = size
  have hhead := printed_alloc size true
    (delimitedHead trap (printString trap.ipaddress) executed delimiter)
  have hstart := serializeHead_eq h.hostname h.oid executed delimiter size
  rw [delimitedTrap_eq]
  unfold trapSerialize
  simp only [hobjects, hsize, hstart, Option.bind_eq_bind, Option.bind_some]
  cases mode with
  | old => exact ⟨_, printed_old hhead rfl h.nonempty h.filled, rfl⟩
  | new =>
      have hcontents := trapGetContents_eq h.objects_ne_nil h.fields
      rw [h.filterMap_objectContents] at hcontents
      refine ⟨_, hhead.sprintf _, ?_⟩
      simp [hcontents, printString, serializedObjects]

/-! ## Room for the text -/

/-- The bytes of OID and quoted value of all objects. -/
def objectBytes (objects : List (Str × Str)) : ℕ :=
  (objects.map fun o => o.1.length + o.2.length).sum

theorem xstrlen_some (s : Str) : xstrlen (some s) = s.length := by
  cases s <;> simp [xstrlen]

/-- The length computed in the first pass. -/
theorem serializeLength_eq (trap : Trap) (objects : List (Str × Str)) {delimiter : Str}
    (hd : delimiter ≠ []) :
    serializeLength trap (objects.map fun o => (some o.1, some o.2)) (some delimiter)
      = 14 + xstrlen trap.ipaddress + xstrlen trap.hostname + xstrlen trap.oid
          + 4 * delimiter.length + objectBytes objects + 2 * objects.length * delimiter.length
          + 1 := by
  have hmax : max delimiter.length 1 = delimiter.length :=
    max_eq_left (List.length_pos_of_ne_nil hd)
  unfold serializeLength
  simp only [xstrlen_some, hmax]
  have hloop : ∀ n : ℕ, (objects.map fun o => (some o.1, some o.2)).foldl
      (fun buflen o => buflen + xstrlen o.1 + xstrlen o.2 + 2 * delimiter.length) n
        = n + objectBytes objects + 2 * objects.length * delimiter.length := by
    induction objects with
    | nil => intro n; simp [objectBytes]
    | cons o objects ih =>
        intro n
        rw [List.map_cons, List.foldl_cons, ih]
        simp only [xstrlen_some, objectBytes, List.map_cons, List.sum_cons, List.length_cons]
        ring
  rw [hloop]

/-- Twelve characters hold every `unsigned int`. -/
theorem length_printTimestamp (seconds : ℕ) : (printTimestamp seconds).length = 12 := by
  have hlt : seconds % 2 ^ 32 < 10 ^ 12 := lt_trans (Nat.mod_lt _ (by decide)) (by decide)
  have hle : (decimal ((seconds % 2 ^ 32 : ℕ) : ℤ)).length ≤ 12 := by
    rw [decimal_natCast]
    exact Nat.toDigits_length 10 _ 12 (by decide) hlt
  simp only [printTimestamp, List.length_append, List.length_replicate]
  omega

theorem length_printExecuted (executed : ℤ) : (printExecuted executed).length = 2 := by
  unfold printExecuted
  split_ifs <;> rfl

/-- Both modes use the same number of bytes for the objects: two behind each but the last. -/
theorem length_serializedObjects (mode : SerializeMode) {objects : List (Str × Str)}
    (hne : objects ≠ []) :
    (serializedObjects mode objects).length + 1 = objectBytes objects + 2 * objects.length := by
  have hsum : ∀ texts : List Str, texts ≠ [] → ∀ sep,
      ([sep].intercalate texts).length + 1 = (texts.map fun w => w.length + 1).sum :=
    fun texts htexts sep => Words.length_intercalate_add_one sep htexts
  obtain ⟨o, rest, rfl⟩ := List.exists_cons_of_ne_nil hne
  cases mode with
  | old =>
      rw [serializedObjects, hsum _ (by simp)]
      generalize o :: rest = objects
      induction objects with
      | nil => rfl
      | cons p objects ih =>
          simp only [List.flatMap_cons, List.map_append, List.sum_append, ih, objectBytes,
            List.map_cons, List.sum_cons, List.map_nil, List.sum_nil, List.length_cons]
          omega
  | new =>
      rw [serializedObjects, joinSp, hsum _ (by simp)]
      generalize o :: rest = objects
      induction objects with
      | nil => rfl
      | cons p objects ih =>
          simp only [objectBytes, List.map_cons, List.sum_cons, List.length_append,
            List.length_cons] at ih ⊢
          omega

theorem length_delimitedTrap (mode : SerializeMode) (trap : Trap) {objects : List (Str × Str)}
    (hne : objects ≠ []) (ipaddress : Str) (executed : ℤ) (delimiter : Str) :
    (delimitedTrap mode trap ipaddress objects executed delimiter).length + 1
      = 14 + ipaddress.length + xstrlen trap.hostname + xstrlen trap.oid + 5 * delimiter.length
          + objectBytes objects + 2 * objects.length := by
  have hobjects := length_serializedObjects mode hne
  have hfield : ∀ s : Option Str, (s.getD []).length = xstrlen s := by
    intro s
    cases s with
    | none => rfl
    | some s => rw [xstrlen_some, Option.getD_some]
  simp only [delimitedTrap, List.intercalate_cons_cons, List.intercalate_singleton,
    List.length_append, length_printTimestamp, length_printExecuted, hfield]
  omega

/-- The two passes agree where the delimiter makes up for what the first one has missed. -/
theorem room_iff (missed : ℕ) {n d : ℕ} (hn : 0 < n) (hd : 0 < d) :
    missed + d + 2 * n ≤ 2 * n * d + 1 ↔ missed ≤ (d - 1) * (2 * n - 1) := by
  obtain ⟨k, rfl⟩ : ∃ k, n = k + 1 := ⟨n - 1, by omega⟩
  obtain ⟨e, rfl⟩ : ∃ e, d = e + 1 := ⟨d - 1, by omega⟩
  have hodd : 2 * (k + 1) - 1 = 2 * k + 1 := by omega
  have hprod : 2 * (k + 1) * (e + 1) = e * (2 * k + 1) + e + 2 * (k + 1) := by ring
  rw [Nat.add_sub_cancel, hodd, hprod]
  omega

/-- **When the text fits**: with a sender address always, without one when the length of the
delimiter makes up for the six bytes of `(null)`. -/
theorem trapSerialize_outside_iff (mode : SerializeMode) {trap : Trap}
    {objects : List (Str × Str)} (h : Printable trap objects) (executed : ℤ) {delimiter : Str}
    (hd : delimiter ≠ []) :
    (∃ buffer, trapSerialize mode (some trap) executed (some delimiter) = some (some buffer) ∧
        buffer.outside = []) ↔
      trap.ipaddress ≠ none ∨ 6 ≤ (delimiter.length - 1) * (2 * objects.length - 1) := by
  obtain ⟨s, hs, hserialize⟩ := exists_printed mode h executed delimiter
  have hlen := length_delimitedTrap mode trap h.nonempty (printString trap.ipaddress)
    executed delimiter
  have hsize := serializeLength_eq trap objects hd
  have hn := List.length_pos_of_ne_nil h.nonempty
  have hroom (missed : ℕ) := room_iff missed hn (List.length_pos_of_ne_nil hd)
  have hfits := hs.finish.1
  rw [hlen, hsize] at hfits
  rw [hserialize]
  have hiff : (∃ buffer, some (some (s.buffer.put s.auxlen '\x00')) = some (some buffer) ∧
      buffer.outside = []) ↔ (s.buffer.put s.auxlen '\x00').outside = [] := by
    simp
  rw [hiff, hfits]
  -- a missing address is counted as empty and printed as "(null)"
  cases hip : trap.ipaddress with
  | none =>
      have hnull := hroom 6
      have hmissed : xstrlen none = 0 := rfl
      have hprinted : (printString none).length = 6 := rfl
      simp only [ne_eq, not_true_eq_false, false_or, ← hnull, hmissed, hprinted]
      omega
  | some a =>
      have hplain := hroom 0
      have hprinted : (printString (some a)).length = xstrlen (some a) := (xstrlen_some a).symm
      rw [hprinted]
      refine iff_of_true ?_ (Or.inl (by simp))
      have hzero := hplain.mpr (Nat.zero_le _)
      omega

/-! ## Accepted traps -/

/-- The objects of a trap by OID and quoted value. -/
def Trap.printedObjects (trap : Trap) : List (Str × Str) :=
  trap.objects.map fun o => (o.oid.getD [], (o.printed.bind Prod.snd).getD [])

/-- **The serialized trap is whole**: nothing is stored outside the bytes allocated, and these
begin with the fields of the trap, a NULL one being empty, the objects in their order, and
the terminator. -/
def SerializedWhole (mode : SerializeMode) (trap : Trap) (executed : ℤ) (delimiter : Str) :
    Prop :=
  ∃ buffer, trapSerialize mode (some trap) executed (some delimiter) = some (some buffer) ∧
    Holds buffer (delimitedTrap mode trap (trap.ipaddress.getD []) trap.printedObjects executed
      delimiter ++ ['\x00'])

/-- An accepted trap has all its fields but, possibly, the sender address. -/
theorem printable_of_parse {t : Str} {tv : Timeval} {buffer : Str} {p : Bool} {trap : Trap}
    (h : (parse t tv buffer p).pdu = some ⟨.trap, some trap⟩) :
    Printable trap trap.printedObjects := by
  obtain ⟨hne, hquoted⟩ := parse_accepted h
  obtain ⟨hd, lines, l, hlines, -, rfl⟩ := exists_lines_of_parse h
  have hrepresents := represents_parseLoop t p (pduTokens buffer) represents_init
    fun w hw => (isWord_of_mem_pduTokens hw).1
  have hfull := hrepresents.full_of_lines hlines
  have hobject : ∀ o ∈ (acceptedTrap tv hd lines l).objects, ∃ oid v, oid ≠ [] ∧
      o.oid = some oid ∧ o.quoted_value = .set (some (quotedValue v)) := by
    intro o ho
    obtain ⟨v, -, hv⟩ := hquoted o ho
    have hmem := List.mem_map_of_mem (f := fun o : MibObject => (o.oid, o.valueStr)) ho
    rw [acceptedTrap_objects] at hmem
    obtain ⟨line, hline, heq⟩ := List.mem_map.mp hmem
    exact ⟨line.oid, v, (hfull line hline).1, (Prod.mk.inj heq).1.symm, hv⟩
  refine ⟨nofun, nofun, ?_, ?_, ?_⟩
  · rw [Trap.printedObjects, List.map_map]
    apply List.map_congr_left
    intro o ho
    obtain ⟨oid, v, -, hoid, hv⟩ := hobject o ho
    simp [MibObject.printed, hoid, hv]
  · rintro _ hpair
    obtain ⟨o, ho, rfl⟩ := List.mem_map.mp hpair
    obtain ⟨oid, v, hne, hoid, hv⟩ := hobject o ho
    simp only [MibObject.printed, hoid, hv, Option.getD_some, Option.bind_some]
    exact ⟨hne, by rw [quotedValue_eq]; simp⟩
  · simpa [Trap.printedObjects] using hne

/-- Without a sender address the text is another one: its fields do not follow where they
are expected. -/
theorem not_holds_delimitedTrap {mode : SerializeMode} {trap : Trap} {ipaddress : Str}
    {objects : List (Str × Str)} {executed : ℤ} {delimiter : Str} {buffer : Block Char}
    (h : Holds buffer (delimitedTrap mode trap ipaddress objects executed delimiter ++ ['\x00']))
    (hne : ipaddress ≠ []) (hnul : '\x00' ∉ ipaddress) :
    ¬ Holds buffer (delimitedTrap mode trap [] objects executed delimiter ++ ['\x00']) := by
  intro hempty
  have hsplit : ∀ ip : Str, delimitedTrap mode trap ip objects executed delimiter ++ ['\x00']
      = (printTimestamp trap.seconds ++ delimiter ++ printExecuted executed ++ delimiter
          ++ trap.hostname.getD [] ++ delimiter)
        ++ (ip ++ (delimiter ++ trap.oid.getD [] ++ delimiter ++ serializedObjects mode objects
          ++ ['\x00'])) := by
    intro ip
    simp [delimitedTrap, List.intercalate_cons_cons]
  rw [hsplit] at h hempty
  have hprefix := hempty.isPrefix_of_length_le h (by simp)
  -- the terminator would be a character of the address
  rw [List.prefix_append_right_inj, List.nil_append] at hprefix
  exact hnul (Words.mem_of_isPrefix_append hne _ hprefix '\x00' (by simp))

/-- **Serialization fits its allocation** exactly for the accepted traps with a sender
address. -/
theorem trap_serialized_iff {t : Str} {tv : Timeval} {buffer : Str} {p : Bool} {trap : Trap}
    (h : (parse t tv buffer p).pdu = some ⟨.trap, some trap⟩) (mode : SerializeMode)
    (executed : ℤ) {delimiter : Str} (hd : delimiter ≠ []) :
    SerializedWhole mode trap executed delimiter ↔ trap.ipaddress ≠ none := by
  have hprintable := printable_of_parse h
  obtain ⟨s, hs, hserialize⟩ := exists_printed mode hprintable executed delimiter
  have houtside := trapSerialize_outside_iff mode hprintable executed hd
  unfold SerializedWhole
  rw [hserialize] at houtside ⊢
  cases hip : trap.ipaddress with
  | some a =>
      obtain ⟨buffer', heq, hout⟩ := houtside.mpr (Or.inl (by simp [hip]))
      obtain rfl := Option.some_inj.mp (Option.some_inj.mp heq)
      refine iff_of_true ⟨_, rfl, ?_⟩ (by simp)
      have hholds := hs.finish.2 (hs.finish.1.mp hout)
      rwa [hip] at hholds
  | none =>
      refine iff_of_false ?_ (by simp)
      rintro ⟨buffer', heq, hwhole⟩
      obtain rfl := Option.some_inj.mp (Option.some_inj.mp heq)
      have hholds := hs.finish.2 (hs.finish.1.mp hwhole.outside)
      rw [hip] at hholds
      exact not_holds_delimitedTrap hholds (by decide) (by decide) hwhole

/-- The trap of a PDU whose address text has no bracket. -/
def trapWithoutAddress : Trap where
  seconds := 1
  useconds := 0
  hostname := some ['h']
  ipaddress := none
  oid := some ['o']
  objects := [⟨some snmpTrapOIDName, some ⟨2, ['o'], true⟩, .set (some "\"o\"".toList)⟩]

/-- A trap with a sender address. -/
theorem trap_serialized_address :
    SerializedWhole .old { trapWithoutAddress with ipaddress := some ['s'] } 1 [','] ↔
      { trapWithoutAddress with ipaddress := some ['s'] }.ipaddress ≠ none :=
  @trap_serialized_iff "::".toList ⟨1, 0⟩ "TRAP :: h :: [s] :: SNMPv2-MIB::snmpTrapOID.0 o".toList
    false { trapWithoutAddress with ipaddress := some ['s'] } (by decide) .old 1 [','] (by decide)

/-- Without one, the text is stored six bytes past the end of the buffer. -/
theorem not_trap_serialized :
    ¬ ∀ (t : Str) (tv : Timeval) (buffer : Str) (p : Bool) (trap : Trap),
        (parse t tv buffer p).pdu = some ⟨.trap, some trap⟩ →
        ∀ (mode : SerializeMode) (executed : ℤ) (delimiter : Str), delimiter ≠ [] →
          SerializedWhole mode trap executed delimiter := by
  intro h
  have hparse : (parse "::".toList ⟨1, 0⟩
      "TRAP :: h :: s :: SNMPv2-MIB::snmpTrapOID.0 o".toList false).pdu
        = some ⟨.trap, some trapWithoutAddress⟩ := by decide
  obtain ⟨buffer, hbuffer, hholds⟩ := h _ _ _ _ _ hparse .new 1 [','] (by decide)
  have hprintable := printable_of_parse hparse
  have hcomma : [','] ≠ [] := by decide
  rcases (trapSerialize_outside_iff .new hprintable 1 hcomma).mp
    ⟨buffer, hbuffer, hholds.outside⟩ with haddress | hroom
  · exact haddress rfl
  · exact absurd hroom (by decide)

end Trapd
