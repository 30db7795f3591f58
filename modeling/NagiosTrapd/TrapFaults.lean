/-
# Undefined behaviour of `parse`

The variables of the token loop are those of a `Reader`, so what each token stores is known,
and with it what can go wrong.  `runFaults` and `endFaults` are the faults of the loop and of
what follows it, said of the reader: stores behind the end of `ipbuf`, and fields that
`free_trap` finds unset.  `parse_faults` says that there are no others.

**Main results:** `address_fits_iff`: `ipbuf` is overrun exactly when the words of the address
and their terminator do not fit in it.  `freed_set_iff`: a trap is freed with an unset field
exactly when it is rejected with an object.  `parse_faults_eq_nil_iff`: nothing else goes wrong.
-/
import NagiosTrapd.Varbinds

namespace Trapd

open Words

namespace Reader

variable {t : Str} {p : Bool}

/-! ## The faults of a reader -/

/-- What a token stores in `ipbuf`: the index and the number of bytes. -/
def ipbufStore (t : Str) (r : Reader) (w : Str) : Option (ℕ × ℕ) :=
  match r with
  | host _ => some (0, w.length + 1)
  | address hd => some ((joinSp hd.address).length, if w = t then 1 else w.length + 1)
  | _ => none

/-- The faults of a store in `ipbuf`. -/
def stepFaults (t : Str) (r : Reader) (w : Str) : List ParseFault :=
  match r.ipbufStore t w with
  | none => []
  | some (pos, len) => if TMPBUFLEN < pos + len then [.overrun (pos + len - 1)] else []

/-- The faults of the loop. -/
def runFaults (t : Str) (p : Bool) : Reader → List Str → List ParseFault
  | _, [] => []
  | r, w :: ws => r.stepFaults t w ++ runFaults t p (r.step t p w) ws

/-- The number of objects that have been begun. -/
def objectCount (r : Reader) : ℕ := (r.trap.map fun tr => tr.objects.length).getD 0

/-- The faults behind the loop: a trap that is rejected is freed, with an unset field in each
of its objects. -/
def endFaults (tv : Timeval) (r : Reader) : List ParseFault :=
  if r.protoCmd = .trap ∧ r.accepted tv = none then List.replicate r.objectCount .freeUnset
  else []

end Reader

/-! ## The faults of the loop -/

/-- The size of `ipbuf` is never changed. -/
theorem parseStep_ipbuf_size (t : Str) (p : Bool) (s : ParseState) (w : Str) :
    (parseStep t p s w).ipbuf.size = s.ipbuf.size := by
  have hswitch : ∀ s : ParseState, (parseSwitch p s w).ipbuf.size = s.ipbuf.size := by
    intro s
    unfold parseSwitch
    cases s.status <;>
      simp only [ParseState.onObject_ipbuf, ParseState.onTrap_ipbuf, ParseState.newObject_ipbuf,
        ParseState.fault, CBuf.write] <;>
      split_ifs <;> rfl
  unfold parseStep
  simp only
  split_ifs
  · rfl
  · rfl
  · exact hswitch _

/-- **One token** adds the faults of its store in `ipbuf`, and no others. -/
theorem Represents.faults_step {r : Reader} {s : ParseState} (h : Represents r s)
    (hsize : s.ipbuf.size = TMPBUFLEN) (t : Str) (p : Bool) (w : Str) :
    (parseStep t p s w).faults = s.faults ++ r.stepFaults t w := by
  have hst := h.status
  have hcmd := h.proto_cmd
  have hfound := h.tokenizer_found
  have htrap := h.trap
  have hobject := h.object
  have hfilled := h.filled
  -- by what has been read; the reader says which token stores behind the end of a buffer
  cases r with
  | start =>
      rw [parseStep_running (Or.inl hcmd) hfound]
      split_ifs <;> simp [parseSwitch, hst, Reader.stepFaults, Reader.ipbufStore]
  | other cmd =>
      rw [parseStep_other (by rw [hcmd]; exact hfilled.1) (by rw [hcmd]; exact hfilled.2)]
      simp [Reader.stepFaults, Reader.ipbufStore]
  | command =>
      rw [parseStep_running (Or.inr hcmd) hfound]
      split_ifs <;> simp [parseSwitch, hst, Reader.stepFaults, Reader.ipbufStore]
  | host hostname =>
      rw [h.parseStep_behind rfl (by simp)]
      simp [parseSwitch, hst, Reader.stepFaults, Reader.ipbufStore, ParseState.fault, CBuf.check,
        hsize]
  | address hd =>
      have hcells := h.ipbuf _ rfl
      have hlen := h.tokenlen _ rfl
      rw [h.parseStep_behind rfl (by simp)]
      by_cases hwt : w = t <;>
        simp [parseSwitch, hst, htrap, Reader.stepFaults, Reader.ipbufStore, ParseState.fault,
          ParseState.onTrap, CBuf.check, hsize, hcells, hlen, hwt]
  | between hd done =>
      rw [h.parseStep_behind rfl (by cases done <;> simp)]
      cases done <;> simp_all [parseSwitch, ParseState.newObject, Reader.headTrap,
        Reader.stepFaults, Reader.ipbufStore]
  | oid hd done o =>
      rw [h.parseStep_behind rfl (by simp)]
      simp [parseSwitch, hst, htrap, hobject, ParseState.onObject, ParseState.fault,
        Reader.headTrap, allocValue, CBuf.check, Reader.stepFaults, Reader.ipbufStore]
  | value hd done l =>
      have hlen := h.tokenlen _ rfl
      rw [h.parseStep_behind rfl (by simp)]
      by_cases hwt : w = t <;>
        simp [parseSwitch, hst, htrap, hobject, hlen, hwt, ParseState.onObject, ParseState.fault,
          Reader.headTrap, growValue, terminateValue, CBuf.check, TrapLine.object,
          Reader.stepFaults, Reader.ipbufStore]
      omega

/-- **All tokens** add the faults of their stores in `ipbuf`. -/
theorem faults_parseLoop (t : Str) (p : Bool) (tokens : List Str) :
    ∀ {r : Reader} {s : ParseState}, Represents r s → s.ipbuf.size = TMPBUFLEN →
      (∀ w ∈ tokens, w ≠ []) →
      (parseLoop t p s tokens).faults = s.faults ++ r.runFaults t p tokens := by
  induction tokens with
  | nil => exact fun _ _ _ => (List.append_nil _).symm
  | cons w ws ih =>
      intro r s h hsize hne
      rw [parseLoop_cons, ih (h.step t p (hne w List.mem_cons_self))
        ((parseStep_ipbuf_size t p s w).trans hsize) fun v hv =>
          hne v (List.mem_cons_of_mem w hv), h.faults_step hsize, List.append_assoc]
      rfl

/-! ## The faults behind the loop -/

/-- The last value is terminated inside its buffer. -/
theorem Represents.faults_closeLastValue {r : Reader} {s : ParseState} (h : Represents r s) :
    (closeLastValue s).faults = s.faults := by
  have hst := h.status
  unfold closeLastValue
  split_ifs with hvalue
  · cases r with
    | value hd done l =>
        have hlen := h.tokenlen _ rfl
        simp [ParseState.onObject, ParseState.fault, h.trap, h.object, hlen, Reader.headTrap,
          terminateValue, CBuf.check, TrapLine.object]
    | between hd done =>
        rw [hst] at hvalue
        simp only [Reader.status] at hvalue
        split_ifs at hvalue
    | _ => simp [hst] at hvalue
  · rfl

theorem freeTrapFaults_unset {tr : Trap} (h : ∀ o ∈ tr.objects, o.quoted_value = .unset) :
    freeTrapFaults (some tr) = List.replicate tr.objects.length .freeUnset := by
  show tr.objects.filterMap _ = _
  generalize tr.objects = objects at h
  induction objects with
  | nil => rfl
  | cons o os ih =>
      rw [List.filterMap_cons, if_pos (h o List.mem_cons_self),
        ih fun p hp => h p (List.mem_cons_of_mem o hp)]
      rfl

/-- **Every object of a trap that is being read has its quoted value unset.** -/
theorem Represents.freeTrapFaults_closeLastValue {r : Reader} {s : ParseState}
    (h : Represents r s) (hcmd : r.protoCmd = .trap) :
    freeTrapFaults (closeLastValue s).trap = List.replicate r.objectCount .freeUnset := by
  have hlines : ∀ (hd : PduHead) (lines : List TrapLine),
      freeTrapFaults (some (Reader.headTrap hd (lines.map (TrapLine.object · true))))
        = List.replicate lines.length .freeUnset := by
    intro hd lines
    rw [freeTrapFaults_unset]
    · simp [Reader.headTrap]
    · intro o ho
      obtain ⟨l, -, rfl⟩ := List.mem_map.mp ho
      rfl
  -- by what has been read: `quoted_value` is set behind the loop only, and for accepted traps
  cases r with
  | between hd done =>
      obtain ⟨-, htr, -⟩ := h.closeValue rfl
      rw [htr, hlines]
      simp [Reader.objectCount, Reader.headTrap]
  | value hd done l =>
      obtain ⟨-, htr, -⟩ := h.closeValue rfl
      rw [htr, hlines]
      simp [Reader.objectCount, Reader.headTrap]
  | oid hd done o =>
      rw [(h.closeValue_of_none rfl hcmd).1, h.trap, Reader.trap, freeTrapFaults_unset]
      · rfl
      · intro o' ho'
        rcases List.mem_append.mp ho' with hmem | hmem
        · obtain ⟨l, -, rfl⟩ := List.mem_map.mp hmem
          rfl
        · rw [List.mem_singleton.mp hmem]
  | start => simp at hcmd
  | other cmd => exact absurd hcmd h.filled.2
  | _ =>
      rw [(h.closeValue_of_none rfl hcmd).1, h.trap]
      rfl

/-- A trap that is rejected is freed. -/
theorem Represents.faults_rejectTrap {r : Reader} {s : ParseState} (h : Represents r s)
    (hcmd : r.protoCmd = .trap) :
    (rejectTrap (closeLastValue s)).faults
      = s.faults ++ List.replicate r.objectCount .freeUnset := by
  simp [rejectTrap, h.faults_closeLastValue, h.freeTrapFaults_closeLastValue hcmd,
    h.closeLastValue_pdu hcmd]

/-- **The end of the text** adds the faults of freeing a rejected trap, and no others. -/
theorem Represents.faults_finish {r : Reader} {s : ParseState} (h : Represents r s)
    (tv : Timeval) : (finishParse tv s).faults = s.faults ++ r.endFaults tv := by
  by_cases htrap : r.protoCmd = .trap
  · rw [h.finishParse_trap htrap, Reader.endFaults]
    cases r.accepted tv with
    | none =>
        rw [if_pos ⟨htrap, rfl⟩]
        exact h.faults_rejectTrap htrap
    | some tr =>
        rw [if_neg (by simp), List.append_nil]
        exact h.faults_closeLastValue
  · have hother : r.endFaults tv = [] := if_neg fun hc => htrap hc.1
    unfold finishParse
    rw [if_neg (by rw [h.proto_cmd]; exact htrap), hother, List.append_nil]

/-- **The faults of `parse`** are those of the reader. -/
theorem parse_faults (t : Str) (tv : Timeval) (buffer : Str) (p : Bool) :
    (parse t tv buffer p).faults
      = Reader.runFaults t p .start (pduTokens buffer)
        ++ (Reader.run t p .start (pduTokens buffer)).endFaults tv := by
  cases hbuf : removeChars (some buffer) ['\n', '\r'] with
  | none =>
      rw [parse_of_removeChars_eq_none t tv p hbuf]
      simp [pduTokens, hbuf, Reader.runFaults, Reader.endFaults]
  | some buf =>
      obtain ⟨hparse, hne, hrun⟩ := parse_eq_finishParse t tv p hbuf
      rw [hparse, hrun.faults_finish, faults_parseLoop t p _ represents_init rfl hne]
      rfl

/-! ## The address -/

/-- The tokens of a trap from the host name on: tokenizers in front of the command and of the
host name are skipped; there are none when the command is not `TRAP`. -/
def hostTokens (t : Str) (tokens : List Str) : List Str :=
  match tokens.dropWhile (· = t) with
  | [] => []
  | command :: rest => if command = "TRAP".toList then rest.dropWhile (· = t) else []

/-- **The address fits in `ipbuf`.**  Its first word is the token behind the host name,
whatever it is, and is stored with a terminator; the words up to the next tokenizer are
appended without one, and the tokenizer adds the terminator. -/
def AddressFits (t : Str) (tokens : List Str) : Prop :=
  match hostTokens t tokens with
  | _ :: first :: rest =>
      first.length < TMPBUFLEN ∧
        (joinSp (first :: rest.takeWhile (· ≠ t))).length + (if t ∈ rest then 1 else 0)
          ≤ TMPBUFLEN
  | _ => True

instance (t : Str) (tokens : List Str) : Decidable (AddressFits t tokens) := by
  unfold AddressFits
  split <;> infer_instance

namespace Reader

variable {t : Str} {p : Bool}

theorem readCommand_eq_trap {w : Str} : readCommand p w = .trap ↔ w = "TRAP".toList := by
  unfold readCommand
  split_ifs with htrap halive hdiag hprivate <;> simp_all

/-- Where the tokenizer is skipped, nothing goes wrong with the tokenizers in front. -/
theorem runFaults_dropWhile {r : Reader} (hr : r.step t p t = r) (hf : r.stepFaults t t = [])
    (tokens : List Str) : r.runFaults t p tokens = r.runFaults t p (tokens.dropWhile (· = t)) := by
  induction tokens with
  | nil => rfl
  | cons w ws ih =>
      by_cases hw : w = t
      · rw [runFaults, hw, hr, hf, List.nil_append, ih]
        simp
      · rw [List.dropWhile_cons_of_neg (by simpa using hw)]

/-- Readers that store nothing in `ipbuf` any more. -/
def Behind : Reader → Prop
  | start | command | host _ | address _ => False
  | _ => True

theorem runFaults_behind (tokens : List Str) :
    ∀ {r : Reader}, r.Behind → r.runFaults t p tokens = [] := by
  induction tokens with
  | nil => exact fun _ => rfl
  | cons w ws ih =>
      intro r hr
      have hnone : r.stepFaults t w = [] := by
        cases r <;> first | rfl | exact hr.elim
      have hstep : (r.step t p w).Behind := by
        cases r with
        | value hd done l =>
            rw [step]
            split_ifs <;> trivial
        | start => exact hr.elim
        | command => exact hr.elim
        | host hostname => exact hr.elim
        | address hd => exact hr.elim
        | _ => trivial
      rw [runFaults, hnone, ih hstep, List.append_nil]

/-- The words of the address behind those that are there, and the tokenizer. -/
theorem runFaults_address (tokens : List Str) :
    ∀ {hd : PduHead}, hd.address ≠ [] → (joinSp hd.address).length ≤ TMPBUFLEN →
      ((address hd).runFaults t p tokens = [] ↔
        (joinSp (hd.address ++ tokens.takeWhile (· ≠ t))).length + (if t ∈ tokens then 1 else 0)
          ≤ TMPBUFLEN) := by
  -- on the words of the address; the tokenizer behind them stores the terminator
  induction tokens with
  | nil =>
      intro hd _ hle
      simpa [runFaults] using hle
  | cons w ws ih =>
      intro hd hne hle
      rw [runFaults, step]
      by_cases hw : w = t
      · subst hw
        rw [if_pos rfl, runFaults_behind ws (r := between hd []) trivial, List.append_nil]
        simp [stepFaults, ipbufStore]
      · have hjoin := joinSp_append_singleton hne w
        have hlen : (joinSp (hd.address ++ [w])).length
            = (joinSp hd.address).length + (w.length + 1) := by
          rw [hjoin, List.length_append, List.length_cons]
        have hmem : (t ∈ w :: ws) = (t ∈ ws) := by
          simp [Ne.symm hw]
        have hassoc : hd.address ++ w :: ws.takeWhile (· ≠ t)
            = (hd.address ++ [w]) ++ ws.takeWhile (· ≠ t) := by simp
        rw [if_neg hw, List.takeWhile_cons_of_pos (by simpa using hw), hassoc]
        simp only [hmem]
        by_cases hroom : (joinSp (hd.address ++ [w])).length ≤ TMPBUFLEN
        · have hfit : (address hd).stepFaults t w = [] := by
            simp only [stepFaults, ipbufStore, if_neg hw]
            rw [if_neg (by omega)]
          rw [hfit, List.nil_append]
          exact ih (List.append_ne_nil_of_right_ne_nil hd.address (List.cons_ne_nil w [])) hroom
        · have hover : (address hd).stepFaults t w ≠ [] := by
            simp only [stepFaults, ipbufStore, if_neg hw]
            rw [if_pos (by omega)]
            exact List.cons_ne_nil _ _
          have hlonger := length_joinSp_le_append
            (List.append_ne_nil_of_right_ne_nil hd.address (List.cons_ne_nil w []))
            (ws.takeWhile (· ≠ t))
          refine iff_of_false (fun h => hover (List.append_eq_nil_iff.mp h).1) ?_
          omega

/-- **The loop is without faults** exactly when the address fits. -/
theorem runFaults_start_iff (tokens : List Str) :
    runFaults t p start tokens = [] ↔ AddressFits t tokens := by
  have hstart : step t p start t = start := if_pos rfl
  have hcommand : step t p command t = command := if_pos rfl
  rw [runFaults_dropWhile hstart rfl]
  unfold AddressFits hostTokens
  -- a command, the name of a host and the first word of its address
  cases hws : tokens.dropWhile (· = t) with
  | nil => simp [runFaults]
  | cons w ws =>
      have hskip : stepFaults t start w = [] := rfl
      rw [runFaults, step, if_neg (ne_of_dropWhile_eq_cons hws), hskip, List.nil_append]
      simp only [readCommand_eq_trap]
      by_cases hread : w = "TRAP".toList
      · simp only [if_pos hread]
        rw [runFaults_dropWhile hcommand rfl]
        cases hhost : ws.dropWhile (· = t) with
        | nil => simp [runFaults]
        | cons v vs =>
            have hname : stepFaults t command v = [] := rfl
            rw [runFaults, step, if_neg (ne_of_dropWhile_eq_cons hhost), hname, List.nil_append]
            cases vs with
            | nil => simp [runFaults]
            | cons a as =>
                rw [runFaults, step]
                by_cases ha : a.length < TMPBUFLEN
                · have hfit : stepFaults t (host v) a = [] := by
                    simp only [stepFaults, ipbufStore]
                    rw [if_neg (by omega)]
                  rw [hfit, List.nil_append, runFaults_address as (List.cons_ne_nil a [])
                    (by rw [joinSp_singleton]; omega)]
                  simp [ha]
                · have hover : stepFaults t (host v) a ≠ [] := by
                    simp only [stepFaults, ipbufStore]
                    rw [if_pos (by omega)]
                    exact List.cons_ne_nil _ _
                  exact iff_of_false (fun h => hover (List.append_eq_nil_iff.mp h).1)
                    fun h => ha h.1
      · simp only [if_neg hread]
        exact iff_of_true (runFaults_behind ws trivial) trivial

/-- The faults of the loop are stores outside `ipbuf`. -/
theorem mem_runFaults {f : ParseFault} (tokens : List Str) :
    ∀ {r : Reader}, f ∈ r.runFaults t p tokens → ∃ i, f = .overrun i ∧ TMPBUFLEN ≤ i := by
  induction tokens with
  | nil => exact fun h => absurd h List.not_mem_nil
  | cons w ws ih =>
      intro r h
      rcases List.mem_append.mp h with h | h
      · unfold stepFaults at h
        split at h
        · exact absurd h List.not_mem_nil
        · split_ifs at h with hover
          · obtain rfl := List.mem_singleton.mp h
            exact ⟨_, rfl, by omega⟩
          · exact absurd h List.not_mem_nil
      · exact ih h

/-- Those behind the loop are fields that are freed unset. -/
theorem mem_endFaults {f : ParseFault} {tv : Timeval} {r : Reader} (h : f ∈ r.endFaults tv) :
    f = .freeUnset := by
  unfold endFaults at h
  split_ifs at h
  · exact List.eq_of_mem_replicate h
  · exact absurd h List.not_mem_nil

end Reader

/-- **When the address buffer is overrun**: every byte that `parse` stores in one of its
buffers is stored inside it exactly when the words of the address and the terminator behind
them are no more than `TMPBUFLEN` bytes. -/
theorem address_fits_iff (t : Str) (tv : Timeval) (buffer : Str) (p : Bool) :
    (∀ i, .overrun i ∉ (parse t tv buffer p).faults) ↔ AddressFits t (pduTokens buffer) := by
  rw [parse_faults, ← Reader.runFaults_start_iff (p := p)]
  constructor
  · intro h
    by_contra hne
    obtain ⟨f, hf⟩ := List.exists_mem_of_ne_nil _ hne
    obtain ⟨i, rfl, -⟩ := Reader.mem_runFaults _ hf
    exact h i (List.mem_append_left _ hf)
  · intro h i hi
    rw [h, List.nil_append] at hi
    exact absurd (Reader.mem_endFaults hi) (by simp)

/-- The words of a PDU are read back from its text. -/
theorem pduTokens_joinSp {ws : List Str} (hne : ws ≠ []) (hws : ∀ w ∈ ws, IsPduWord w) :
    pduTokens (joinSp ws) = ws := by
  obtain ⟨w, ws, rfl⟩ := List.exists_cons_of_ne_nil hne
  have hspaced : Spaced ' ' (w :: ws) (joinSp (w :: ws)) :=
    spaced_intercalate ' ' (List.cons_ne_nil w ws)
  unfold pduTokens
  rw [removeChars_of_spaced hspaced hws]
  exact words_of_spaced hspaced fun v hv => (hws v hv).1

/-- An address word of 1024 bytes. -/
theorem not_address_fits :
    ¬ ∀ (t : Str) (tv : Timeval) (buffer : Str) (p : Bool) (i : ℕ),
        .overrun i ∉ (parse t tv buffer p).faults := by
  intro h
  have hlong : IsPduWord (List.replicate TMPBUFLEN 'a') := by
    have hmem : ∀ c ∈ List.replicate TMPBUFLEN 'a', c = 'a' := fun c => List.eq_of_mem_replicate
    refine ⟨⟨List.cons_ne_nil _ _, ?_⟩, ?_, ?_, ?_⟩ <;>
      exact fun hc => absurd (hmem _ hc) (by decide)
  have hwords : ∀ w ∈ ["TRAP".toList, ['h'], List.replicate TMPBUFLEN 'a'], IsPduWord w := by
    intro w hw
    simp only [List.mem_cons, List.not_mem_nil, or_false] at hw
    rcases hw with rfl | rfl | rfl
    · decide
    · decide
    · exact hlong
  have htokens := pduTokens_joinSp (List.cons_ne_nil _ _) hwords
  have hnone : ¬ AddressFits "::".toList
      ["TRAP".toList, ['h'], List.replicate TMPBUFLEN 'a'] := by
    have hhost : hostTokens "::".toList ["TRAP".toList, ['h'], List.replicate TMPBUFLEN 'a']
        = [['h'], List.replicate TMPBUFLEN 'a'] := rfl
    simp only [AddressFits, hhost, List.length_replicate]
    exact fun hfits => absurd hfits.1 (lt_irrefl _)
  rw [← htokens, ← Reader.runFaults_start_iff (p := false)] at hnone
  obtain ⟨f, hf⟩ := List.exists_mem_of_ne_nil _ hnone
  obtain ⟨i, rfl, -⟩ := Reader.mem_runFaults _ hf
  exact h "::".toList ⟨1, 0⟩ _ false i
    (by rw [parse_faults]; exact List.mem_append_left _ hf)

/-! ## The bindings -/

/-- The tokens of a trap behind its address. -/
def bindingTokens (t : Str) (tokens : List Str) : List Str :=
  (((hostTokens t tokens).drop 2).dropWhile (· ≠ t)).drop 1

/-- Tokens that are complete variable bindings: an OID, a token whatever it is, and the rest
of the value up to the next tokenizer. -/
inductive Bindings (t : Str) : List TrapLine → List Str → Prop
  | nil : Bindings t [] []
  | last (o v : Str) {ws : List Str} (hws : t ∉ ws) : Bindings t [⟨o, v :: ws⟩] (o :: v :: ws)
  | cons (o v : Str) {ws : List Str} (hws : t ∉ ws) {lines : List TrapLine} {tokens : List Str}
      (h : Bindings t lines tokens) :
      Bindings t (⟨o, v :: ws⟩ :: lines) (o :: v :: ws ++ t :: tokens)

namespace Reader

variable {t : Str} {p : Bool}

/-- Complete bindings are read as they are. -/
theorem lines_run_of_bindings {ls : List TrapLine} {tokens : List Str}
    (h : Bindings t ls tokens) :
    ∀ (hd : PduHead) (done : List TrapLine),
      ((between hd done).run t p tokens).lines = some (hd, done ++ ls) := by
  induction h with
  | nil => intro hd done; simp [Reader.lines]
  | last o v hws =>
      intro hd done
      rw [run_cons, run_cons, step, step, run_value hws]
      rfl
  | cons o v hws _ ih =>
      intro hd done
      rw [List.cons_append, List.cons_append, run_cons, run_cons, step, step, run_append,
        run_value hws, run_cons, step, if_pos rfl, ih, List.append_assoc]
      rfl

/-- What is read without anything open is complete bindings. -/
theorem bindings_of_lines_run {hd hd' : PduHead} {ls : List TrapLine} (n : ℕ) :
    ∀ {tokens : List Str} {done : List TrapLine}, tokens.length ≤ n →
      ((between hd done).run t p tokens).lines = some (hd', ls) →
      ∃ lines, Bindings t lines tokens ∧ ls = done ++ lines := by
  induction n with
  | zero =>
      intro tokens done hn h
      obtain rfl := List.length_eq_zero_iff.mp (Nat.le_zero.mp hn)
      obtain ⟨-, rfl⟩ := Prod.mk.inj (Option.some_inj.mp h)
      exact ⟨[], .nil, (List.append_nil _).symm⟩
  | succ n ih =>
      intro tokens done hn h
      rcases tokens with _ | ⟨o, _ | ⟨v, rest⟩⟩
      · exact ih (Nat.zero_le n) h
      · simp [run_cons, step, lines] at h
      rw [run_cons, run_cons, step, step] at h
      by_cases ht : t ∈ rest
      · -- the value ends at the first tokenizer
        obtain ⟨ws, tokens, rfl, hws⟩ := List.eq_append_cons_of_mem ht
        rw [run_append, run_value hws, run_cons, step, if_pos rfl] at h
        have hlen : tokens.length ≤ n := by
          simp only [List.length_cons, List.length_append] at hn
          omega
        obtain ⟨lines, hlines, rfl⟩ := ih hlen h
        exact ⟨_, .cons o v hws hlines, by simp⟩
      · rw [run_value ht] at h
        obtain ⟨-, rfl⟩ := Prod.mk.inj (Option.some_inj.mp h)
        exact ⟨_, .last o v ht, rfl⟩

theorem objectCount_between (hd : PduHead) (done : List TrapLine) :
    (between hd done).objectCount = done.length := by
  simp [objectCount, headTrap]

theorem objectCount_oid (hd : PduHead) (done : List TrapLine) (o : Str) :
    (oid hd done o).objectCount = done.length + 1 := by
  simp [objectCount, headTrap]

theorem objectCount_value (hd : PduHead) (done : List TrapLine) (l : TrapLine) :
    (value hd done l).objectCount = done.length + 1 := by
  simp [objectCount, headTrap]

/-- No object is taken back. -/
theorem objectCount_run (tokens : List Str) :
    ∀ {r : Reader}, 0 < r.objectCount → 0 < (r.run t p tokens).objectCount := by
  induction tokens with
  | nil => exact fun h => h
  | cons w ws ih =>
      intro r h
      refine ih ?_
      cases r with
      | between hd done => rw [step, objectCount_oid]; exact Nat.succ_pos _
      | oid hd done o => rw [step, objectCount_value]; exact Nat.succ_pos _
      | value hd done l =>
          rw [step]
          split_ifs
          · rw [objectCount_between, List.length_append]
            exact Nat.succ_pos _
          · rw [objectCount_value]
            exact Nat.succ_pos _
      | start => simp [objectCount] at h
      | other cmd => simp [objectCount] at h
      | command => simp [objectCount] at h
      | host hostname => simp [objectCount, hostTrap, allocTrap] at h
      | address hd => simp [objectCount, hostTrap, allocTrap] at h

/-- A trap is read from its address on; otherwise no object is begun. -/
theorem run_start_cases (tokens : List Str) :
    (∃ hd, run t p start tokens = run t p (between hd []) (bindingTokens t tokens)) ∨
      bindingTokens t tokens = [] ∧ (run t p start tokens).objectCount = 0 := by
  have hstart : step t p start t = start := if_pos rfl
  have hcommand : step t p command t = command := if_pos rfl
  rw [run_dropWhile hstart]
  unfold bindingTokens hostTokens
  cases hws : tokens.dropWhile (· = t) with
  | nil => exact Or.inr ⟨rfl, rfl⟩
  | cons w ws =>
      rw [run_cons, step, if_neg (ne_of_dropWhile_eq_cons hws)]
      simp only [readCommand_eq_trap]
      by_cases hread : w = "TRAP".toList
      · simp only [if_pos hread]
        rw [run_dropWhile hcommand]
        cases hhost : ws.dropWhile (· = t) with
        | nil => exact Or.inr ⟨rfl, rfl⟩
        | cons v vs =>
            rw [run_cons, step, if_neg (ne_of_dropWhile_eq_cons hhost)]
            cases vs with
            | nil => exact Or.inr ⟨rfl, rfl⟩
            | cons a as =>
                rw [run_cons, step]
                simp only [List.drop_succ_cons, List.drop_zero]
                refine (run_address ⟨v, [a]⟩ as).imp_right ?_
                rintro ⟨hnil, hd, hrun⟩
                exact ⟨hnil, by rw [hrun]; rfl⟩
      · simp only [if_neg hread]
        rw [run_other]
        exact Or.inr ⟨rfl, rfl⟩

/-- A trap is accepted with its bindings, one of which names it. -/
theorem accepted_ne_none_iff {tv : Timeval} {r : Reader} :
    r.accepted tv ≠ none ↔
      ∃ ls, (∃ hd, r.lines = some (hd, ls)) ∧ ∃ l ∈ ls, IsSnmpTrapOID l.oid := by
  unfold accepted
  cases hlines : r.lines with
  | none => simp
  | some q =>
      obtain ⟨hd, ls⟩ := q
      simp

/-- **Where an object is begun**, the trap is complete exactly when the tokens behind the
address are complete bindings. -/
theorem lines_run_start_iff {tokens : List Str} {ls : List TrapLine}
    (h : bindingTokens t tokens ≠ []) :
    (∃ hd, (run t p start tokens).lines = some (hd, ls)) ↔
      Bindings t ls (bindingTokens t tokens) := by
  obtain ⟨hd, hrun⟩ := (run_start_cases (t := t) (p := p) tokens).resolve_right
    fun hnone => h hnone.1
  rw [hrun]
  constructor
  · rintro ⟨hd', hlines⟩
    obtain ⟨lines, hlines, rfl⟩ := bindings_of_lines_run _ le_rfl hlines
    exact hlines
  · intro hb
    exact ⟨hd, by rw [lines_run_of_bindings hb, List.nil_append]⟩

/-- The bindings are those of a trap. -/
theorem run_start_of_bindingTokens {tokens : List Str} (h : bindingTokens t tokens ≠ []) :
    (run t p start tokens).protoCmd = .trap ∧ 0 < (run t p start tokens).objectCount := by
  obtain ⟨hd, hrun⟩ := (run_start_cases (t := t) (p := p) tokens).resolve_right
    fun hnone => h hnone.1
  obtain ⟨o, rest, hcons⟩ := List.exists_cons_of_ne_nil h
  rw [hrun, hcons, run_cons, step]
  have hcount : 0 < (oid hd [] o).objectCount := by
    rw [objectCount_oid]
    exact Nat.succ_pos _
  refine ⟨?_, objectCount_run rest hcount⟩
  have hend := objectCount_run (t := t) (p := p) rest hcount
  cases hlast : run t p (oid hd [] o) rest <;> simp_all [objectCount]

end Reader

/-- **A rejected trap is free of objects.**  No token stands behind the address, or those that
do are complete bindings one of which names the trap. -/
def FreedSet (t : Str) (tokens : List Str) : Prop :=
  bindingTokens t tokens = [] ∨
    ∃ lines, Bindings t lines (bindingTokens t tokens) ∧ ∃ l ∈ lines, IsSnmpTrapOID l.oid

/-- **Behind the loop nothing goes wrong** exactly when no trap that is rejected has an
object. -/
theorem Reader.endFaults_run_start_iff {t : Str} {p : Bool} (tv : Timeval) (tokens : List Str) :
    (Reader.run t p .start tokens).endFaults tv = [] ↔ FreedSet t tokens := by
  unfold FreedSet
  by_cases hnil : bindingTokens t tokens = []
  · refine iff_of_true ?_ (Or.inl hnil)
    have hcount : (Reader.run t p .start tokens).objectCount = 0 := by
      rcases Reader.run_start_cases (t := t) (p := p) tokens with ⟨hd, hrun⟩ | ⟨-, h⟩
      · rw [hrun, hnil, Reader.run_nil, Reader.objectCount_between]
        rfl
      · exact h
    unfold Reader.endFaults
    split_ifs
    · rw [hcount]
      rfl
    · rfl
  · obtain ⟨hcmd, hcount⟩ := Reader.run_start_of_bindingTokens (p := p) hnil
    have haccepted : (Reader.run t p .start tokens).accepted tv ≠ none ↔
        ∃ lines, Bindings t lines (bindingTokens t tokens) ∧ ∃ l ∈ lines, IsSnmpTrapOID l.oid := by
      rw [Reader.accepted_ne_none_iff]
      simp only [Reader.lines_run_start_iff hnil]
    rw [or_iff_right hnil, ← haccepted]
    unfold Reader.endFaults
    by_cases hnone : (Reader.run t p .start tokens).accepted tv = none
    · rw [if_pos ⟨hcmd, hnone⟩]
      refine iff_of_false (fun h => ?_) (fun h => h hnone)
      rw [List.replicate_eq_nil_iff] at h
      omega
    · rw [if_neg fun h => hnone h.2]
      exact iff_of_true rfl hnone

/-- **When `parse` is free of undefined behaviour**: the address fits, and no trap that is
rejected has an object. -/
theorem parse_faults_eq_nil_iff (t : Str) (tv : Timeval) (buffer : Str) (p : Bool) :
    (parse t tv buffer p).faults = [] ↔
      FreedSet t (pduTokens buffer) ∧ AddressFits t (pduTokens buffer) := by
  rw [parse_faults, List.append_eq_nil_iff, Reader.runFaults_start_iff,
    Reader.endFaults_run_start_iff, and_comm]

/-- **When a trap is freed with all its fields set**: exactly when none that is rejected has an
object. -/
theorem freed_set_iff (t : Str) (tv : Timeval) (buffer : Str) (p : Bool) :
    .freeUnset ∉ (parse t tv buffer p).faults ↔ FreedSet t (pduTokens buffer) := by
  have hloop : ParseFault.freeUnset ∉ Reader.runFaults t p .start (pduTokens buffer) := by
    intro h
    obtain ⟨i, hi, -⟩ := Reader.mem_runFaults _ h
    exact absurd hi (by simp)
  rw [parse_faults, List.mem_append, or_iff_right hloop, ← Reader.endFaults_run_start_iff tv]
  constructor
  · intro h
    by_contra hne
    obtain ⟨f, hf⟩ := List.exists_mem_of_ne_nil _ hne
    obtain rfl := Reader.mem_endFaults hf
    exact h hf
  · intro h
    rw [h]
    exact List.not_mem_nil

/-- A PDU that ends behind the OID of its first object. -/
theorem not_freed_set :
    ¬ ∀ (t : Str) (tv : Timeval) (buffer : Str) (p : Bool),
        .freeUnset ∉ (parse t tv buffer p).faults := by
  intro h
  exact h "::".toList ⟨1, 0⟩ "TRAP :: h :: [s] :: o".toList false (by decide)

end Trapd
