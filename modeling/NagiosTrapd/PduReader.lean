/-
# What the token loop reads

The variables of `parse` after some tokens, said without pointers, buffers and lengths:
a `Reader` is the part of the PDU that has been read, and `Reader.step` what one more
token adds to it.  `represents_parseLoop` connects the two levels: whatever the tokens
are, the variables of the loop represent what the reader has read.

**Main result:** `parse_pdu`: the PDU that `parse` returns is the reader's.  Undefined
behaviour is recorded by the loop alone; the reader goes on as the C text does.
-/
import NagiosTrapd.TrapInv
import NagiosTrapd.TrapParse

namespace Trapd

open Words

/-! ## The reader -/

/-- What stands in front of the variable bindings: the host name and the words of the
address. -/
structure PduHead where
  hostname : Str
  address : List Str
  deriving DecidableEq, Repr

/-- What has been read of a PDU. -/
inductive Reader
  | start
  /-- A command other than `TRAP`: the rest is not read. -/
  | other (cmd : ProtoCmd)
  | command
  | host (hostname : Str)
  | address (head : PduHead)
  | between (head : PduHead) (done : List TrapLine)
  | oid (head : PduHead) (done : List TrapLine) (oid : Str)
  | value (head : PduHead) (done : List TrapLine) (line : TrapLine)

namespace Reader

/-- Read a token.  The tokenizer counts in front of the host name, behind a word of the
address, and behind a word of a value; elsewhere it is a word like any other. -/
def step (t : Str) (p : Bool) (r : Reader) (w : Str) : Reader :=
  match r with
  | start =>
      if w = t then start
      else if readCommand p w = .trap then command
      else other (readCommand p w)
  | other cmd => other cmd
  | command => if w = t then command else host w
  | host h => address ⟨h, [w]⟩
  | address hd => if w = t then between hd [] else address { hd with address := hd.address ++ [w] }
  | between hd done => oid hd done w
  | oid hd done o => value hd done ⟨o, [w]⟩
  | value hd done l =>
      if w = t then between hd (done ++ [l]) else value hd done { l with rest := l.rest ++ [w] }

/-- Read tokens. -/
def run (t : Str) (p : Bool) (r : Reader) (tokens : List Str) : Reader :=
  tokens.foldl (step t p) r

variable {t : Str} {p : Bool}

@[simp] theorem run_nil (r : Reader) : run t p r [] = r := rfl

theorem run_cons (r : Reader) (w : Str) (ws : List Str) :
    run t p r (w :: ws) = run t p (step t p r w) ws := rfl

theorem run_append (r : Reader) (us vs : List Str) :
    run t p r (us ++ vs) = run t p (run t p r us) vs := List.foldl_append

/-! ## The variables that represent a reader -/

/-- The state of the `switch`. -/
@[simp] def status : Reader → ParseStatus
  | start => .started
  | other _ | command => .commandRead
  | host _ => .hostnameRead
  | address _ => .readingIpaddress
  | between _ done => if done = [] then .ipaddressRead else .valueRead
  | oid .. => .oidRead
  | value .. => .readingValue

/-- The command that has been read. -/
@[simp] def protoCmd : Reader → ProtoCmd
  | start => .none
  | other cmd => cmd
  | _ => .trap

/-- The trap behind the address. -/
def headTrap (hd : PduHead) (objects : List MibObject) : Trap :=
  { hostTrap hd.hostname with
    ipaddress := extractIpaddress (joinSp hd.address)
    objects := objects }

/-- The trap as far as it has been read. -/
@[simp] def trap : Reader → Option Trap
  | start | other _ | command => none
  | host h => some (hostTrap h)
  | address hd => some (hostTrap hd.hostname)
  | between hd done => some (headTrap hd (done.map (TrapLine.object · true)))
  | oid hd done o =>
      some (headTrap hd (done.map (TrapLine.object · true) ++ [⟨some o, none, .unset⟩]))
  | value hd done l =>
      some (headTrap hd (done.map (TrapLine.object · true) ++ [l.object false]))

/-- The current object. -/
@[simp] def object : Reader → Option ℕ
  | between _ done => if done = [] then none else some (done.length - 1)
  | oid _ done _ | value _ done _ => some done.length
  | _ => none

/-- The contents of `ipbuf`, while it is being filled. -/
@[simp] def ipbuf : Reader → Option Str
  | address hd => some (joinSp hd.address)
  | _ => none

/-- `tokenlen`, while it is used. -/
@[simp] def tokenlen : Reader → Option ℕ
  | address hd => some (joinSp hd.address).length
  | value _ _ l => some (joinSp l.rest).length
  | _ => none

end Reader

/-- The OID and the value of a binding are not empty. -/
def TrapLine.Full (l : TrapLine) : Prop := l.oid ≠ [] ∧ joinSp l.rest ≠ []

theorem TrapLine.Full.rest_ne_nil {l : TrapLine} (h : l.Full) : l.rest ≠ [] := by
  intro hrest
  exact h.2 (by rw [hrest]; rfl)

/-- What is being read is not empty, and the command is one that the loop reads. -/
@[simp] def Reader.Filled : Reader → Prop
  | .other cmd => cmd ≠ .none ∧ cmd ≠ .trap
  | .address hd => hd.address ≠ []
  | .between _ done => ∀ l ∈ done, l.Full
  | .oid _ done o => (∀ l ∈ done, l.Full) ∧ o ≠ []
  | .value _ done l => (∀ m ∈ done, m.Full) ∧ l.Full
  | _ => True

/-- **The variables of the loop stand for what the reader has read.** -/
structure Represents (r : Reader) (s : ParseState) : Prop where
  status : s.status = r.status
  proto_cmd : s.proto_cmd = r.protoCmd
  tokenizer_found : s.tokenizer_found = false
  pdu : s.pdu = if r.protoCmd = .none then none else some ⟨r.protoCmd, none⟩
  trap : s.trap = r.trap
  object : s.object = r.object
  ipbuf : ∀ cells, r.ipbuf = some cells → s.ipbuf.cells = cells
  tokenlen : ∀ n, r.tokenlen = some n → s.tokenlen = n
  filled : r.Filled

theorem represents_init : Represents .start .init := by
  constructor <;> simp [ParseState.init]

/-! ## One token -/

theorem readCommand_ne_none (p : Bool) (w : Str) : readCommand p w ≠ .none := by
  unfold readCommand
  split_ifs <;> simp

/-- A simple command ends the reading. -/
theorem parseStep_other {t : Str} {p : Bool} {s : ParseState} (hnone : s.proto_cmd ≠ .none)
    (htrap : s.proto_cmd ≠ .trap) (w : Str) : parseStep t p s w = s := by
  simp [parseStep, hnone, htrap]

/-- A token is skipped, or goes to the `switch`. -/
theorem parseStep_running {t : Str} {p : Bool} {s : ParseState}
    (hcmd : s.proto_cmd = .none ∨ s.proto_cmd = .trap) (hfound : s.tokenizer_found = false)
    (w : Str) :
    parseStep t p s w
      = if w = t ∧ (s.status = .started ∨ s.status = .commandRead) then s
        else { parseSwitch p { s with tokenizer_found := w == t } w with
          tokenizer_found := false } := by
  have hs : { s with tokenizer_found := false } = s := by cases s; simp_all
  have hrun : ¬ (s.proto_cmd ≠ .none ∧ s.proto_cmd ≠ .trap) := by
    rintro ⟨h1, h2⟩
    exact hcmd.elim h1 h2
  unfold parseStep
  rw [if_neg hrun]
  simp only [hfound, Bool.false_or, beq_iff_eq, hs]

/-- Behind the command of a trap every token goes to the `switch`. -/
theorem Represents.parseStep_behind {r : Reader} {s : ParseState} (h : Represents r s)
    (hcmd : r.protoCmd = .trap) (hstatus : r.status ≠ .started ∧ r.status ≠ .commandRead)
    (t : Str) (p : Bool) (w : Str) :
    parseStep t p s w
      = { parseSwitch p { s with tokenizer_found := w == t } w with tokenizer_found := false } := by
  rw [parseStep_running (Or.inr (h.proto_cmd.trans hcmd)) h.tokenizer_found, if_neg]
  rw [h.status]
  tauto

/-- A token of the address, or its end. -/
theorem Represents.step_address {hd : PduHead} {s : ParseState} (h : Represents (.address hd) s)
    (t : Str) (p : Bool) (w : Str) :
    Represents (Reader.step t p (.address hd) w) (parseStep t p s w) := by
  have hcells := h.ipbuf _ rfl
  have hlen := h.tokenlen _ rfl
  rw [h.parseStep_behind rfl (by simp)]
  by_cases hwt : w = t
  · subst hwt
    rw [Reader.step, if_pos rfl]
    constructor <;> simp [parseSwitch, h.status, h.proto_cmd, h.pdu, h.trap, h.object,
      ParseState.fault, ParseState.onTrap, CBuf.terminate, hcells, hlen, Reader.headTrap,
      hostTrap, allocTrap]
  · have hjoin := joinSp_append_singleton h.filled w
    rw [Reader.step, if_neg hwt]
    constructor <;> simp [parseSwitch, h.status, h.proto_cmd, h.pdu, h.trap, h.object, hwt,
      ParseState.fault, CBuf.write, hcells, hlen, hjoin]

/-- A token of a value, or its end. -/
theorem Represents.step_value {hd : PduHead} {done : List TrapLine} {l : TrapLine}
    {s : ParseState} (h : Represents (.value hd done l) s) (t : Str) (p : Bool) (w : Str) :
    Represents (Reader.step t p (.value hd done l) w) (parseStep t p s w) := by
  have hfilled := h.filled
  have hlen := h.tokenlen _ rfl
  rw [h.parseStep_behind rfl (by simp)]
  by_cases hwt : w = t
  · subst hwt
    rw [Reader.step, if_pos rfl]
    constructor <;> simp [parseSwitch, h.status, h.proto_cmd, h.pdu, h.trap, h.object,
      ParseState.onObject, ParseState.fault, Reader.headTrap, hlen, terminateValue,
      CBuf.terminate, TrapLine.object]
    rintro m (hm | rfl)
    · exact hfilled.1 m hm
    · exact hfilled.2
  · have hjoin := joinSp_append_singleton hfilled.2.rest_ne_nil w
    rw [Reader.step, if_neg hwt]
    constructor <;> simp [parseSwitch, h.status, h.proto_cmd, h.pdu, h.trap, h.object, hwt,
      ParseState.onObject, ParseState.fault, Reader.headTrap, hlen, growValue, CBuf.write,
      TrapLine.object, hjoin, Nat.add_assoc]
    exact ⟨hfilled.1, hfilled.2.1, by simp [hjoin]⟩

/-- **One token keeps the correspondence.** -/
theorem Represents.step {r : Reader} {s : ParseState} (h : Represents r s) (t : Str) (p : Bool)
    {w : Str} (hw : w ≠ []) : Represents (r.step t p w) (parseStep t p s w) := by
  have hst := h.status
  have hcmd := h.proto_cmd
  have hfound := h.tokenizer_found
  have hpdu := h.pdu
  have htrap := h.trap
  have hobject := h.object
  have hfilled := h.filled
  have hdup : xstrdup (some w) = some w := xstrdup_some_of_ne_nil hw
  -- by what has been read, which is the state of the `switch` with what it has stored
  cases r with
  | start =>
      rw [parseStep_running (Or.inl hcmd) hfound]
      by_cases hwt : w = t
      · rw [if_pos ⟨hwt, Or.inl hst⟩, Reader.step, if_pos hwt]
        exact h
      · rw [if_neg fun h => hwt h.1, Reader.step, if_neg hwt]
        split_ifs with hread <;>
          constructor <;>
          simp [parseSwitch, hst, hread, htrap, hobject, readCommand_ne_none]
  | other cmd =>
      rw [parseStep_other (by rw [hcmd]; exact hfilled.1) (by rw [hcmd]; exact hfilled.2)]
      exact h
  | command =>
      rw [parseStep_running (Or.inr hcmd) hfound]
      by_cases hwt : w = t
      · rw [if_pos ⟨hwt, Or.inr hst⟩, Reader.step, if_pos hwt]
        exact h
      · rw [if_neg fun h => hwt h.1, Reader.step, if_neg hwt]
        constructor <;> simp [parseSwitch, hst, hcmd, hpdu, hobject, hdup, hostTrap]
  | host hostname =>
      rw [h.parseStep_behind rfl (by simp)]
      constructor <;> simp [parseSwitch, hst, hcmd, hpdu, htrap, hobject, Reader.step,
        ParseState.fault, CBuf.write, joinSp_singleton]
  | address hd => exact h.step_address t p w
  | between hd done =>
      rw [h.parseStep_behind rfl (by cases done <;> simp)]
      cases done <;> constructor <;> simp_all [parseSwitch, Reader.step, ParseState.newObject,
        Reader.headTrap]
  | oid hd done o =>
      rw [h.parseStep_behind rfl (by simp)]
      constructor <;> simp [parseSwitch, hst, hcmd, hpdu, htrap, hobject, Reader.step,
        ParseState.onObject, ParseState.fault, Reader.headTrap, allocValue, CBuf.write,
        TrapLine.object, joinSp_singleton]
      exact ⟨hfilled.1, hfilled.2, by rw [joinSp_singleton]; exact hw⟩
  | value hd done l => exact h.step_value t p w

/-- **All tokens keep the correspondence.** -/
theorem represents_parseLoop (t : Str) (p : Bool) (tokens : List Str) :
    ∀ {r : Reader} {s : ParseState}, Represents r s → (∀ w ∈ tokens, w ≠ []) →
      Represents (r.run t p tokens) (parseLoop t p s tokens) := by
  induction tokens with
  | nil => exact fun h _ => h
  | cons w ws ih =>
      intro r s h hne
      exact ih (h.step t p (hne w List.mem_cons_self)) fun v hv =>
        hne v (List.mem_cons_of_mem w hv)

/-! ## The PDU that is returned -/

/-- The head and the bindings of a PDU that may end here. -/
def Reader.lines : Reader → Option (PduHead × List TrapLine)
  | .between hd done => some (hd, done)
  | .value hd done l => some (hd, done ++ [l])
  | _ => none

/-- The trap of a head and bindings, `l` being the binding that names it. -/
def acceptedTrap (tv : Timeval) (hd : PduHead) (lines : List TrapLine) (l : TrapLine) : Trap :=
  finishedTrap tv (Reader.headTrap hd []) (lines.map (TrapLine.object · true)) (l.object true)

/-- The trap of a PDU that ends here, if it has all its parts and a binding that names it. -/
def Reader.accepted (tv : Timeval) (r : Reader) : Option Trap :=
  match r.lines with
  | none => none
  | some (hd, lines) =>
      (lines.find? fun l => decide (IsSnmpTrapOID l.oid)).map (acceptedTrap tv hd lines)

/-- The PDU that `parse` returns when the text ends here. -/
def Reader.pdu (tv : Timeval) : Reader → Option Pdu
  | .start => none
  | .other cmd => some ⟨cmd, none⟩
  | r =>
      match r.accepted tv with
      | none => some ⟨.invalid, none⟩
      | some tr => some ⟨.trap, some tr⟩

/-- What `post_parse` makes of a head and bindings. -/
theorem postParse_headTrap (tv : Timeval) (hd : PduHead) {lines : List TrapLine}
    (h : ∀ l ∈ lines, l.Full) :
    postParse tv (Reader.headTrap hd (lines.map (TrapLine.object · true)))
      = (lines.find? fun l => decide (IsSnmpTrapOID l.oid)).map (acceptedTrap tv hd lines) := by
  have hfind := find?_object lines fun l hl => (h l hl).1
  unfold postParse
  simp only [Reader.headTrap, hfind]
  cases lines.find? fun l => decide (IsSnmpTrapOID l.oid) <;> rfl

/-- The bindings that are complete when the text ends. -/
theorem Represents.full_of_lines {r : Reader} {s : ParseState} (h : Represents r s)
    {hd : PduHead} {lines : List TrapLine} (hlines : r.lines = some (hd, lines)) :
    ∀ l ∈ lines, l.Full := by
  have hfilled := h.filled
  cases r with
  | between hd' done =>
      obtain ⟨rfl, rfl⟩ := Prod.mk.inj (Option.some_inj.mp hlines)
      exact hfilled
  | value hd' done l =>
      obtain ⟨rfl, rfl⟩ := Prod.mk.inj (Option.some_inj.mp hlines)
      intro m hm
      rcases List.mem_append.mp hm with hm | hm
      · exact hfilled.1 m hm
      · rw [List.mem_singleton.mp hm]
        exact hfilled.2
  | _ => simp [Reader.lines] at hlines

/-- The variables once the value that the end of the text leaves open is terminated. -/
def closeLastValue (s : ParseState) : ParseState :=
  if s.status = .readingValue then
    { s.onObject (terminateValue s.tokenlen) with status := .valueRead }
  else s

/-- They stand for the head and the bindings that are complete. -/
theorem Represents.closeValue {r : Reader} {s : ParseState} (h : Represents r s) {hd : PduHead}
    {lines : List TrapLine} (hlines : r.lines = some (hd, lines)) :
    ((closeLastValue s).status = .ipaddressRead ∨ (closeLastValue s).status = .valueRead) ∧
      (closeLastValue s).trap = some (Reader.headTrap hd (lines.map (TrapLine.object · true))) ∧
      (closeLastValue s).pdu = some ⟨.trap, none⟩ := by
  have hst := h.status
  have htrap := h.trap
  have hobject := h.object
  have hpdu := h.pdu
  cases r with
  | between hd' done =>
      obtain ⟨rfl, rfl⟩ := Prod.mk.inj (Option.some_inj.mp hlines)
      have hne : s.status ≠ .readingValue := by
        rw [hst]
        simp only [Reader.status]
        split_ifs <;> simp
      rw [closeLastValue, if_neg hne, hst]
      refine ⟨?_, htrap, by simpa using hpdu⟩
      simp only [Reader.status]
      split_ifs <;> simp
  | value hd' done l =>
      obtain ⟨rfl, rfl⟩ := Prod.mk.inj (Option.some_inj.mp hlines)
      have hlen := h.tokenlen _ rfl
      have hvalue : s.status = .readingValue := hst
      rw [closeLastValue, if_pos hvalue]
      simp [ParseState.onObject, ParseState.fault, htrap, hobject, hpdu, hlen, Reader.headTrap,
        terminateValue, CBuf.terminate, TrapLine.object]
  | _ => simp [Reader.lines] at hlines

/-- Without them the status is none in which a trap is complete. -/
theorem Represents.closeValue_of_none {r : Reader} {s : ParseState} (h : Represents r s)
    (hlines : r.lines = none) (hcmd : r.protoCmd = .trap) :
    closeLastValue s = s ∧ s.status ≠ .ipaddressRead ∧ s.status ≠ .valueRead := by
  have hst := h.status
  have hfilled := h.filled
  cases r with
  | other cmd => exact absurd hcmd hfilled.2
  | start => simp at hcmd
  | between hd done => simp [Reader.lines] at hlines
  | value hd done l => simp [Reader.lines] at hlines
  | _ => simp [closeLastValue, hst]

/-- The part of `parse` behind the loop, with `closeLastValue`. -/
theorem finishParse_trap (tv : Timeval) {s : ParseState} (h : s.proto_cmd = .trap) :
    finishParse tv s
      = if (closeLastValue s).status ≠ .ipaddressRead ∧ (closeLastValue s).status ≠ .valueRead then
          rejectTrap (closeLastValue s)
        else match (closeLastValue s).trap.bind (postParse tv) with
          | none => rejectTrap (closeLastValue s)
          | some tr =>
              { pdu := (closeLastValue s).pdu.map fun p => { p with trap := some tr }
                trap_parsed := 1
                faults := (closeLastValue s).faults
                  ++ ((closeLastValue s).trap.map postParseFaults).getD []
                  ++ (if (closeLastValue s).pdu = none then [.nullDeref] else []) } := by
  unfold finishParse
  rw [if_pos h]
  rfl

/-- A PDU that is not a trap is returned as it is. -/
theorem finishParse_other (tv : Timeval) {s : ParseState} (h : s.proto_cmd ≠ .trap) :
    (finishParse tv s).pdu = s.pdu ∧ (finishParse tv s).trap_parsed = 0 := by
  unfold finishParse
  rw [if_neg h]
  exact ⟨rfl, rfl⟩

/-- Rejecting makes the PDU invalid. -/
theorem rejectTrap_pdu {s : ParseState} (h : s.pdu = some ⟨.trap, none⟩) :
    (rejectTrap s).pdu = some ⟨.invalid, none⟩ ∧ (rejectTrap s).trap_parsed = 0 := by
  simp [rejectTrap, h]

/-- The PDU of a reader that has read the command `TRAP`. -/
theorem Reader.pdu_of_trap {r : Reader} (h : r.protoCmd = .trap)
    (hfilled : r.Filled) (tv : Timeval) :
    r.pdu tv
      = match r.accepted tv with
        | none => some ⟨.invalid, none⟩
        | some tr => some ⟨.trap, some tr⟩ := by
  cases r with
  | start => simp at h
  | other cmd => exact absurd h hfilled.2
  | _ => rfl

/-- Closing the last value leaves the PDU alone. -/
theorem closeLastValue_pdu (s : ParseState) : (closeLastValue s).pdu = s.pdu := by
  unfold closeLastValue
  split_ifs
  · exact ParseState.onObject_pdu
  · rfl

theorem Represents.closeLastValue_pdu {r : Reader} {s : ParseState} (h : Represents r s)
    (hcmd : r.protoCmd = .trap) : (closeLastValue s).pdu = some ⟨.trap, none⟩ := by
  rw [Trapd.closeLastValue_pdu, h.pdu, hcmd]
  rfl

/-- All values have been read when the quoted values are made. -/
theorem postParseFaults_headTrap (hd : PduHead) (lines : List TrapLine) :
    postParseFaults (Reader.headTrap hd (lines.map (TrapLine.object · true))) = [] := by
  unfold postParseFaults
  rw [List.filterMap_eq_nil_iff]
  intro o ho
  obtain ⟨l, -, rfl⟩ := List.mem_map.mp ho
  rfl

/-- What follows the loop makes the trap that is accepted, or rejects what has been read. -/
theorem Represents.finishParse_trap {r : Reader} {s : ParseState} (h : Represents r s)
    (htrap : r.protoCmd = .trap) (tv : Timeval) :
    finishParse tv s
      = match r.accepted tv with
        | none => rejectTrap (closeLastValue s)
        | some tr =>
            { pdu := some ⟨.trap, some tr⟩
              trap_parsed := 1
              faults := (closeLastValue s).faults } := by
  rw [Trapd.finishParse_trap tv (h.proto_cmd.trans htrap)]
  cases hlines : r.lines with
  | none =>
      -- the text ends in the head or behind an OID
      obtain ⟨hclose, hne⟩ := h.closeValue_of_none hlines htrap
      have hnone : r.accepted tv = none := by simp [Reader.accepted, hlines]
      rw [hclose, if_pos hne, hnone]
  | some p =>
      obtain ⟨hd, lines⟩ := p
      obtain ⟨hstatus, htr, hclosed⟩ := h.closeValue hlines
      have hpost := postParse_headTrap tv hd (h.full_of_lines hlines)
      have haccepted : r.accepted tv
          = (lines.find? fun l => decide (IsSnmpTrapOID l.oid)).map
              (acceptedTrap tv hd lines) := by
        simp only [Reader.accepted, hlines]
      have hrun : ¬ ((closeLastValue s).status ≠ .ipaddressRead ∧
          (closeLastValue s).status ≠ .valueRead) := by
        rintro ⟨h1, h2⟩
        exact hstatus.elim h1 h2
      rw [if_neg hrun, htr, Option.bind_some, hpost, haccepted]
      cases lines.find? fun l => decide (IsSnmpTrapOID l.oid) with
      | none => rfl
      | some l => simp [hclosed, postParseFaults_headTrap]

/-- **The end of the text**: the PDU returned is the reader's, and a trap is counted when it
is accepted. -/
theorem Represents.finish {r : Reader} {s : ParseState} (h : Represents r s) (tv : Timeval) :
    (finishParse tv s).pdu = r.pdu tv ∧
      (finishParse tv s).trap_parsed = if (r.accepted tv).isSome then 1 else 0 := by
  by_cases htrap : r.protoCmd = .trap
  · rw [h.finishParse_trap htrap, Reader.pdu_of_trap htrap h.filled]
    cases r.accepted tv with
    | none => exact rejectTrap_pdu (h.closeLastValue_pdu htrap)
    | some tr => exact ⟨rfl, rfl⟩
  · have hother := finishParse_other (s := s) tv (by rw [h.proto_cmd]; exact htrap)
    rw [hother.1, hother.2, h.pdu]
    cases r with
    | start => simp [Reader.pdu, Reader.accepted, Reader.lines]
    | other cmd => simp [Reader.pdu, Reader.accepted, Reader.lines, h.filled.1]
    | _ => exact absurd rfl htrap

/-! ## The whole of `parse` -/

/-- The words of the text that `parse` reads. -/
def pduTokens (buffer : Str) : List Str :=
  match removeChars (some buffer) ['\n', '\r'] with
  | none => []
  | some buf => words ' ' buf

theorem isWord_of_mem_pduTokens {buffer w : Str} (hw : w ∈ pduTokens buffer) : IsWord ' ' w := by
  unfold pduTokens at hw
  split at hw
  · exact absurd hw List.not_mem_nil
  · exact isWord_of_mem_words hw

/-- A text of line ends only is an invalid PDU. -/
theorem parse_of_removeChars_eq_none (t : Str) (tv : Timeval) {buffer : Str} (p : Bool)
    (hbuf : removeChars (some buffer) ['\n', '\r'] = none) :
    parse t tv buffer p = { pdu := some ⟨.invalid, none⟩, trap_parsed := 0, faults := [] } := by
  unfold parse
  rw [hbuf]

/-- The words of the text are read one by one, up to its end. -/
theorem parse_eq_finishParse (t : Str) (tv : Timeval) {buffer buf : Str} (p : Bool)
    (hbuf : removeChars (some buffer) ['\n', '\r'] = some buf) :
    parse t tv buffer p = finishParse tv (parseLoop t p .init (pduTokens buffer)) ∧
      (∀ w ∈ pduTokens buffer, w ≠ []) ∧
      Represents (Reader.run t p .start (pduTokens buffer))
        (parseLoop t p .init (pduTokens buffer)) := by
  have htokens : pduTokens buffer = words ' ' buf := by simp [pduTokens, hbuf]
  have hne : ∀ w ∈ pduTokens buffer, w ≠ [] := fun w hw => (isWord_of_mem_pduTokens hw).1
  refine ⟨?_, hne, represents_parseLoop t p (pduTokens buffer) represents_init hne⟩
  unfold parse
  rw [hbuf, htokens]

/-- **What `parse` returns**: the PDU that the words of the text make, read one by one. -/
theorem parse_pdu (t : Str) (tv : Timeval) {buffer buf : Str} (p : Bool)
    (hbuf : removeChars (some buffer) ['\n', '\r'] = some buf) :
    (parse t tv buffer p).pdu = (Reader.run t p .start (pduTokens buffer)).pdu tv ∧
      (parse t tv buffer p).trap_parsed
        = if ((Reader.run t p .start (pduTokens buffer)).accepted tv).isSome then 1 else 0 := by
  obtain ⟨hparse, -, hrun⟩ := parse_eq_finishParse t tv p hbuf
  rw [hparse]
  exact hrun.finish tv

/-- A reader that returns a trap has accepted it. -/
theorem Reader.accepted_of_pdu {r : Reader} {tv : Timeval} {tr : Trap}
    (h : r.pdu tv = some ⟨.trap, some tr⟩) : r.accepted tv = some tr := by
  cases r with
  | start => simp [Reader.pdu] at h
  | other cmd => simp [Reader.pdu] at h
  | _ =>
      simp only [Reader.pdu] at h
      split at h
      · simp at h
      · next tr' htr => simpa [htr] using h

/-- **An accepted trap** has the head and the bindings that have been read, one of which
names it. -/
theorem exists_lines_of_parse {t : Str} {tv : Timeval} {buffer : Str} {p : Bool} {tr : Trap}
    (h : (parse t tv buffer p).pdu = some ⟨.trap, some tr⟩) :
    ∃ hd lines l, (Reader.run t p .start (pduTokens buffer)).lines = some (hd, lines) ∧
      lines.find? (fun l => decide (IsSnmpTrapOID l.oid)) = some l ∧
      tr = acceptedTrap tv hd lines l := by
  cases hbuf : removeChars (some buffer) ['\n', '\r'] with
  | none => simp [parse_of_removeChars_eq_none t tv p hbuf] at h
  | some buf =>
      rw [(parse_pdu t tv p hbuf).1] at h
      have haccepted := Reader.accepted_of_pdu h
      unfold Reader.accepted at haccepted
      split at haccepted
      · simp at haccepted
      · next hd lines hlines =>
          obtain ⟨l, hl, htr⟩ := Option.map_eq_some_iff.mp haccepted
          exact ⟨hd, lines, l, hlines, hl, htr.symm⟩

/-- Its objects are the bindings. -/
theorem acceptedTrap_objects (tv : Timeval) (hd : PduHead) (lines : List TrapLine) (l : TrapLine) :
    (acceptedTrap tv hd lines l).objects.map (fun o => (o.oid, o.valueStr))
      = lines.map fun l => (some l.oid, some (joinSp l.rest)) := by
  show ((lines.map (TrapLine.object · true)).map quoteObject).map _ = _
  rw [List.map_map, List.map_map]
  apply List.map_congr_left
  intro l _
  rfl

end Trapd
