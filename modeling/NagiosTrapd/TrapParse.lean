/-
# A well-formed trap PDU reads back

The text a trap handler sends is `TRAP`, the tokenizer once or more, a host
name, the tokenizer, an address text, and for each variable binding the
tokenizer and a line `oid rest`.  `parse_trapTokens` says that `parse` returns
the host name and exactly those bindings, in order, without undefined behaviour.

The run is followed state by state: `ReadingAddress`, `BetweenLines`, `OidRead`
and `InValue` describe the variables at the point the tokens read so far lead
to, and one lemma for each says where the next token takes them.
-/
import NagiosTrapd.Trap

namespace Trapd

open Words

/-- Words joined by single spaces. -/
def joinSp (ws : List Str) : Str := [' '].intercalate ws

theorem joinSp_singleton (w : Str) : joinSp [w] = w := List.intercalate_singleton

/-- A further word adds a space and itself. -/
theorem joinSp_append_singleton {ws : List Str} (hws : ws ≠ []) (w : Str) :
    joinSp (ws ++ [w]) = joinSp ws ++ ' ' :: w := by
  unfold joinSp
  induction ws with
  | nil => exact absurd rfl hws
  | cons v vs ih =>
      cases vs with
      | nil => simp [List.intercalate_cons_cons]
      | cons u us =>
          have h := ih (List.cons_ne_nil u us)
          rw [List.cons_append, List.cons_append, List.intercalate_cons_cons,
            ← List.cons_append, h, List.intercalate_cons_cons]
          simp

/-! ## The encoding -/

/-- A word of a PDU: nonempty, without space, NUL, CR and LF. -/
def IsPduWord (w : Str) : Prop :=
  IsWord ' ' w ∧ '\x00' ∉ w ∧ '\r' ∉ w ∧ '\n' ∉ w

instance (w : Str) : Decidable (IsPduWord w) :=
  inferInstanceAs (Decidable ((w ≠ [] ∧ ' ' ∉ w) ∧ '\x00' ∉ w ∧ '\r' ∉ w ∧ '\n' ∉ w))

/-- A variable binding as the handler sends it: the OID and the words of the rest. -/
structure TrapLine where
  oid : Str
  rest : List Str

/-- The words of one line, its tokenizer in front. -/
def TrapLine.tokens (t : Str) (l : TrapLine) : List Str := t :: l.oid :: l.rest

/-- The words of a whole trap PDU; the tokenizer stands `k + 1` times behind `TRAP`. -/
def trapTokens (t : Str) (k : ℕ) (h : Str) (a : List Str) (lines : List TrapLine) :
    List Str :=
  "TRAP".toList :: List.replicate (k + 1) t ++ (h :: t :: a ++ lines.flatMap (TrapLine.tokens t))

/-- The words of a trap PDU are PDU words when its parts are. -/
theorem isPduWord_of_mem_trapTokens {t h : Str} {k : ℕ} {a : List Str} {lines : List TrapLine}
    (ht : IsPduWord t) (hh : IsPduWord h) (ha : ∀ w ∈ a, IsPduWord w)
    (hoid : ∀ l ∈ lines, IsPduWord l.oid) (hrest : ∀ l ∈ lines, ∀ w ∈ l.rest, IsPduWord w) :
    ∀ w ∈ trapTokens t k h a lines, IsPduWord w := by
  intro w hw
  simp only [trapTokens, TrapLine.tokens, List.cons_append, List.mem_cons, List.mem_append,
    List.mem_replicate, List.mem_flatMap] at hw
  rcases hw with rfl | ⟨_, rfl⟩ | rfl | rfl | hw | ⟨l, hl, rfl | rfl | hw⟩
  · exact ⟨⟨by decide, by decide⟩, by decide, by decide, by decide⟩
  · exact ht
  · exact hh
  · exact ht
  · exact ha w hw
  · exact ht
  · exact hoid l hl
  · exact hrest l hl w hw

/-! ## One iteration -/

section Steps

variable {t : Str} {p : Bool} {s : ParseState}

@[simp] theorem parseLoop_nil : parseLoop t p s [] = s := rfl

theorem parseLoop_append (us vs : List Str) :
    parseLoop t p s (us ++ vs)
      = parseLoop t p (parseLoop t p s us) vs :=
  List.foldl_append

theorem parseLoop_cons (u : Str) (vs : List Str) :
    parseLoop t p s (u :: vs) = parseLoop t p (parseStep t p s u) vs :=
  rfl

/-- A word other than the tokenizer goes to the `switch`. -/
theorem parseStep_word (hcmd : s.proto_cmd = .trap) (hfound : s.tokenizer_found = false)
    {w : Str} (hw : w ≠ t) :
    parseStep t p s w = { parseSwitch p s w with tokenizer_found := false } := by
  have hs : { s with tokenizer_found := false } = s := by cases s; simp_all
  have hword : (s.tokenizer_found || w == t) = false := by simp [hfound, hw]
  unfold parseStep
  rw [if_neg (by simp [hcmd])]
  simp only [hword, Bool.false_eq_true, false_and, if_false]
  rw [hs]

/-- Before the host name the tokenizer is skipped. -/
theorem parseStep_skip (hcmd : s.proto_cmd = .trap) (hfound : s.tokenizer_found = false)
    (hst : s.status = .commandRead) : parseStep t p s t = s := by
  cases s; simp_all [parseStep]

/-- Behind the host name the tokenizer goes to the `switch`, with its flag set. -/
theorem parseStep_tokenizer (hcmd : s.proto_cmd = .trap) (hst : s.status ≠ .started)
    (hst' : s.status ≠ .commandRead) :
    parseStep t p s t
      = { parseSwitch p { s with tokenizer_found := true } t with
          tokenizer_found := false } := by
  simp [parseStep, hcmd, hst, hst']

end Steps

/-! ## The address text -/

/-- What every state behind the command has in common. -/
structure Running (s : ParseState) : Prop where
  proto_cmd : s.proto_cmd = .trap
  tokenizer_found : s.tokenizer_found = false
  pdu : s.pdu = some ⟨.trap, none⟩
  faults : s.faults = []

/-- The address words `ws` have been copied to `ipbuf`. -/
structure ReadingAddress (tr : Trap) (ws : List Str) (s : ParseState) : Prop where
  running : Running s
  status : s.status = .readingIpaddress
  trap : s.trap = some tr
  size : s.ipbuf.size = TMPBUFLEN
  cells : s.ipbuf.cells = joinSp ws
  tokenlen : s.tokenlen = (joinSp ws).length
  nonempty : ws ≠ []

variable {t : Str} {p : Bool} {s : ParseState} {tr : Trap}

/-- A further address word is appended, while there is room for the terminator. -/
theorem ReadingAddress.word {ws : List Str} (h : ReadingAddress tr ws s) {w : Str} (hw : w ≠ t)
    (hlen : (joinSp (ws ++ [w])).length < TMPBUFLEN) :
    ReadingAddress tr (ws ++ [w]) (parseStep t p s w) := by
  have hjoin := joinSp_append_singleton h.nonempty w
  have hcheck : s.ipbuf.check (joinSp ws).length (w.length + 1) = [] := by
    rw [hjoin, List.length_append, List.length_cons] at hlen
    unfold CBuf.check
    rw [if_neg (by rw [h.cells]; omega), if_neg (by rw [h.size]; omega)]
    rfl
  have hfound := h.running.tokenizer_found
  rw [parseStep_word h.running.proto_cmd hfound hw]
  refine ⟨⟨?_, ?_, ?_, ?_⟩, ?_, ?_, ?_, ?_, ?_, ?_⟩ <;>
    simp [parseSwitch, h.status, hfound, ParseState.fault, hcheck, CBuf.write, h.cells, h.tokenlen,
      h.running.proto_cmd, h.running.pdu, h.running.faults, h.trap, h.size, hjoin]

/-- Joined words only get longer. -/
theorem length_joinSp_le_append {ws : List Str} (hws : ws ≠ []) (us : List Str) :
    (joinSp ws).length ≤ (joinSp (ws ++ us)).length := by
  induction us using List.reverseRecOn with
  | nil => simp
  | append_singleton us u ih =>
      rw [← List.append_assoc, joinSp_append_singleton (by simp [hws]), List.length_append]
      omega

/-- Address words up to the bound of the buffer. -/
theorem ReadingAddress.words (us : List Str) :
    ∀ {ws : List Str} {s : ParseState}, ReadingAddress tr ws s → (∀ w ∈ us, w ≠ t) →
      (joinSp (ws ++ us)).length < TMPBUFLEN →
      ReadingAddress tr (ws ++ us) (parseLoop t p s us) := by
  induction us with
  | nil =>
      intro ws s h _ _
      simpa using h
  | cons u us ih =>
      intro ws s h hus hlen
      have hassoc : ws ++ u :: us = (ws ++ [u]) ++ us := by simp
      rw [hassoc] at hlen ⊢
      have hle : (joinSp (ws ++ [u])).length ≤ (joinSp (ws ++ [u] ++ us)).length :=
        length_joinSp_le_append (by simp) us
      rw [parseLoop_cons]
      exact ih (h.word (hus u List.mem_cons_self) (by omega))
        (fun w hw => hus w (List.mem_cons_of_mem _ hw)) hlen

/-! ## The lines -/

/-- The object of a line once its value has been read. -/
def TrapLine.object (l : TrapLine) (terminated : Bool) : MibObject :=
  ⟨some l.oid, some ⟨(joinSp l.rest).length + 1, joinSp l.rest, terminated⟩, .unset⟩

/-- A tokenizer has been read behind the address or behind a line, the objects
`done` are complete. -/
structure BetweenLines (tr : Trap) (done : List MibObject) (s : ParseState) : Prop where
  running : Running s
  status : s.status = .ipaddressRead ∨ s.status = .valueRead
  trap : s.trap = some { tr with objects := done }
  object : done = [] ∨ s.object = some (done.length - 1)

/-- The OID of a line has been read. -/
structure OidRead (tr : Trap) (done : List MibObject) (oid : Str) (s : ParseState) : Prop where
  running : Running s
  status : s.status = .oidRead
  trap : s.trap = some { tr with objects := done ++ [⟨some oid, none, .unset⟩] }
  object : s.object = some done.length

/-- The words of `l.rest` have been copied to the value of the last object. -/
structure InValue (tr : Trap) (done : List MibObject) (l : TrapLine) (s : ParseState) : Prop where
  running : Running s
  status : s.status = .readingValue
  trap : s.trap = some { tr with objects := done ++ [l.object false] }
  object : s.object = some done.length
  tokenlen : s.tokenlen = (joinSp l.rest).length
  nonempty : l.rest ≠ []

/-- The tokenizer behind the address ends it. -/
theorem ReadingAddress.tokenizer {ws : List Str} (h : ReadingAddress tr ws s)
    (hobjects : tr.objects = []) (hlen : (joinSp ws).length < TMPBUFLEN) :
    BetweenLines { tr with ipaddress := extractIpaddress (joinSp ws) } []
      (parseStep t p s t) := by
  have hcheck : s.ipbuf.check (joinSp ws).length 1 = [] := by
    unfold CBuf.check
    rw [if_neg (by rw [h.cells]; omega), if_neg (by rw [h.size]; omega)]
    rfl
  rw [parseStep_tokenizer h.running.proto_cmd (by simp [h.status]) (by simp [h.status])]
  refine ⟨⟨?_, ?_, ?_, ?_⟩, Or.inl ?_, ?_, Or.inl rfl⟩ <;>
    simp [parseSwitch, h.status, ParseState.fault, ParseState.onTrap, hcheck, CBuf.terminate,
      h.cells, h.tokenlen, h.running.proto_cmd, h.running.pdu, h.running.faults, h.trap, hobjects]

/-- The first word of a line becomes the OID of a new object at the end of the list. -/
theorem BetweenLines.oid {done : List MibObject} (h : BetweenLines tr done s) {w : Str}
    (hw : w ≠ t) (hne : w ≠ []) : OidRead tr done w (parseStep t p s w) := by
  rw [parseStep_word h.running.proto_cmd h.running.tokenizer_found hw]
  have hswitch : parseSwitch p s w = { s.newObject w with status := .oidRead } := by
    rcases h.status with hst | hst <;> simp [parseSwitch, hst]
  have hnew : s.newObject w
      = { s with
          trap := some { tr with objects := done ++ [⟨some w, none, .unset⟩] }
          object := some done.length } := by
    by_cases hdone : done = []
    · simp [ParseState.newObject, h.trap, hdone, xstrdup_some_of_ne_nil hne]
    · have hpos : 0 < done.length := List.length_pos_iff.mpr hdone
      have hobj : s.object = some (done.length - 1) := h.object.resolve_left hdone
      have hlast : done.length - 1 + 1 = done.length := by omega
      simp [ParseState.newObject, h.trap, hobj, hdone, hlast, xstrdup_some_of_ne_nil hne]
  rw [hswitch, hnew]
  refine ⟨⟨?_, ?_, ?_, ?_⟩, ?_, ?_, ?_⟩ <;>
    simp [h.running.proto_cmd, h.running.pdu, h.running.faults]

/-- The second word of a line starts the value. -/
theorem OidRead.word {done : List MibObject} {oid : Str} (h : OidRead tr done oid s) {w : Str}
    (hw : w ≠ t) : InValue tr done ⟨oid, [w]⟩ (parseStep t p s w) := by
  rw [parseStep_word h.running.proto_cmd h.running.tokenizer_found hw]
  refine ⟨⟨?_, ?_, ?_, ?_⟩, ?_, ?_, ?_, ?_, ?_⟩ <;>
    simp [parseSwitch, h.status, ParseState.onObject, ParseState.fault, h.trap, h.object,
      allocValue, CBuf.check, CBuf.write, TrapLine.object, joinSp_singleton,
      h.running.proto_cmd, h.running.pdu, h.running.faults]

/-- A further word of a line is appended to the value. -/
theorem InValue.word {done : List MibObject} {l : TrapLine} (h : InValue tr done l s) {w : Str}
    (hw : w ≠ t) :
    InValue tr done ⟨l.oid, l.rest ++ [w]⟩ (parseStep t p s w) := by
  rw [parseStep_word h.running.proto_cmd h.running.tokenizer_found hw]
  have hjoin := joinSp_append_singleton h.nonempty w
  have hfound := h.running.tokenizer_found
  have hsize : (joinSp l.rest).length + (w.length + 1)
      ≤ (joinSp l.rest).length + w.length + 2 := by omega
  refine ⟨⟨?_, ?_, ?_, ?_⟩, ?_, ?_, ?_, ?_, ?_⟩ <;>
    simp [parseSwitch, h.status, hfound, ParseState.onObject, ParseState.fault, h.trap,
      h.object, h.tokenlen, growValue, CBuf.check, CBuf.write, TrapLine.object, hjoin, hsize,
      h.running.proto_cmd, h.running.pdu, h.running.faults]
  omega

/-- The tokenizer behind a line terminates its value. -/
theorem InValue.tokenizer {done : List MibObject} {l : TrapLine} (h : InValue tr done l s) :
    BetweenLines tr (done ++ [l.object true]) (parseStep t p s t) := by
  rw [parseStep_tokenizer h.running.proto_cmd (by simp [h.status]) (by simp [h.status])]
  refine ⟨⟨?_, ?_, ?_, ?_⟩, Or.inr ?_, ?_, Or.inr ?_⟩ <;>
    simp [parseSwitch, h.status, ParseState.onObject, ParseState.fault, h.trap,
      h.object, h.tokenlen, terminateValue, CBuf.check, CBuf.terminate, TrapLine.object,
      h.running.proto_cmd, h.running.pdu, h.running.faults]

/-! ## Runs over whole lines -/

/-- The rest of a line is read word by word. -/
theorem InValue.words {done : List MibObject} (us : List Str) :
    ∀ {l : TrapLine} {s : ParseState}, InValue tr done l s → (∀ w ∈ us, w ≠ t) →
      InValue tr done ⟨l.oid, l.rest ++ us⟩ (parseLoop t p s us) := by
  induction us with
  | nil =>
      intro l s h _
      simpa using h
  | cons u us ih =>
      intro l s h hus
      rw [parseLoop_cons, show l.rest ++ u :: us = (l.rest ++ [u]) ++ us by simp]
      exact ih (h.word (hus u List.mem_cons_self)) fun w hw => hus w (List.mem_cons_of_mem _ hw)

/-- A line without its tokenizer gives one object. -/
theorem BetweenLines.line {done : List MibObject} (h : BetweenLines tr done s) {l : TrapLine}
    (hoid : l.oid ≠ t) (hne : l.oid ≠ []) (hrest : l.rest ≠ []) (hwords : ∀ w ∈ l.rest, w ≠ t) :
    InValue tr done l (parseLoop t p s (l.oid :: l.rest)) := by
  obtain ⟨oid, rest⟩ := l
  cases rest with
  | nil => exact absurd rfl hrest
  | cons u us =>
      rw [parseLoop_cons, parseLoop_cons]
      exact ((h.oid hoid hne).word (hwords u List.mem_cons_self)).words us
        fun w hw => hwords w (List.mem_cons_of_mem _ hw)

/-- What the encoding asks of a line. -/
structure TrapLine.Ok (t : Str) (l : TrapLine) : Prop where
  oid : IsPduWord l.oid
  oid_ne : l.oid ≠ t
  rest : ∀ w ∈ l.rest, IsPduWord w
  rest_ne : ∀ w ∈ l.rest, w ≠ t
  nonempty : l.rest ≠ []

/-- **Lines after a line.**  Each adds its object behind those before. -/
theorem InValue.lines (ls : List TrapLine) :
    ∀ {done : List MibObject} {l : TrapLine} {s : ParseState}, InValue tr done l s →
      (∀ l ∈ ls, l.Ok t) →
      ∃ init last, l :: ls = init ++ [last] ∧
        InValue tr (done ++ init.map fun l => l.object true) last
          (parseLoop t p s (ls.flatMap (TrapLine.tokens t))) := by
  -- a line's value stays open until the tokenizer of the next line
  induction ls with
  | nil =>
      intro done l s h _
      refine ⟨[], l, rfl, ?_⟩
      simpa using h
  | cons l' ls ih =>
      intro done l s h hls
      have hl' : l'.Ok t := hls l' List.mem_cons_self
      have hnext := h.tokenizer (t := t) (p := p)
      have hline := hnext.line (p := p) hl'.oid_ne hl'.oid.1.1 hl'.nonempty
        hl'.rest_ne
      obtain ⟨init, last, hsplit, hval⟩ := ih hline fun m hm => hls m (List.mem_cons_of_mem _ hm)
      refine ⟨l :: init, last, by rw [hsplit]; rfl, ?_⟩
      rw [List.flatMap_cons, parseLoop_append, TrapLine.tokens, parseLoop_cons]
      simpa using hval

/-! ## The whole PDU -/

/-- The two spellings of the OID that carries the trap's own OID. -/
def IsSnmpTrapOID (oid : Str) : Prop :=
  oid = snmpTrapOIDName ∨ oid = snmpTrapOIDNumber

instance (oid : Str) : Decidable (IsSnmpTrapOID oid) :=
  inferInstanceAs (Decidable (oid = snmpTrapOIDName ∨ oid = snmpTrapOIDNumber))

theorem oidIsSnmpTrapOID_some {oid : Str} (hne : oid ≠ []) :
    oidIsSnmpTrapOID (some oid) = decide (IsSnmpTrapOID oid) := by
  rw [Bool.eq_iff_iff, decide_eq_true_iff]
  simp [oidIsSnmpTrapOID, hne, IsSnmpTrapOID]

/-- The object of the first line that carries the trap OID. -/
theorem find?_object (lines : List TrapLine) (hne : ∀ l ∈ lines, l.oid ≠ []) :
    (lines.map fun l => l.object true).find? (fun o => oidIsSnmpTrapOID o.oid)
      = (lines.find? fun l => decide (IsSnmpTrapOID l.oid)).map fun l => l.object true := by
  induction lines with
  | nil => rfl
  | cons l ls ih =>
      have hl := oidIsSnmpTrapOID_some (hne l List.mem_cons_self)
      rw [List.map_cons, List.find?_cons, List.find?_cons, ih fun m hm =>
        hne m (List.mem_cons_of_mem _ hm)]
      have hobj : oidIsSnmpTrapOID (l.object true).oid = decide (IsSnmpTrapOID l.oid) := hl
      rw [hobj]
      cases decide (IsSnmpTrapOID l.oid) <;> rfl

/-- The variables once `TRAP` has been read. -/
def commandState : ParseState :=
  { ParseState.init with status := .commandRead, proto_cmd := .trap, pdu := some ⟨.trap, none⟩ }

/-- A trap of which only the host name is known. -/
def hostTrap (h : Str) : Trap := { allocTrap with hostname := some h }

/-- `TRAP` and the tokenizers behind it leave the parser waiting for the host name. -/
theorem parseLoop_command (k : ℕ) (ht : t ≠ "TRAP".toList) :
    parseLoop t p .init ("TRAP".toList :: List.replicate (k + 1) t) = commandState := by
  have hstart : parseStep t p .init "TRAP".toList = commandState := by
    have hne : ¬ ['T', 'R', 'A', 'P'] = t := Ne.symm ht
    simp [parseStep, ParseState.init, hne, parseSwitch, readCommand, commandState]
  rw [parseLoop_cons, hstart]
  induction k + 1 with
  | zero => rfl
  | succ n ih =>
      rw [List.replicate_succ, parseLoop_cons, parseStep_skip rfl rfl rfl]
      exact ih

/-- The host name and the tokenizer behind it; the tokenizer becomes the first
word of the address. -/
theorem readingAddress_start {h : Str} (hh : h ≠ t) (hne : h ≠ []) (hlen : t.length < TMPBUFLEN) :
    ReadingAddress (hostTrap h) [t] (parseLoop t p commandState [h, t]) := by
  have hhost : parseStep t p commandState h
      = { commandState with status := .hostnameRead, trap := some (hostTrap h) } := by
    rw [parseStep_word rfl rfl hh]
    simp [parseSwitch, xstrdup_some_of_ne_nil hne, commandState, hostTrap, ParseState.init]
  have hroom : ¬ TMPBUFLEN < t.length + 1 := by omega
  rw [parseLoop_cons, hhost, parseLoop_cons, parseStep_tokenizer rfl (by simp) (by simp)]
  refine ⟨⟨?_, ?_, ?_, ?_⟩, ?_, ?_, ?_, ?_, ?_, ?_⟩ <;>
    simp [parseSwitch, ParseState.fault, commandState, ParseState.init, CBuf.write, CBuf.check,
      hroom, joinSp_singleton]

/-- **The run over the words of a trap PDU** ends inside the last line's value,
with the objects of all lines before it complete. -/
theorem parseLoop_trapTokens {h : Str} {k : ℕ} {a : List Str} {lines : List TrapLine}
    (ht : t ≠ "TRAP".toList) (hh : h ≠ t) (hne : h ≠ []) (ha : ∀ w ∈ a, w ≠ t)
    (hlen : (joinSp (t :: a)).length < TMPBUFLEN) (hlines : ∀ l ∈ lines, l.Ok t)
    (hsome : lines ≠ []) :
    ∃ init last, lines = init ++ [last] ∧
      InValue { hostTrap h with ipaddress := extractIpaddress (joinSp (t :: a)) }
        (init.map fun l => l.object true) last
        (parseLoop t p .init (trapTokens t k h a lines)) := by
  obtain ⟨l, ls, rfl⟩ := List.exists_cons_of_ne_nil hsome
  have hl : l.Ok t := hlines l List.mem_cons_self
  have hshort : t.length < TMPBUFLEN := by
    have h1 : (joinSp [t]).length ≤ (joinSp ([t] ++ a)).length :=
      length_joinSp_le_append (List.cons_ne_nil _ _) a
    rw [joinSp_singleton] at h1
    exact lt_of_le_of_lt h1 hlen
  -- the tokenizer behind the host name is the first word of the address buffer
  have haddr := (readingAddress_start (p := p) hh hne hshort).words (p := p) a ha hlen
  have hval := (haddr.tokenizer (t := t) (p := p) rfl hlen).line (p := p) hl.oid_ne hl.oid.1.1
    hl.nonempty hl.rest_ne
  obtain ⟨init, last, hsplit, hend⟩ := hval.lines (p := p) ls
    fun m hm => hlines m (List.mem_cons_of_mem _ hm)
  refine ⟨init, last, hsplit, ?_⟩
  have htokens : h :: t :: a ++ (l :: ls).flatMap (TrapLine.tokens t)
      = [h, t] ++ (a ++ (t :: (l.oid :: l.rest ++ ls.flatMap (TrapLine.tokens t)))) := by
    simp [TrapLine.tokens]
  rw [trapTokens, parseLoop_append, parseLoop_command k ht, htokens,
    parseLoop_append, parseLoop_append, parseLoop_cons, parseLoop_append]
  exact hend

/-- What `post_parse` makes of a trap with the given objects, `o` naming it. -/
def finishedTrap (tv : Timeval) (tr : Trap) (objects : List MibObject) (o : MibObject) : Trap :=
  { tr with
    oid := o.valueStr
    seconds := tv.tv_sec
    useconds := tv.tv_usec
    objects := objects.map quoteObject }

/-- The parser's end: the last value is terminated and the values are quoted. -/
theorem finishParse_inValue (tv : Timeval) {done : List MibObject} {l : TrapLine}
    (h : InValue tr done l s) {o : MibObject}
    (hfind : (done ++ [l.object true]).find? (fun o => oidIsSnmpTrapOID o.oid) = some o)
    (hterm : ∀ o ∈ done, o.value.any (fun b => !b.terminated) = false) :
    finishParse tv s
      = { pdu := some ⟨.trap, some (finishedTrap tv tr (done ++ [l.object true]) o)⟩
          trap_parsed := 1
          faults := [] } := by
  have hend : { s.onObject (terminateValue s.tokenlen) with status := .valueRead }
      = { s with
          status := .valueRead
          trap := some { tr with objects := done ++ [l.object true] } } := by
    simp [ParseState.onObject, ParseState.fault, h.trap, h.object, h.tokenlen, terminateValue,
      CBuf.check, CBuf.terminate, TrapLine.object]
  have hread : postParseFaults { tr with objects := done ++ [l.object true] } = [] := by
    unfold postParseFaults
    rw [List.filterMap_eq_nil_iff]
    intro o ho
    rcases List.mem_append.mp ho with hmem | hmem
    · rw [hterm o hmem]; rfl
    · rw [List.mem_singleton.mp hmem]; rfl
  unfold finishParse
  rw [if_pos h.running.proto_cmd]
  simp only [if_pos h.status, hend]
  simp [postParse, hfind, h.running.pdu, h.running.faults, hread, finishedTrap]

/-- A text of PDU words has no line end. -/
theorem removeChars_of_spaced {v s : Str} {ws : List Str} (hs : Spaced ' ' (v :: ws) s)
    (hws : ∀ w ∈ v :: ws, IsPduWord w) : removeChars (some s) ['\n', '\r'] = some s := by
  apply removeChars_of_forall_notMem (spaced_ne_nil hs (hws v List.mem_cons_self).1.1)
  intro c hc
  rcases mem_of_mem_spaced hs hc with rfl | ⟨w, hw, hcw⟩
  · decide
  · obtain ⟨-, -, hcr, hlf⟩ := hws w hw
    simp only [List.mem_cons, List.not_mem_nil, or_false, not_or]
    exact ⟨fun e => hlf (e ▸ hcw), fun e => hcr (e ▸ hcw)⟩

/-- **Trap PDU round trip.**  However the words of a trap PDU are spaced, `parse`
returns its host name, one object for each line in order, with the line's OID
and its rest joined by single spaces, and the trap OID is the value of the first
object that carries one. -/
theorem parse_trapTokens (t h : Str) (k : ℕ) (a : List Str) (lines : List TrapLine)
    (s : Str) (tv : Timeval) (is_private : Bool)
    (ht : IsPduWord t) (ht_ne : t ≠ "TRAP".toList)
    (hh : IsPduWord h) (hh_ne : h ≠ t)
    (ha : ∀ w ∈ a, IsPduWord w) (ha_ne : ∀ w ∈ a, w ≠ t)
    (hlen : (joinSp (t :: a)).length < TMPBUFLEN)
    (hlines : ∀ l ∈ lines, l.Ok t)
    (horigin : ∃ l ∈ lines, IsSnmpTrapOID l.oid)
    (hs : Spaced ' ' (trapTokens t k h a lines) s) :
    ∃ tr l, parse t tv s is_private
        = { pdu := some ⟨.trap, some tr⟩, trap_parsed := 1, faults := [] }
      ∧ tr.hostname = some h
      ∧ tr.objects.map (fun o => (o.oid, o.valueStr))
          = lines.map (fun l => (some l.oid, some (joinSp l.rest)))
      ∧ lines.find? (fun l => decide (IsSnmpTrapOID l.oid)) = some l
      ∧ tr.oid = some (joinSp l.rest) := by
  have hwords : ∀ w ∈ trapTokens t k h a lines, IsPduWord w :=
    isPduWord_of_mem_trapTokens ht hh ha (fun l hl => (hlines l hl).oid)
      fun l hl => (hlines l hl).rest
  have hbuf : removeChars (some s) ['\n', '\r'] = some s :=
    removeChars_of_spaced hs hwords
  have hread : words ' ' s = trapTokens t k h a lines :=
    words_of_spaced hs fun w hw => (hwords w hw).1
  -- the first line that names the trap
  obtain ⟨l, hl⟩ : ∃ l, lines.find? (fun l => decide (IsSnmpTrapOID l.oid)) = some l := by
    rw [← Option.isSome_iff_exists, List.find?_isSome]
    obtain ⟨l, hmem, hoid⟩ := horigin
    exact ⟨l, hmem, by simpa using hoid⟩
  have hsome : lines ≠ [] := by
    rintro rfl
    simp at hl
  obtain ⟨init, last, hsplit, hend⟩ := parseLoop_trapTokens (p := is_private) (k := k) ht_ne hh_ne
    hh.1.1 ha_ne hlen hlines hsome
  have hobjects : (init.map fun l => l.object true) ++ [last.object true]
      = lines.map fun l => l.object true := by
    rw [hsplit, List.map_append]
    rfl
  have hfind : ((init.map fun l => l.object true) ++ [last.object true]).find?
      (fun o => oidIsSnmpTrapOID o.oid) = some (l.object true) := by
    rw [hobjects, find?_object _ fun m hm => (hlines m hm).oid.1.1, hl]
    rfl
  have hterm : ∀ o ∈ init.map (fun l => l.object true),
      o.value.any (fun b => !b.terminated) = false := by
    intro o ho
    rw [List.mem_map] at ho
    obtain ⟨m, -, rfl⟩ := ho
    rfl
  have hfin := finishParse_inValue tv hend hfind hterm
  rw [hobjects] at hfin
  refine ⟨finishedTrap tv { hostTrap h with ipaddress := extractIpaddress (joinSp (t :: a)) }
    (lines.map fun l => l.object true) (l.object true), l, ?_, rfl, ?_, hl, rfl⟩
  · unfold parse
    rw [hbuf]
    simp only [hread]
    exact hfin
  · rw [finishedTrap, List.map_map, List.map_map]
    apply List.map_congr_left
    intro m _
    rfl

/-- A PDU with a two-word address and two bindings. -/
theorem parse_trapTokens_two_lines :
    ∃ tr l, parse "::".toList ⟨5, 7⟩
        "TRAP :: h :: UDP: [10.0.0.1] :: SNMPv2-MIB::snmpTrapOID.0 x :: o a b".toList false
        = { pdu := some ⟨.trap, some tr⟩, trap_parsed := 1, faults := [] }
      ∧ tr.hostname = some ['h']
      ∧ tr.objects.map (fun o => (o.oid, o.valueStr))
          = [(some snmpTrapOIDName, some ['x']), (some ['o'], some ['a', ' ', 'b'])]
      ∧ [TrapLine.mk snmpTrapOIDName [['x']], ⟨['o'], [['a'], ['b']]⟩].find?
          (fun l => decide (IsSnmpTrapOID l.oid)) = some l
      ∧ tr.oid = some (joinSp l.rest) :=
  parse_trapTokens "::".toList ['h'] 0 ["UDP:".toList, "[10.0.0.1]".toList]
    [⟨snmpTrapOIDName, [['x']]⟩, ⟨['o'], [['a'], ['b']]⟩] _ ⟨5, 7⟩ false
    (by decide) (by decide) (by decide) (by decide) (by decide) (by decide) (by decide)
    (by
      intro l hl
      simp only [List.mem_cons, List.not_mem_nil, or_false] at hl
      rcases hl with rfl | rfl <;> constructor <;> decide)
    ⟨_, List.mem_cons_self, Or.inl rfl⟩
    (spaced_intercalate ' ' (List.cons_ne_nil _ _))

end Trapd
