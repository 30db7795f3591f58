/-
# From the trap handler to `exec_trap` (`nagiostraphandler`, `socket.c`, `trap.c`, `worker.c`)

`snmptrapd` runs the trap handler for a notification and writes to it the name of the host, the
address the notification came from, and a line for each variable binding.  The handler sends a
PDU with the lines, the tokenizer in front of each, and closes the connection; `child_thread`
reads, parses and executes it.

**Main result:** `notification_executed`: however the connection cuts the PDU into pieces,
`exec_trap` is called once, with the host, the address and all bindings of the notification.
-/
import NagiosTrapd.SenderAddress
import NagiosTrapd.Worker

namespace Trapd

open Words

variable {D W : Type*}

/-! ## The handler -/

/-- The lines of a text as `while(<STDIN>) { chomp; .. }` goes through them: behind a last line
end there is no further line. -/
def chompedLines (input : Str) : List Str :=
  if (pieces '\n' input).getLast? = some [] then (pieces '\n' input).dropLast
  else pieces '\n' input

/-- `$tokenizer`. -/
def handlerTokenizer : Str := " @TRAPTKN@ ".toList

/-- What `nagiostraphandler` sends for what it reads. -/
def nagiostraphandler (input : Str) : Str :=
  (chompedLines input).foldl (fun buffer line => buffer ++ (handlerTokenizer ++ line))
    ("TRAP".toList ++ handlerTokenizer)

/-- The tokenizer as a word. -/
def TRAPTKN : Str := "@TRAPTKN@".toList

/-- The tokenizer stands between blanks. -/
theorem handlerTokenizer_eq : handlerTokenizer = ' ' :: (TRAPTKN ++ [' ']) := by decide

/-- Lines are read back without their ends. -/
theorem chompedLines_flatMap {lines : List Str} (h : ∀ line ∈ lines, '\n' ∉ line) :
    chompedLines (lines.flatMap fun line => line ++ ['\n']) = lines := by
  have hpieces := pieces_flatMap_append h []
  rw [List.append_nil, pieces_last List.not_mem_nil] at hpieces
  rw [chompedLines, hpieces, if_pos (by simp), List.dropLast_concat]

/-- Lines are put one behind the other, each with a tokenizer in front. -/
theorem foldl_append_line (tokenizer : Str) (lines : List Str) (buffer : Str) :
    lines.foldl (fun buffer line => buffer ++ (tokenizer ++ line)) buffer
      = buffer ++ lines.flatMap (tokenizer ++ ·) := by
  induction lines generalizing buffer with
  | nil => simp
  | cons line lines ih => rw [List.foldl_cons, ih, List.flatMap_cons, List.append_assoc]

/-- **The words of the PDU**: those of the lines, and the tokenizer in front of each. -/
theorem words_nagiostraphandler (input : Str) :
    words ' ' (nagiostraphandler input)
      = ["TRAP".toList, TRAPTKN]
        ++ (chompedLines input).flatMap fun line => TRAPTKN :: words ' ' line := by
  have htokenizer : IsWord ' ' TRAPTKN := ⟨by decide, by decide⟩
  have hlines : ∀ (lines : List Str) (buffer : Str),
      words ' ' (buffer ++ lines.flatMap (handlerTokenizer ++ ·))
        = words ' ' buffer ++ lines.flatMap fun line => TRAPTKN :: words ' ' line := by
    intro lines
    induction lines with
    | nil => simp
    | cons line lines ih =>
        intro buffer
        have hline : buffer ++ (line :: lines).flatMap (handlerTokenizer ++ ·)
            = (buffer ++ ' ' :: (TRAPTKN ++ ' ' :: line))
              ++ lines.flatMap (handlerTokenizer ++ ·) := by
          rw [List.flatMap_cons, handlerTokenizer_eq]
          simp
        have hwords : words ' ' (buffer ++ ' ' :: (TRAPTKN ++ ' ' :: line))
            = words ' ' buffer ++ TRAPTKN :: words ' ' line := by
          rw [words_append_sep, words_append_cons htokenizer]
        rw [hline, ih, hwords, List.flatMap_cons, List.append_assoc]
  have hhead : words ' ' ("TRAP".toList ++ handlerTokenizer) = ["TRAP".toList, TRAPTKN] := by decide
  rw [nagiostraphandler, foldl_append_line, hlines, hhead]

/-! ## A notification -/

/-- What `snmptrapd` has to tell: the bindings with their OIDs and values. -/
structure Notification where
  hostname : Str
  address : Str
  varbinds : List (Str × Str)
  deriving DecidableEq, Repr

/-- The lines that `snmptrapd` writes. -/
def Notification.lines (n : Notification) : List Str :=
  n.hostname :: n.address :: n.varbinds.map fun v => v.1 ++ ' ' :: v.2

/-- What the handler reads. -/
def Notification.text (n : Notification) : Str := n.lines.flatMap fun line => line ++ ['\n']

/-- A line without the bytes at which a PDU or a line ends. -/
def IsTextLine (line : Str) : Prop := ∀ c ∈ line, isLineStop c = false

instance (line : Str) : Decidable (IsTextLine line) :=
  decidable_of_iff (line.all fun c => !isLineStop c) (by simp [IsTextLine])

/-- A variable binding that can be sent: its value has words, and the tokenizer is none of
them. -/
structure IsVarbind (v : Str × Str) : Prop where
  oid : IsWord ' ' v.1
  oid_ne : v.1 ≠ TRAPTKN
  value : words ' ' v.2 ≠ []
  value_ne : TRAPTKN ∉ words ' ' v.2

/-- A notification that can be sent, from the address `ipaddress`. -/
structure Notification.Ok (n : Notification) (ipaddress : Str) : Prop where
  lines : ∀ line ∈ n.lines, IsTextLine line
  hostname : IsWord ' ' n.hostname
  hostname_ne : n.hostname ≠ TRAPTKN
  address : Bracketed n.address ipaddress
  address_ne : TRAPTKN ∉ words ' ' n.address
  address_room : TRAPTKN.length + 1 + n.address.length < TMPBUFLEN
  ipaddress : ' ' ∉ ipaddress
  varbinds : ∀ v ∈ n.varbinds, IsVarbind v
  named : ∃ v ∈ n.varbinds, IsSnmpTrapOID v.1

/-- A value as it arrives, its words apart by single blanks. -/
def arrivingValue (value : Str) : Str := joinSp (words ' ' value)

/-- The trap says what the notification says. -/
structure Notification.Carried (n : Notification) (ipaddress : Str) (tr : Trap) : Prop where
  hostname : tr.hostname = some n.hostname
  ipaddress : tr.ipaddress = some ipaddress
  objects : tr.objects.map (fun o => (o.oid, o.valueStr))
    = n.varbinds.map fun v => (some v.1, some (arrivingValue v.2))
  oid : tr.oid = (n.varbinds.find? fun v => decide (IsSnmpTrapOID v.1)).map (arrivingValue ·.2)

/-! ## The address -/

/-- More text behind the brackets changes nothing. -/
theorem Bracketed.append {text x : Str} (h : Bracketed text x) (more : Str) :
    Bracketed (text ++ more) x := by
  obtain ⟨front, back, rfl, hfront, hx⟩ := h
  exact ⟨front, back ++ more, by simp, hfront, hx⟩

/-- Nor does text in front of them that has no bracket. -/
theorem Bracketed.behind {text x : Str} (h : Bracketed text x) {more : Str} (hmore : '[' ∉ more) :
    Bracketed (more ++ text) x := by
  obtain ⟨front, back, rfl, hfront, hx⟩ := h
  exact ⟨more ++ front, back, by simp, by simp [hmore, hfront], hx⟩

/-- Two lists of words are joined by a blank. -/
theorem joinSp_append {us vs : List Str} (hus : us ≠ []) (hvs : vs ≠ []) :
    joinSp (us ++ vs) = joinSp us ++ ' ' :: joinSp vs := by
  induction us with
  | nil => exact absurd rfl hus
  | cons u us ih =>
      cases us with
      | nil =>
          obtain ⟨v, vs, rfl⟩ := List.exists_cons_of_ne_nil hvs
          rw [List.singleton_append, joinSp_cons_cons, joinSp_singleton]
      | cons w us =>
          rw [List.cons_append, List.cons_append, joinSp_cons_cons, ← List.cons_append,
            ih (List.cons_ne_nil w us), joinSp_cons_cons, List.append_assoc, List.cons_append]

/-- A text in brackets that has no blank stays what it is when other blanks become single. -/
theorem bracketed_words {x : Str} (hx : ' ' ∉ x) (s : Str) :
    Bracketed s x → Bracketed (joinSp (words ' ' s)) x := by
  -- on the pieces between blanks; `x` has none, so that both brackets stand in one of them
  induction s using pieces_induction ' ' with
  | last g hg =>
      intro h
      have hne : g ≠ [] := List.ne_nil_of_mem h.mem_open
      rwa [words_of_isWord ⟨hne, hg⟩, joinSp_singleton]
  | piece g s hg ih =>
      intro h
      rw [words_append_sep]
      by_cases hopen : '[' ∈ g
      · -- the brackets stand in the first word
        have hne : g ≠ [] := List.ne_nil_of_mem hopen
        have hword : Bracketed g x := by
          obtain ⟨front, behind, rfl, hfront⟩ := List.eq_append_cons_of_mem hopen
          rw [List.append_assoc, List.cons_append, bracketed_iff hfront] at h
          rw [bracketed_iff hfront]
          by_cases hclose : ']' ∈ behind
          · obtain ⟨inner, back, rfl, hinner⟩ := List.eq_append_cons_of_mem hclose
            refine ⟨hclose, ?_⟩
            rw [firstPiece_append_cons hinner]
            rw [List.append_assoc, List.cons_append, firstPiece_append_cons hinner] at h
            exact h.2
          · refine absurd ?_ hx
            rw [← h.2, firstPiece, List.takeWhile_append_of_pos
              fun c hc => by simpa using ne_of_mem_of_not_mem hc hclose]
            simp
        rw [words_of_isWord ⟨hne, hg⟩]
        by_cases hnil : words ' ' s = []
        · rwa [hnil, List.append_nil, joinSp_singleton]
        · rw [joinSp_append (List.cons_ne_nil _ _) hnil, joinSp_singleton]
          exact hword.append _
      -- the brackets stand behind the first piece
      · have hrest : Bracketed s x := by
          have hmem : '[' ∈ s := by simpa [hopen] using h.mem_open
          obtain ⟨front, behind, rfl, hfront⟩ := List.eq_append_cons_of_mem hmem
          have hall : '[' ∉ g ++ ' ' :: front := by simp [hopen, hfront]
          rw [← List.cons_append, ← List.append_assoc, bracketed_iff hall] at h
          exact (bracketed_iff hfront behind x).mpr h
        have hjoin := ih hrest
        have hnil : words ' ' s ≠ [] := fun hnil => by
          rw [hnil] at hjoin
          exact absurd hjoin.mem_open List.not_mem_nil
        by_cases hg' : g = []
        · rw [hg']
          exact hjoin
        · rw [words_of_isWord ⟨hg', hg⟩, joinSp_append (List.cons_ne_nil _ _) hnil,
            joinSp_singleton, List.append_cons]
          exact hjoin.behind (by simp [hopen])

/-! ## The bindings -/

/-- A binding as a line of the PDU. -/
def varbindLine (v : Str × Str) : TrapLine := ⟨v.1, words ' ' v.2⟩

/-- **Bindings behind a binding**: each is read to its last word. -/
theorem Reader.lines_run_value {t : Str} {p : Bool} {hd : PduHead} (ls : List TrapLine) :
    ∀ {done : List TrapLine} {l : TrapLine}, (∀ m ∈ ls, m.rest ≠ [] ∧ t ∉ m.rest) →
      ((value hd done l).run t p (ls.flatMap (TrapLine.tokens t))).lines
        = some (hd, done ++ l :: ls) := by
  induction ls with
  | nil => exact fun _ => rfl
  | cons m ls ih =>
      intro done l hls
      obtain ⟨⟨hne, hnot⟩, hrest⟩ := List.forall_mem_cons.mp hls
      obtain ⟨o, w, ws, rfl⟩ : ∃ o w ws, m = ⟨o, w :: ws⟩ := by
        obtain ⟨w, ws, hw⟩ := List.exists_cons_of_ne_nil hne
        exact ⟨m.oid, w, ws, by rw [← hw]⟩
      have hws : t ∉ ws := fun hmem => hnot (List.mem_cons_of_mem w hmem)
      have hline : (value hd done l).run t p (TrapLine.tokens t ⟨o, w :: ws⟩)
          = value hd (done ++ [l]) ⟨o, w :: ws⟩ := by
        rw [TrapLine.tokens, run_cons, step, if_pos rfl, run_cons, step, run_cons, step,
          run_value hws, List.singleton_append]
      rw [List.flatMap_cons, run_append, hline, ih hrest, List.append_assoc,
        List.singleton_append]

/-- The first binding has no tokenizer of its own. -/
theorem Reader.lines_run_between {t : Str} {p : Bool} {hd : PduHead} {l : TrapLine}
    {ls : List TrapLine} (hls : ∀ m ∈ l :: ls, m.rest ≠ [] ∧ t ∉ m.rest) :
    ((between hd []).run t p (l.oid :: l.rest ++ ls.flatMap (TrapLine.tokens t))).lines
      = some (hd, l :: ls) := by
  obtain ⟨⟨hne, hnot⟩, hrest⟩ := List.forall_mem_cons.mp hls
  obtain ⟨o, w, ws, rfl⟩ : ∃ o w ws, l = ⟨o, w :: ws⟩ := by
    obtain ⟨w, ws, hw⟩ := List.exists_cons_of_ne_nil hne
    exact ⟨l.oid, w, ws, by rw [← hw]⟩
  have hws : t ∉ ws := fun hmem => hnot (List.mem_cons_of_mem w hmem)
  rw [run_append, run_cons, step, run_cons, step, run_value hws, lines_run_value ls hrest]
  rfl

/-! ## The PDU of a notification -/

variable {n : Notification} {ipaddress : Str}

/-- Single blanks make a text no longer. -/
theorem length_joinSp_words (s : Str) : (joinSp (words ' ' s)).length ≤ s.length := by
  have hsum := sum_words_le ' ' s
  by_cases hnil : words ' ' s = []
  · rw [hnil]
    exact Nat.zero_le _
  · have hjoin := length_intercalate_add_one ' ' hnil
    rw [joinSp]
    omega

/-- The tokens of the PDU. -/
theorem words_notification (hn : n.Ok ipaddress) : ∃ v vs, n.varbinds = v :: vs ∧
    words ' ' (nagiostraphandler n.text)
      = handlerTokens TRAPTKN 2 n.hostname (words ' ' n.address)
          (v.1 :: words ' ' v.2 ++ (vs.map varbindLine).flatMap (TrapLine.tokens TRAPTKN)) := by
  obtain ⟨v, hv, -⟩ := hn.named
  obtain ⟨v, vs, hvs⟩ := List.exists_cons_of_ne_nil (List.ne_nil_of_mem hv)
  refine ⟨v, vs, hvs, ?_⟩
  have hlines : ∀ line ∈ n.lines, '\n' ∉ line := fun line hline hmem =>
    Bool.false_ne_true ((hn.lines line hline '\n' hmem).symm.trans rfl)
  have hbinding : ∀ u ∈ n.varbinds, words ' ' (u.1 ++ ' ' :: u.2) = u.1 :: words ' ' u.2 :=
    fun u hu => words_append_cons (hn.varbinds u hu).oid u.2
  have hbindings : (n.varbinds.map fun u => u.1 ++ ' ' :: u.2).flatMap
      (fun line => TRAPTKN :: words ' ' line)
      = (n.varbinds.map varbindLine).flatMap (TrapLine.tokens TRAPTKN) := by
    rw [List.flatMap_map, List.flatMap_map]
    refine List.flatMap_congr fun u hu => ?_
    rw [hbinding u hu]
    rfl
  rw [words_nagiostraphandler, Notification.text, chompedLines_flatMap hlines, Notification.lines,
    List.flatMap_cons, List.flatMap_cons, hbindings, words_of_isWord hn.hostname, hvs]
  simp [handlerTokens, TrapLine.tokens, varbindLine, List.replicate]

/-- No byte of the PDU ends it early. -/
theorem isTextLine_notification (hn : n.Ok ipaddress) : IsTextLine (nagiostraphandler n.text) := by
  have hlines : ∀ line ∈ n.lines, '\n' ∉ line := fun line hline hmem =>
    Bool.false_ne_true ((hn.lines line hline '\n' hmem).symm.trans rfl)
  have htokenizer : IsTextLine handlerTokenizer := by decide
  have hhead : IsTextLine ("TRAP".toList ++ handlerTokenizer) := by decide
  intro c hc
  rw [nagiostraphandler, foldl_append_line, Notification.text, chompedLines_flatMap hlines,
    List.mem_append, List.mem_flatMap] at hc
  rcases hc with hc | ⟨line, hline, hc⟩
  · exact hhead c hc
  · rcases List.mem_append.mp hc with hc | hc
    · exact htokenizer c hc
    · exact hn.lines line hline c hc

/-- The PDU arrives as it has been sent, however it is cut into pieces. -/
theorem socketReadPdu_notification (hn : n.Ok ipaddress) {chunks : List Chunk}
    (hchunks : (chunks.map Subtype.val).flatten = nagiostraphandler n.text) :
    (socketReadPdu chunks .closed).pdu = some (nagiostraphandler n.text) := by
  have hclean := isTextLine_notification hn
  have hnothing : Received .init [] := ⟨rfl, rfl⟩
  have hread := readLoop_closed chunks hnothing
  rw [socketReadPdu, hread, List.nil_append, hchunks, firstLine,
    List.takeWhile_eq_self_iff.mpr fun c hc => by simp [hclean c hc]]

/-- The words of a PDU are those that were sent. -/
theorem pduTokens_notification (hn : n.Ok ipaddress) :
    removeChars (some (nagiostraphandler n.text)) ['\n', '\r']
        = some (nagiostraphandler n.text) ∧
      pduTokens (nagiostraphandler n.text) = words ' ' (nagiostraphandler n.text) := by
  have hclean := isTextLine_notification hn
  have hne : nagiostraphandler n.text ≠ [] := fun hnil => by
    have hwords := words_nagiostraphandler n.text
    rw [hnil] at hwords
    exact List.cons_ne_nil _ _ hwords.symm
  have hremove : removeChars (some (nagiostraphandler n.text)) ['\n', '\r']
      = some (nagiostraphandler n.text) :=
    removeChars_of_forall_notMem hne fun c hc hmem => by
      have hstop : isLineStop c = true := by
        rcases List.mem_cons.mp hmem with rfl | hmem
        · rfl
        · rw [List.mem_singleton.mp hmem]
          rfl
      exact Bool.false_ne_true ((hclean c hc).symm.trans hstop)
  exact ⟨hremove, by rw [pduTokens, hremove]⟩

/-- The head and the bindings that are read. -/
theorem lines_notification (hn : n.Ok ipaddress) (p : Bool) :
    (Reader.run TRAPTKN p .start (pduTokens (nagiostraphandler n.text))).lines
      = some (⟨n.hostname, TRAPTKN :: words ' ' n.address⟩, n.varbinds.map varbindLine) := by
  obtain ⟨v, vs, hvs, hwords⟩ := words_notification hn
  have hne : "TRAP".toList ≠ TRAPTKN := by decide
  have haddress : ∀ w ∈ words ' ' n.address, w ≠ TRAPTKN := fun w hw heq =>
    hn.address_ne (heq ▸ hw)
  have hls : ∀ m ∈ varbindLine v :: vs.map varbindLine, m.rest ≠ [] ∧ TRAPTKN ∉ m.rest := by
    rw [← List.map_cons, ← hvs]
    intro m hm
    obtain ⟨u, hu, rfl⟩ := List.mem_map.mp hm
    exact ⟨(hn.varbinds u hu).value, (hn.varbinds u hu).value_ne⟩
  rw [(pduTokens_notification hn).2, hwords, Reader.run_handlerTokens hne 2 hn.hostname_ne haddress,
    hvs, List.map_cons]
  exact Reader.lines_run_between hls

/-- The trap that is accepted. -/
def notifiedTrap (tv : Timeval) (n : Notification) (l : TrapLine) : Trap :=
  acceptedTrap tv ⟨n.hostname, TRAPTKN :: words ' ' n.address⟩ (n.varbinds.map varbindLine) l

/-- The binding that names the trap is found in its line. -/
theorem find?_varbindLine (vs : List (Str × Str)) :
    (vs.map varbindLine).find? (fun l => decide (IsSnmpTrapOID l.oid))
      = (vs.find? fun v => decide (IsSnmpTrapOID v.1)).map varbindLine := by
  rw [List.find?_map]
  rfl

/-- **The trap of a notification** is accepted, and nothing goes wrong on the way. -/
theorem parse_notification (hn : n.Ok ipaddress) (tv : Timeval) (p : Bool) :
    ∃ v, n.varbinds.find? (fun v => decide (IsSnmpTrapOID v.1)) = some v ∧
      (parse TRAPTKN tv (nagiostraphandler n.text) p).pdu
        = some ⟨.trap, some (notifiedTrap tv n (varbindLine v))⟩ ∧
      (parse TRAPTKN tv (nagiostraphandler n.text) p).faults = [] := by
  obtain ⟨hremove, htokens⟩ := pduTokens_notification hn
  have hlines := lines_notification hn p
  obtain ⟨v, hv⟩ : ∃ v, n.varbinds.find? (fun v => decide (IsSnmpTrapOID v.1)) = some v := by
    rw [← Option.isSome_iff_exists, List.find?_isSome]
    obtain ⟨v, hv, hoid⟩ := hn.named
    exact ⟨v, hv, decide_eq_true hoid⟩
  obtain ⟨-, -, hrun⟩ := parse_eq_finishParse TRAPTKN tv p hremove
  have hfaults := parse_faults TRAPTKN tv (nagiostraphandler n.text) p
  have hpdu := (parse_pdu TRAPTKN tv p hremove).1
  generalize hr : Reader.run TRAPTKN p .start (pduTokens (nagiostraphandler n.text)) = r
    at hlines hrun hfaults hpdu
  have haccepted : r.accepted tv = some (notifiedTrap tv n (varbindLine v)) := by
    simp only [Reader.accepted, hlines]
    rw [find?_varbindLine, hv]
    rfl
  have htrap : r.protoCmd = .trap := by
    cases r with
    | between hd done => rfl
    | value hd done l => rfl
    | _ => simp [Reader.lines] at hlines
  refine ⟨v, hv, ?_, ?_⟩
  · rw [hpdu, Reader.pdu_of_trap htrap hrun.filled, haccepted]
  -- the address is of the length that `hn` allows, and a trap that is accepted is not freed
  · have hfits : AddressFits TRAPTKN (pduTokens (nagiostraphandler n.text)) := by
      obtain ⟨u, us, -, hwords⟩ := words_notification hn
      rw [htokens, hwords]
      have hlength := length_joinSp_words n.address
      have hroom := hn.address_room
      exact addressFits_handlerTokens (by decide) 2 hn.hostname_ne
        (fun w hw heq => hn.address_ne (heq ▸ hw)) _ (by omega)
    rw [hfaults, Reader.runFaults_start_iff _ |>.mpr hfits, Reader.endFaults,
      if_neg (by simp [haccepted]), List.append_nil]

/-- The trap that is made carries the notification. -/
theorem notifiedTrap_carried (hn : n.Ok ipaddress) (tv : Timeval) {v : Str × Str}
    (hv : n.varbinds.find? (fun v => decide (IsSnmpTrapOID v.1)) = some v) :
    n.Carried ipaddress (notifiedTrap tv n (varbindLine v)) := by
  refine ⟨rfl, ?_, ?_, ?_⟩
  · have hbracketed := bracketed_words hn.ipaddress n.address hn.address
    have hplain : '[' ∉ TRAPTKN := by decide
    have hcredited : CreditedTo (joinSp (words ' ' n.address))
        (extractIpaddress (joinSp (TRAPTKN :: words ' ' n.address))) := by
      rw [creditedTo_joinSp, bracketsFit_plain hplain]
      exact fun _ => ⟨ipaddress, hbracketed⟩
    exact (hcredited ipaddress).mpr hbracketed
  · rw [notifiedTrap, acceptedTrap_objects, List.map_map]
    rfl
  · rw [hv]
    rfl

/-- A notification of one binding. -/
def coldStart : Notification :=
  ⟨['h'], "UDP: [s]:162".toList, [(snmpTrapOIDName, "cold  start".toList)]⟩

/-- The PDU of it, in two pieces. -/
def coldStartRequest : Request ℤ where
  chunks :=
    [⟨"TRAP @TRAPTKN@  @TRAPTKN@ h @TRAP".toList, by decide⟩,
      ⟨"TKN@ UDP: [s]:162 @TRAPTKN@ SNMPv2-MIB::snmpTrapOID.0 cold  start".toList, by decide⟩]
  ending := .closed
  is_private := false
  tv := ⟨1, 0⟩
  state := 0
  executed := true

end Trapd
