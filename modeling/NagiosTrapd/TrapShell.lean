/-
# What the shell reads of a trap

`exec_command` appends the objects of a trap to the command of a plugin and hands the
whole text to a shell.  Each object is to be one word, `oid="quoted value"`.
`trap_confined_iff` says when that is so for a trap that `parse` accepts: exactly when
no value has a double quote between its first and its last character.
-/
import NagiosTrapd.Exec
import NagiosTrapd.TrapInv

namespace Trapd

open ShellWords

/-! ## The contents of a trap -/

/-- The texts of the objects, each behind a space. -/
def spaced (texts : List Str) : Str := texts.flatMap (' ' :: ·)

/-- The loop of `trap_get_contents` behind its first object. -/
theorem contentsLoop_some {objects : List MibObject} {texts : List Str}
    (h : objects.map objectContents = texts.map some) :
    ∀ b, contentsLoop (some b) objects = some (some (b ++ spaced texts)) := by
  induction objects generalizing texts with
  | nil =>
      intro b
      obtain rfl : texts = [] := by simpa using h.symm
      simp [contentsLoop, spaced]
  | cons o objects ih =>
      intro b
      cases texts with
      | nil => simp at h
      | cons text texts =>
          rw [List.map_cons, List.map_cons, List.cons.injEq] at h
          rw [contentsLoop, h.1]
          simp only
          rw [ih h.2]
          simp [spaced]

/-- **The contents of a trap**, behind the space that `exec_command` puts before them. -/
theorem spaced_trapGetContents {trap : Trap} {texts : List Str}
    (h : trap.objects.map objectContents = texts.map some) (hne : trap.objects ≠ []) :
    ∃ contents, trapGetContents trap = some (some contents) ∧ ' ' :: contents = spaced texts := by
  unfold trapGetContents
  cases hobjects : trap.objects with
  | nil => exact absurd hobjects hne
  | cons o objects =>
      rw [hobjects] at h
      cases texts with
      | nil => simp at h
      | cons text texts =>
          rw [List.map_cons, List.map_cons, List.cons.injEq] at h
          refine ⟨text ++ spaced texts, ?_, by simp [spaced]⟩
          rw [contentsLoop, h.1]
          exact contentsLoop_some h.2 text

/-! ## Reading the objects -/

/-- The scanner stands outside quotes and has read these words. -/
def Outside (s : Scan) (ws : List Str) : Prop :=
  (s.mode = .bare ∧ ws = s.words ++ [s.word]) ∨
    (s.mode = .blank ∧ s.word = [] ∧ ws = s.words)

theorem Outside.allWords {s : Scan} {ws : List Str} (h : Outside s ws) :
    s.allWords = some ws := by
  unfold Scan.allWords
  rcases h with ⟨hmode, rfl⟩ | ⟨hmode, -, rfl⟩ <;> rw [hmode]

/-- A space ends the word that is being read. -/
theorem Outside.step_space {s : Scan} {ws : List Str} (h : Outside s ws) :
    (step s ' ').mode = .blank ∧ (step s ' ').word = [] ∧ (step s ' ').words = ws ∧
      (step s ' ').active = s.active := by
  rcases h with ⟨hmode, rfl⟩ | ⟨hmode, hword, rfl⟩
  · simp [step, hmode, isBlank, Scan.finish]
  · simp [step, hmode, isBlank, hword]

/-- A character of an OID name. -/
def isOidChar (c : Char) : Bool := c.isAlphanum || c ∈ ['.', ':', '-', '_']

/-- The characters of OID names stand for themselves. -/
theorem isOrdinary_of_isOidChar {c : Char} (h : isOidChar c = true) : isOrdinary c = true := by
  by_contra hc
  have hspecial : c ∈ [' ', '\t', '|', '&', ';', '<', '>', '(', ')', '\n', '$', '`', '*', '?', '[',
      '"', '\'', '\\', '#', '~'] := by
    simp only [isOrdinary, isBlank, isOperator, isExpansion, Bool.not_eq_true', Bool.not_eq_false,
      Bool.or_eq_true, beq_iff_eq, decide_eq_true_eq, List.mem_cons, List.not_mem_nil,
      or_false, or_assoc] at hc ⊢
    exact hc
  have hnone : [' ', '\t', '|', '&', ';', '<', '>', '(', ')', '\n', '$', '`', '*', '?', '[',
      '"', '\'', '\\', '#', '~'].all (fun d => !isOidChar d) = true := by decide
  have hnot := List.all_eq_true.mp hnone c hspecial
  rw [h] at hnot
  exact absurd hnot (by decide)

/-- One object is read as one word. -/
theorem Outside.object {s : Scan} {ws : List Str} (h : Outside s ws) {oid q : Str}
    (hoid : ∀ c ∈ oid, isOidChar c = true) (hq : DoubleQuoted q) :
    Outside (scan s (' ' :: (oid ++ '=' :: q))) (ws ++ [oid ++ '=' :: q]) ∧
      (scan s (' ' :: (oid ++ '=' :: q))).active = s.active := by
  obtain ⟨hmode, hword, hwords, hactive⟩ := h.step_space
  -- the name and the equals sign start the word, the quoted value extends it
  have hname : scan (step s ' ') (oid ++ ['='])
      = { step s ' ' with mode := .bare, word := oid ++ ['='] } := by
    have hordinary : ∀ c ∈ oid ++ ['='], isOrdinary c := by
      intro c hc
      rcases List.mem_append.mp hc with hc | hc
      · exact isOrdinary_of_isOidChar (hoid c hc)
      · obtain rfl := List.mem_singleton.mp hc
        decide
    obtain ⟨d, t, hdt⟩ := List.exists_cons_of_ne_nil
      (List.append_ne_nil_of_right_ne_nil oid (List.cons_ne_nil '=' []))
    rw [hdt] at hordinary ⊢
    rw [scan_blank hmode hordinary, hword]
    rfl
  have hall : scan s (' ' :: (oid ++ '=' :: q))
      = { step s ' ' with mode := .bare, word := oid ++ '=' :: q } := by
    have hsplit : oid ++ '=' :: q = (oid ++ ['=']) ++ q := by simp
    rw [scan_cons, hsplit, scan_append, hname, scan_doubleQuoted hq rfl]
  rw [hall]
  exact ⟨Or.inl ⟨rfl, by rw [hwords]⟩, hactive⟩

/-- A text that is a name, an equals sign and a double-quoted string. -/
def ObjectText (text : Str) : Prop :=
  ∃ oid q, (∀ c ∈ oid, isOidChar c = true) ∧ DoubleQuoted q ∧ text = oid ++ '=' :: q

/-- **Every object is read as one word**, and nothing becomes active. -/
theorem Outside.objects {texts : List Str} (h : ∀ text ∈ texts, ObjectText text) :
    ∀ {s : Scan} {ws : List Str}, Outside s ws →
      Outside (scan s (spaced texts)) (ws ++ texts)
        ∧ (scan s (spaced texts)).active = s.active := by
  induction texts with
  | nil => intro s ws hs; simpa [spaced] using hs
  | cons text texts ih =>
      intro s ws hs
      obtain ⟨oid, q, hoid, hq, rfl⟩ := h text List.mem_cons_self
      obtain ⟨hout, hactive⟩ := hs.object hoid hq
      obtain ⟨hout', hactive'⟩ := ih (fun t ht => h t (List.mem_cons_of_mem _ ht)) hout
      have hscan : scan s (spaced ((oid ++ '=' :: q) :: texts))
          = scan (scan s (' ' :: (oid ++ '=' :: q))) (spaced texts) := by
        rw [← scan_append]
        simp [spaced]
      rw [hscan, hactive', hactive]
      exact ⟨by simpa using hout', rfl⟩

/-! ## A trap that is accepted -/

/-- The objects of a trap have OID names without special characters. -/
def PlainNames (trap : Trap) : Prop :=
  ∀ o ∈ trap.objects, ∃ oid, o.oid = some oid ∧ ∀ c ∈ oid, isOidChar c = true

/-- The shell reads the text appended to a plugin's command as one word for each
object, and nothing in it is active. -/
def ReadAsWords (objects : List MibObject) (appended : Str) : Prop :=
  (scan .start appended).allWords = some (objects.filterMap objectContents) ∧
    (objects.filterMap objectContents).length = objects.length ∧
    (scan .start appended).active = []

/-- Each value that a trap carries is stored as one double-quoted string. -/
def QuotedObjects (objects : List MibObject) : Prop :=
  ∀ o ∈ objects, ∃ q, o.quoted_value = .set (some q) ∧ DoubleQuoted q

/-- **Shell confinement.**  Each value is one double-quoted string; and if the OID names
are plain, the text that `exec_command` appends to the command is one word for each object. -/
def Confined (command : Str) (trap : Trap) : Prop :=
  QuotedObjects trap.objects ∧
    (PlainNames trap → ∃ contents appended, trapGetContents trap = some (some contents) ∧
      fullCommand command contents = command ++ appended ∧ ReadAsWords trap.objects appended)

/-- No value has a double quote between its first and its last character. -/
def NoInnerQuotes (trap : Trap) : Prop :=
  ∀ o ∈ trap.objects, ∀ v, o.valueStr = some v → NoInnerQuote v

/-- The text of an object whose fields are set. -/
def objectText (o : MibObject) : Str := o.oid.getD [] ++ '=' :: quotedValue (o.valueStr.getD [])

theorem objectContents_eq {o : MibObject} {oid : Str} (hoid : o.oid = some oid) (ho : o.Quoted) :
    objectContents o = some (objectText o) := by
  obtain ⟨v, hv, hq⟩ := ho
  simp only [objectContents, objectText, hoid, hq, hv, Option.getD_some]

/-- The quoted value of an object is one string exactly when its value has no inner quote. -/
theorem quotedObjects_iff {trap : Trap} (h : ∀ o ∈ trap.objects, o.Quoted) :
    QuotedObjects trap.objects ↔ NoInnerQuotes trap := by
  constructor
  · intro hquoted o ho v hv
    obtain ⟨v', hv', hset⟩ := h o ho
    obtain rfl := Option.some_inj.mp (hv.symm.trans hv')
    obtain ⟨q, hq, hdouble⟩ := hquoted o ho
    rw [hset] at hq
    injection hq with hq
    obtain rfl := Option.some_inj.mp hq
    exact (doubleQuoted_quotedValue v).mp hdouble
  · intro hinner o ho
    obtain ⟨v, hv, hset⟩ := h o ho
    exact ⟨_, hset, (doubleQuoted_quotedValue v).mpr (hinner o ho v hv)⟩

/-- **The appended text is read as words**, when the names are plain and no value has an
inner quote. -/
theorem readAsWords_of_noInnerQuotes {trap : Trap} (hne : trap.objects ≠ [])
    (h : ∀ o ∈ trap.objects, o.Quoted) (hnames : PlainNames trap) (hinner : NoInnerQuotes trap)
    (command : Str) :
    ∃ contents appended, trapGetContents trap = some (some contents) ∧
      fullCommand command contents = command ++ appended ∧ ReadAsWords trap.objects appended := by
  have htexts : trap.objects.map objectContents = (trap.objects.map objectText).map some := by
    rw [List.map_map]
    refine List.map_congr_left fun o ho => ?_
    obtain ⟨oid, hoid, -⟩ := hnames o ho
    exact objectContents_eq hoid (h o ho)
  have hwords : trap.objects.filterMap objectContents = trap.objects.map objectText := by
    have hid := congrArg (List.filterMap id) htexts
    rw [List.filterMap_map, List.filterMap_map] at hid
    simpa using hid
  have hobject : ∀ text ∈ trap.objects.map objectText, ObjectText text := by
    intro text htext
    obtain ⟨o, ho, rfl⟩ := List.mem_map.mp htext
    obtain ⟨oid, hoid, hplain⟩ := hnames o ho
    obtain ⟨v, hv, -⟩ := h o ho
    refine ⟨oid, quotedValue v, hplain,
      (doubleQuoted_quotedValue v).mpr (hinner o ho v hv), ?_⟩
    rw [objectText, hoid, hv]
    rfl
  obtain ⟨contents, hcontents, happended⟩ := spaced_trapGetContents htexts hne
  have hstart : Outside .start [] := Or.inr ⟨rfl, rfl, rfl⟩
  obtain ⟨hout, hactive⟩ := Outside.objects hobject hstart
  refine ⟨contents, spaced (trap.objects.map objectText), hcontents, ?_, ?_, ?_, hactive⟩
  · rw [fullCommand, happended]
  · rw [hout.allWords, hwords, List.nil_append]
  · rw [hwords, List.length_map]

/-- **When a trap is confined.**  For every buffer that `parse` accepts as a trap, its
values stay in their quotes, and what is appended to a command is read as one word for
each object, exactly when no value has a double quote between its first and its last
character. -/
theorem trap_confined_iff (trap_tokenizer : Str) (tv : Timeval) (buffer : Str)
    (is_private : Bool) (accepted : Trap) (command : Str)
    (hparse : (parse trap_tokenizer tv buffer is_private).pdu = some ⟨.trap, some accepted⟩) :
    Confined command accepted ↔ NoInnerQuotes accepted := by
  obtain ⟨hne, hquoted⟩ := parse_accepted hparse
  constructor
  · rintro ⟨hobjects, -⟩
    exact (quotedObjects_iff hquoted).mp hobjects
  · intro hinner
    exact ⟨(quotedObjects_iff hquoted).mpr hinner, fun hnames =>
      readAsWords_of_noInnerQuotes hne hquoted hnames hinner command⟩

/-- A PDU whose second object has a given value. -/
def pduWithValue (value : Str) : Str :=
  "TRAP :: h :: [s] :: SNMPv2-MIB::snmpTrapOID.0 o :: a ".toList ++ value

/-- An object of an accepted trap. -/
def acceptedObject (oid value : Str) : MibObject :=
  ⟨some oid, some ⟨value.length + 1, value, true⟩, .set (some (quotedValue value))⟩

/-- The trap that `pduWithValue` stands for. -/
def trapWithValue (value : Str) : Trap where
  seconds := 1
  useconds := 0
  hostname := some ['h']
  ipaddress := some ['s']
  oid := some ['o']
  objects := [acceptedObject snmpTrapOIDName ['o'], acceptedObject ['a'] value]

/-- A PDU with a harmless value. -/
theorem trap_confined_quoted :
    (parse "::".toList ⟨1, 0⟩ (pduWithValue "\"up\"".toList) false).pdu
      = some ⟨.trap, some (trapWithValue "\"up\"".toList)⟩ ∧
    (Confined ['p'] (trapWithValue "\"up\"".toList)
      ↔ NoInnerQuotes (trapWithValue "\"up\"".toList)) :=
  ⟨by decide, trap_confined_iff "::".toList ⟨1, 0⟩ (pduWithValue "\"up\"".toList) false _ _
    (by decide)⟩

/-- A value with two inner double quotes leaves its quotes: `reboot` is a command. -/
theorem not_trap_confined :
    ¬ ∀ (trap_tokenizer : Str) (tv : Timeval) (buffer : Str) (is_private : Bool)
        (accepted : Trap) (command : Str),
        (parse trap_tokenizer tv buffer is_private).pdu = some ⟨.trap, some accepted⟩ →
        Confined command accepted := by
  intro h
  have hplain : PlainNames (trapWithValue "a\";reboot;\"b".toList) := by
    intro o ho
    rcases List.mem_pair.mp ho with rfl | rfl <;>
      exact ⟨_, rfl, List.all_eq_true.mp (by decide)⟩
  obtain ⟨-, hwords⟩ := h "::".toList ⟨1, 0⟩ (pduWithValue "a\";reboot;\"b".toList) false
    (trapWithValue "a\";reboot;\"b".toList) ['p'] (by decide)
  obtain ⟨contents, appended, hcontents, hfull, -, -, hactive⟩ := hwords hplain
  obtain rfl :
      " SNMPv2-MIB::snmpTrapOID.0=\"o\" a=\"a\\\\\";reboot;\\\\\"b\"".toList = appended := by
    have hc := Option.some_inj.mp (Option.some_inj.mp hcontents)
    rw [← hc] at hfull
    exact List.append_cancel_left hfull
  exact absurd hactive (by decide)

end Trapd
