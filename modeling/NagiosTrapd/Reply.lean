/-
# The reply to a PDU

`child_thread` sends the text that `trap_pdu_get_response` makes of the PDU that `parse`
returns, and hands the trap that `trap_is_trap` finds in it to `exec_trap`.

**Main result:** `reply_agrees_iff`: the reply says `ACCEPTED` exactly for an attached and
counted trap, and there is always a reply, unless the text has words and all of them are
the tokenizer, or is made of blanks: then `parse` returns NULL.  Where the address does not fit
or a trap with an object is rejected the worker may not live to reply.
-/
import NagiosTrapd.TrapFaults
import NagiosTrapd.Diagnostics

namespace Trapd

open Words

variable {D W : Type*}

/-! ## The reply -/

/-- `trap_pdu_get_response`; `w` is the state of the worker that a diagnostics request
dumps. -/
def trapPduGetResponse (ops : DoubleOps D) (table : List (DiagnosticsEntry W D)) (w : W)
    (pdu : Option Pdu) : Option Str :=
  match pdu with
  | none => none
  | some pdu =>
      match pdu.command with
      | .trap => xstrdup (some "ACCEPTED".toList)
      | .alive => xstrdup (some "YES".toList)
      | .diagnostics => some (diagnosticsPrepareWrite ops table w).text
      | .invalid => xstrdup (some "INVALID".toList)
      | .none => none

/-- `trap_is_trap`. -/
def trapIsTrap (pdu : Option Pdu) : Option Trap :=
  match pdu with
  | some pdu => if pdu.command = .trap then pdu.trap else none
  | none => none

/-- What the reply says and what `parse` has done agree: nothing undefined is done, there is a
reply, it is `ACCEPTED` exactly for a trap with an OID, such a trap is counted once, and
otherwise no trap is attached and none is counted. -/
structure ReplyAgrees (response : Option Str) (r : ParseResult) : Prop where
  faults : r.faults = []
  pdu : r.pdu ≠ none
  replied : response ≠ none
  accepted : response = some "ACCEPTED".toList ↔
    ∃ tr, trapIsTrap r.pdu = some tr ∧ isEmpty tr.oid = false
  counted : response = some "ACCEPTED".toList → r.trap_parsed = 1
  refused : response ≠ some "ACCEPTED".toList → r.pdu.bind Pdu.trap = none ∧ r.trap_parsed = 0

/-- A dump is no `ACCEPTED`: it is empty or has a line end. -/
theorem diagnosticsPrepareWrite_text_ne (ops : DoubleOps D)
    (table : List (DiagnosticsEntry W D)) (w : W) :
    (diagnosticsPrepareWrite ops table w).text ≠ "ACCEPTED".toList := by
  have htext : (diagnosticsPrepareWrite ops table w).text = (printedRows ops table w).flatMap
      fun row => dumpLine (diagnosticsGetPadding table) row.1 row.2 ++ ['\n'] :=
    foldl_line_text _ _ .init
  rw [htext]
  intro h
  cases hrows : printedRows ops table w with
  | nil => simp [hrows] at h
  | cons row rows =>
      have hmem : '\n' ∈ "ACCEPTED".toList := by
        rw [← h, hrows]
        simp
      exact absurd hmem (by decide)

/-! ## What the reader returns -/

namespace Reader

variable {t : Str} {p : Bool}

/-- Once a command is read there is no way back. -/
theorem step_ne_start {r : Reader} (hr : r ≠ start) (w : Str) : r.step t p w ≠ start := by
  cases r with
  | start => exact absurd rfl hr
  | other cmd => exact hr
  | _ =>
      unfold step
      try split_ifs
      all_goals exact fun h => by cases h

/-- Nothing is read exactly from tokenizers. -/
theorem run_eq_start_iff (tokens : List Str) :
    ∀ r, run t p r tokens = start ↔ r = start ∧ ∀ w ∈ tokens, w = t := by
  induction tokens with
  | nil => simp
  | cons w ws ih =>
      intro r
      rw [run_cons, ih, List.forall_mem_cons]
      constructor
      · rintro ⟨hstep, hws⟩
        by_cases hr : r = start
        · subst hr
          refine ⟨rfl, ?_, hws⟩
          by_contra hw
          rw [step, if_neg hw] at hstep
          split_ifs at hstep
        · exact absurd hstep (step_ne_start hr w)
      · rintro ⟨rfl, rfl, hws⟩
        exact ⟨if_pos rfl, hws⟩

/-- A reader without a complete trap returns no trap, one with it returns a trap that has
an OID. -/
theorem pdu_cases {r : Reader} {s : ParseState} (h : Represents r s) (hr : r ≠ start)
    (tv : Timeval) :
    (∃ tr, r.accepted tv = some tr ∧ r.pdu tv = some ⟨.trap, some tr⟩ ∧
        isEmpty tr.oid = false) ∨
      (r.accepted tv = none ∧ ∃ cmd, cmd ≠ ProtoCmd.none ∧ cmd ≠ .trap ∧
        r.pdu tv = some ⟨cmd, none⟩) := by
  by_cases htrap : r.protoCmd = .trap
  · rw [pdu_of_trap htrap h.filled]
    cases haccepted : r.accepted tv with
    | none => exact Or.inr ⟨rfl, .invalid, by simp⟩
    | some tr =>
        refine Or.inl ⟨tr, rfl, rfl, ?_⟩
        unfold accepted at haccepted
        split at haccepted
        · simp at haccepted
        · next hd lines hlines =>
            obtain ⟨l, hl, rfl⟩ := Option.map_eq_some_iff.mp haccepted
            have hfull := h.full_of_lines hlines l (List.mem_of_find?_eq_some hl)
            simpa [acceptedTrap, finishedTrap, TrapLine.object, MibObject.valueStr, isEmpty]
              using hfull.2
  · cases r with
    | start => exact absurd rfl hr
    | other cmd => exact Or.inr ⟨rfl, cmd, h.filled.1, h.filled.2, rfl⟩
    | _ => exact absurd rfl htrap

end Reader

/-! ## Agreement -/

/-- A PDU object without a trap, which is not counted. -/
theorem replyAgrees_of_no_trap (ops : DoubleOps D) (table : List (DiagnosticsEntry W D)) (w : W)
    {r : ParseResult} {cmd : ProtoCmd} (hnone : cmd ≠ .none) (htrap : cmd ≠ .trap)
    (hpdu : r.pdu = some ⟨cmd, none⟩) (hcount : r.trap_parsed = 0) (hfaults : r.faults = []) :
    ReplyAgrees (trapPduGetResponse ops table w r.pdu) r := by
  have hresponse : ∃ text, trapPduGetResponse ops table w r.pdu = some text ∧
      text ≠ "ACCEPTED".toList := by
    rw [hpdu]
    cases cmd with
    | none => exact absurd rfl hnone
    | trap => exact absurd rfl htrap
    | alive => exact ⟨_, rfl, by decide⟩
    | diagnostics => exact ⟨_, rfl, diagnosticsPrepareWrite_text_ne ops table w⟩
    | invalid => exact ⟨_, rfl, by decide⟩
  obtain ⟨text, htext, hne⟩ := hresponse
  have hrefused : trapPduGetResponse ops table w r.pdu ≠ some "ACCEPTED".toList := by
    rw [htext]
    exact fun h => hne (Option.some_inj.mp h)
  constructor
  · exact hfaults
  · simp [hpdu]
  · simp [htext]
  · refine iff_of_false hrefused ?_
    rintro ⟨tr, htr, -⟩
    simp [trapIsTrap, hpdu, htrap] at htr
  · exact fun h => absurd h hrefused
  · exact fun _ => ⟨by simp [hpdu], hcount⟩

/-- A trap with an OID, counted once. -/
theorem replyAgrees_of_trap (ops : DoubleOps D) (table : List (DiagnosticsEntry W D)) (w : W)
    {r : ParseResult} {tr : Trap} (hpdu : r.pdu = some ⟨.trap, some tr⟩)
    (hoid : isEmpty tr.oid = false) (hcount : r.trap_parsed = 1) (hfaults : r.faults = []) :
    ReplyAgrees (trapPduGetResponse ops table w r.pdu) r := by
  have hresponse : trapPduGetResponse ops table w r.pdu = some "ACCEPTED".toList := by
    rw [hpdu]
    rfl
  constructor
  · exact hfaults
  · simp [hpdu]
  · simp [hresponse]
  · exact iff_of_true hresponse ⟨tr, by simp [trapIsTrap, hpdu], hoid⟩
  · exact fun _ => hcount
  · exact fun h => absurd hresponse h

/-- Where nothing undefined is done, reply and state agree unless the text holds no word but the
tokenizer. -/
theorem replyAgrees_iff_of_faults (ops : DoubleOps D) (table : List (DiagnosticsEntry W D)) (w : W)
    {t : Str} {tv : Timeval} {buffer : Str} {is_private : Bool}
    (hfaults : (parse t tv buffer is_private).faults = []) :
    ReplyAgrees (trapPduGetResponse ops table w (parse t tv buffer is_private).pdu)
        (parse t tv buffer is_private) ↔
      removeChars (some buffer) ['\n', '\r'] = none ∨ ∃ word ∈ pduTokens buffer, word ≠ t := by
  cases hbuf : removeChars (some buffer) ['\n', '\r'] with
  | none =>
      refine iff_of_true ?_ (Or.inl rfl)
      have hparse := parse_of_removeChars_eq_none t tv is_private hbuf
      have hpdu : (parse t tv buffer is_private).pdu = some ⟨.invalid, none⟩ := by rw [hparse]
      exact replyAgrees_of_no_trap ops table w (by simp) (by simp) hpdu (by rw [hparse]) hfaults
  | some buf =>
      obtain ⟨hpdu, hcount⟩ := parse_pdu t tv is_private hbuf
      have hstart := Reader.run_eq_start_iff (t := t) (p := is_private) (pduTokens buffer) .start
      constructor
      · intro hagrees
        right
        by_contra hnone
        push Not at hnone
        have hrun := hstart.mpr ⟨rfl, hnone⟩
        rw [hrun] at hpdu
        exact hagrees.pdu hpdu
      -- a word that is not the tokenizer takes the reader out of its first state
      · rintro (h | ⟨word, hword, hne⟩)
        · simp at h
        have hrun : Reader.run t is_private .start (pduTokens buffer) ≠ .start := fun h =>
          hne ((hstart.mp h).2 word hword)
        have hrepresents := represents_parseLoop t is_private (pduTokens buffer) represents_init
          fun w hw => (isWord_of_mem_pduTokens hw).1
        rcases Reader.pdu_cases hrepresents hrun tv with
          ⟨tr, haccepted, htr, hoid⟩ | ⟨haccepted, cmd, hnone, htrap, hcmd⟩
        · exact replyAgrees_of_trap ops table w (hpdu.trans htr) hoid
            (by rw [hcount, haccepted]; rfl) hfaults
        · exact replyAgrees_of_no_trap ops table w hnone htrap (hpdu.trans hcmd)
            (by rw [hcount, haccepted]; rfl) hfaults

end Trapd
