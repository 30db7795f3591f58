/-
# The parser goes through no NULL pointer

In every turn of its loop `parse` finds a trap where it changes one, and where an OID or a
value is being read, the current object is the last of the trap.  What it accepts has all
the fields that the functions behind it read.

**Main result:** `parse_safe`.  A store outside `ipbuf` is the subject of
`address_fits_iff`, a field that is freed unset that of `freed_set_iff`.
-/
import NagiosTrapd.TrapFaults
import NagiosTrapd.TrapSerialize

namespace Trapd

open Words

/-! ## The turns of the loop -/

/-- The states that the `switch` of `parse` has a case for, in its order. -/
def switchCases : List ParseStatus :=
  [.started, .commandRead, .hostnameRead, .readingIpaddress, .ipaddressRead, .valueRead, .oidRead,
    .readingValue]

/-- **What a turn of the loop finds**: a trap once the host name has been read, a current object
that is the last of the trap while an OID or a value is being read or has just been, and a
case for its state.  The last holds of every `ParseStatus` by its type, which has just the
cases of the `switch`. -/
structure TurnSafe (s : ParseState) : Prop where
  trap : s.status ≠ .started → s.status ≠ .commandRead → s.trap ≠ none
  object : s.status = .oidRead ∨ s.status = .readingValue ∨ s.status = .valueRead →
    ∃ tr i, s.trap = some tr ∧ s.object = some i ∧ i + 1 = tr.objects.length
  status : s.status ∈ switchCases

/-- The variables of a reader are safe. -/
theorem Represents.turnSafe {r : Reader} {s : ParseState} (h : Represents r s) : TurnSafe s := by
  have hst := h.status
  have htrap := h.trap
  have hobject := h.object
  refine ⟨?_, ?_, ?_⟩
  · intro hstart hcommand
    rw [htrap]
    cases r with
    | start => exact absurd hst hstart
    | other cmd => exact absurd hst hcommand
    | command => exact absurd hst hcommand
    | _ => exact nofun
  · intro hread
    rw [hst] at hread
    rw [htrap, hobject]
    cases r with
    | between hd done =>
        by_cases hnil : done = []
        · simp [hnil] at hread
        · have hpos := List.length_pos_of_ne_nil hnil
          refine ⟨_, done.length - 1, rfl, by simp [hnil], ?_⟩
          simp only [Reader.headTrap, List.length_map]
          omega
    | oid hd done o => exact ⟨_, _, rfl, rfl, by simp [Reader.headTrap]⟩
    | value hd done l => exact ⟨_, _, rfl, rfl, by simp [Reader.headTrap]⟩
    | _ => simp at hread
  · cases s.status <;> decide

/-- Every turn, whatever the tokens before it. -/
theorem turnSafe_parseLoop (t : Str) (p : Bool) {tokens : List Str} (hne : ∀ w ∈ tokens, w ≠ []) :
    TurnSafe (parseLoop t p .init tokens) :=
  (represents_parseLoop t p tokens represents_init hne).turnSafe

/-! ## Accepted traps -/

/-- All fields of an object are there, and its value is a string. -/
structure MibObject.Complete (o : MibObject) : Prop where
  oid : o.oid ≠ none
  value : ∃ b, o.value = some b ∧ b.terminated = true
  quoted_value : ∃ q, o.quoted_value = .set (some q)

theorem complete_of_parse {t : Str} {tv : Timeval} {buffer : Str} {p : Bool} {trap : Trap}
    (h : (parse t tv buffer p).pdu = some ⟨.trap, some trap⟩) :
    ∀ o ∈ trap.objects, o.Complete := by
  obtain ⟨hd, lines, l, -, -, rfl⟩ := exists_lines_of_parse h
  intro o ho
  obtain ⟨o', ho', rfl⟩ := List.mem_map.mp (show o ∈ (lines.map (TrapLine.object · true)).map
    quoteObject from ho)
  obtain ⟨line, -, rfl⟩ := List.mem_map.mp ho'
  exact ⟨nofun, ⟨_, rfl, rfl⟩, ⟨_, rfl⟩⟩

theorem exists_mapM_printed {os : List MibObject} (h : ∀ o ∈ os, o.Complete) :
    ∃ objects, os.mapM MibObject.printed = some objects := by
  induction os with
  | nil => exact ⟨[], rfl⟩
  | cons o os ih =>
      obtain ⟨objects, hobjects⟩ := ih fun p hp => h p (List.mem_cons_of_mem o hp)
      obtain ⟨q, hq⟩ := (h o List.mem_cons_self).quoted_value
      refine ⟨(o.oid, some q) :: objects, ?_⟩
      have hprinted : o.printed = some (o.oid, some q) := by simp only [MibObject.printed, hq]
      rw [List.mapM_cons, hprinted, hobjects]
      rfl

/-- Nothing that is NULL or unset is read to serialize complete objects. -/
theorem trapSerialize_ne_none {trap : Trap} (hne : trap.objects ≠ [])
    (h : ∀ o ∈ trap.objects, o.Complete) (mode : SerializeMode) (executed : ℤ)
    (delimiter : Option Str) : trapSerialize mode (some trap) executed delimiter ≠ none := by
  have hcontents := trapGetContents_eq hne fun o ho => ⟨(h o ho).oid, (h o ho).quoted_value⟩
  obtain ⟨objects, hobjects⟩ := exists_mapM_printed h
  unfold trapSerialize
  cases mode <;> simp [hobjects, hcontents]

/-- **The parser is safe in every state.**  Every turn of its loop is; nowhere does it go
through NULL, read a value without a terminator, or store beyond the bytes that are set; and
the objects of an accepted trap are complete, so that `trap_get_contents` and
`trap_serialize` read no NULL field of an object. -/
theorem parse_safe (t : Str) (tv : Timeval) (buffer : Str) (p : Bool) :
    (∀ tokens, tokens <+: pduTokens buffer → TurnSafe (parseLoop t p .init tokens)) ∧
      (∀ f ∈ (parse t tv buffer p).faults,
        f ≠ .nullDeref ∧ f ≠ .unterminated ∧ f ≠ .unsetBytes) ∧
      ∀ trap, (parse t tv buffer p).pdu = some ⟨.trap, some trap⟩ →
        (∀ o ∈ trap.objects, o.Complete) ∧ trapGetContents trap ≠ none ∧
          trapContentsBlock trap ≠ none ∧
          ∀ mode executed delimiter, trapSerialize mode (some trap) executed delimiter ≠ none := by
  refine ⟨?_, ?_, ?_⟩
  · intro tokens hinit
    exact turnSafe_parseLoop t p fun w hw =>
      (isWord_of_mem_pduTokens (hinit.subset hw)).1
  · intro f hf
    rw [parse_faults, List.mem_append] at hf
    rcases hf with hf | hf
    · obtain ⟨i, rfl, -⟩ := Reader.mem_runFaults _ hf
      simp
    · rw [Reader.mem_endFaults hf]
      simp
  · intro trap htrap
    have hcomplete := complete_of_parse htrap
    have hne := (parse_accepted htrap).1
    have hfields := fun o ho => And.intro (hcomplete o ho).oid (hcomplete o ho).quoted_value
    obtain ⟨b, hb, -⟩ := trapContentsBlock_exact trap hne hfields
    refine ⟨hcomplete, ?_, ?_, trapSerialize_ne_none hne hcomplete⟩
    · rw [trapGetContents_eq hne hfields]
      simp
    · rw [hb]
      simp

end Trapd
