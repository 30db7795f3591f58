/-
# What the token loop keeps

Whatever is sent, the variables of `parse` stay consistent: the current object is one
of the trap's, and every object has its value, but for the one whose OID has just been
read (`ParseInv`).  Each token keeps this, and so does the whole loop.

`parse_accepted` draws the consequence for a trap that `parse` accepts: it is what
`post_parse` makes of a trap all of whose objects have values.
-/
import NagiosTrapd.Trap

namespace Trapd

open Words

/-! ## The invariant -/

/-- The current object is one of the trap's. -/
def InTrap (trap : Option Trap) (object : Option ℕ) : Prop :=
  ∀ tr i, trap = some tr → object = some i → i < tr.objects.length

/-- Every object of the trap has its value, but for one. -/
def ValuedBut (missing : Option ℕ) (trap : Option Trap) : Prop :=
  ∀ tr q o, trap = some tr → tr.objects[q]? = some o → o.value ≠ none ∨ missing = some q

/-- The object without value: the one whose OID has just been read. -/
def ParseState.missing (s : ParseState) : Option ℕ :=
  if s.status = .oidRead then s.object else none

/-- **The variables of `parse` are consistent.** -/
structure ParseInv (s : ParseState) : Prop where
  fresh : s.status = .started ∨ s.status = .commandRead → s.object = none
  inTrap : InTrap s.trap s.object
  valued : ValuedBut s.missing s.trap
  unfilled : ∀ p, s.pdu = some p → p.trap = none

/-! ## Through the pointer `object` -/

section Pointers

variable {s : ParseState} {f : MibObject → MibObject × List ParseFault}

/-- A change of the current object leaves the state. -/
@[simp] theorem ParseState.onObject_status : (s.onObject f).status = s.status := by
  unfold ParseState.onObject
  split
  · split <;> rfl
  · rfl

/-- It leaves which object is the current one. -/
@[simp] theorem ParseState.onObject_object : (s.onObject f).object = s.object := by
  unfold ParseState.onObject
  split
  · split <;> rfl
  · rfl

/-- It leaves the PDU. -/
@[simp] theorem ParseState.onObject_pdu : (s.onObject f).pdu = s.pdu := by
  unfold ParseState.onObject
  split
  · split <;> rfl
  · rfl

/-- It leaves the buffer of the address. -/
@[simp] theorem ParseState.onObject_ipbuf : (s.onObject f).ipbuf = s.ipbuf := by
  unfold ParseState.onObject
  split
  · split <;> rfl
  · rfl

/-- So does a change of the trap. -/
@[simp] theorem ParseState.onTrap_ipbuf (g : Trap → Trap) : (s.onTrap g).ipbuf = s.ipbuf := by
  unfold ParseState.onTrap
  cases s.trap <;> rfl

/-- So does a new object. -/
@[simp] theorem ParseState.newObject_ipbuf (token : Str) : (s.newObject token).ipbuf = s.ipbuf := by
  unfold ParseState.newObject
  cases s.trap with
  | none => rfl
  | some tr =>
      simp only
      split
      · rfl
      · cases s.object <;> rfl

/-- A new object leaves the PDU. -/
@[simp] theorem ParseState.newObject_pdu (token : Str) : (s.newObject token).pdu = s.pdu := by
  unfold ParseState.newObject
  cases s.trap with
  | none => rfl
  | some tr =>
      simp only
      split
      · rfl
      · cases s.object <;> rfl

/-- **What a change of the current object does to the trap**: nothing, if there is no
such object, or it replaces the object. -/
theorem ParseState.onObject_trap (s : ParseState) (f : MibObject → MibObject × List ParseFault) :
    ((s.onObject f).trap = s.trap ∧
        ∀ tr i, s.trap = some tr → s.object = some i → tr.objects[i]? = none) ∨
      ∃ tr i o, s.trap = some tr ∧ s.object = some i ∧ tr.objects[i]? = some o ∧
        (s.onObject f).trap = some { tr with objects := tr.objects.set i (f o).1 } := by
  unfold ParseState.onObject
  rcases htrap : s.trap with _ | tr
  · exact Or.inl ⟨htrap, by simp⟩
  rcases hobject : s.object with _ | i
  · exact Or.inl ⟨htrap, by simp⟩
  cases ho : tr.objects[i]? with
  | none =>
      refine Or.inl ⟨by simpa [ho, ParseState.fault] using htrap, ?_⟩
      rintro _ _ ⟨⟩ ⟨⟩
      exact ho
  | some o => exact Or.inr ⟨tr, i, o, rfl, rfl, ho, by simp [ho, ParseState.fault]⟩

/-- The current object stays one of the trap. -/
theorem InTrap.onObject (h : InTrap s.trap s.object) :
    InTrap (s.onObject f).trap (s.onObject f).object := by
  rw [ParseState.onObject_object]
  rcases s.onObject_trap f with ⟨htrap, -⟩ | ⟨tr, i, o, htr, -, -, htrap⟩
  · rw [htrap]
    exact h
  · rw [htrap]
    rintro _ j ⟨⟩ hj
    simpa using h tr j htr hj

/-- **What a new object does to the trap**: nothing, if there is no trap, or it stands
behind some of the trap's objects and is the current one. -/
theorem ParseState.newObject_trap (h : InTrap s.trap s.object) (token : Str) :
    ((s.newObject token).trap = s.trap ∧ (s.newObject token).object = s.object) ∨
      ∃ tr objects, s.trap = some tr ∧ objects <+: tr.objects ∧
        (s.newObject token).trap = some
          { tr with objects := objects ++ [⟨xstrdup (some token), none, .unset⟩] } ∧
        (s.newObject token).object = some objects.length := by
  unfold ParseState.newObject
  rcases htrap : s.trap with _ | tr
  · exact Or.inl ⟨htrap, rfl⟩
  by_cases hnil : tr.objects = []
  · exact Or.inr ⟨tr, [], rfl, List.nil_prefix, by simp [hnil], by simp [hnil]⟩
  rcases hobject : s.object with _ | i
  · exact Or.inl ⟨by simpa [hnil, ParseState.fault] using htrap, by
      simpa [hnil, ParseState.fault] using hobject⟩
  · have hlen : (tr.objects.take (i + 1)).length = i + 1 := by
      rw [List.length_take]
      exact min_eq_left (h tr i htrap hobject)
    exact Or.inr ⟨tr, tr.objects.take (i + 1), rfl, List.take_prefix _ _, by simp [hnil],
      by simp [hnil, hlen]⟩

/-- The change leaves every object with a value, if it leaves the current one with a
value where that was the one without, or had its value before. -/
theorem ValuedBut.onObject {missing : Option ℕ} (h : ValuedBut missing s.trap)
    (hmissing : missing = none ∨ missing = s.object)
    (hf : ∀ o : MibObject, o.value ≠ none ∨ missing ≠ none → (f o).1.value ≠ none) :
    ValuedBut none (s.onObject f).trap := by
  rcases s.onObject_trap f with ⟨htrap, hout⟩ | ⟨tr, i, o, htr, hobject, ho, htrap⟩
  · rw [htrap]
    intro tr q o htr hq
    rcases h tr q o htr hq with hvalue | hq'
    · exact Or.inl hvalue
    -- the object without value would be the current one, which the trap does not have
    rcases hmissing with hnone | hobject
    · rw [hnone] at hq'
      cases hq'
    · rw [hout tr q htr (hobject ▸ hq')] at hq
      cases hq
  · rw [htrap]
    rintro _ q o' ⟨⟩ hq
    left
    rw [List.getElem?_set] at hq
    by_cases hiq : i = q
    · subst hiq
      rw [if_pos rfl, if_pos (List.getElem?_eq_some_iff.mp ho).1] at hq
      obtain rfl := Option.some_inj.mp hq
      refine hf o ?_
      rcases h tr i o htr ho with hvalue | hsome
      · exact Or.inl hvalue
      · exact Or.inr (by simp [hsome])
    · rw [if_neg hiq] at hq
      rcases h tr q o' htr hq with hvalue | hq'
      · exact hvalue
      · rcases hmissing with hnone | hcur
        · rw [hnone] at hq'
          cases hq'
        · rw [← hcur, hq'] at hobject
          exact absurd (Option.some_inj.mp hobject).symm hiq

end Pointers

/-! ## One token -/

/-- A value that is allocated is there. -/
theorem allocValue_value (n : ℕ) (text : Str) (o : MibObject) :
    (allocValue n text o).1.value ≠ none := by
  simp [allocValue]

/-- It is there when it has grown. -/
theorem growValue_value (n pos : ℕ) (text : Str) {o : MibObject} (h : o.value ≠ none) :
    (growValue n pos text o).1.value ≠ none := by
  obtain ⟨b, hb⟩ := Option.ne_none_iff_exists'.mp h
  simp [growValue, hb]

/-- It is there when it is terminated. -/
theorem terminateValue_value (pos : ℕ) {o : MibObject} (h : o.value ≠ none) :
    (terminateValue pos o).1.value ≠ none := by
  obtain ⟨b, hb⟩ := Option.ne_none_iff_exists'.mp h
  simp [terminateValue, hb]

namespace ParseInv

variable {s : ParseState}

/-- The invariant holds at the start. -/
theorem init : ParseInv .init := by
  refine ⟨fun _ => rfl, ?_, ?_, ?_⟩
  · intro tr i htr
    cases htr
  · intro tr q o htr
    cases htr
  · intro p hp
    cases hp

/-- A change of the current object, with a step to a status in which no value is missing. -/
theorem onObject (h : ParseInv s) {f : MibObject → MibObject × List ParseFault}
    {s' : ParseState} (htrap : s'.trap = (s.onObject f).trap) (hobject : s'.object = s.object)
    (hstatus : s'.status = .readingValue ∨ s'.status = .valueRead)
    (hpdu : s'.pdu = s.pdu)
    (hf : ∀ o : MibObject, o.value ≠ none ∨ s.missing ≠ none → (f o).1.value ≠ none) :
    ParseInv s' := by
  have hmissing : s.missing = none ∨ s.missing = s.object := by
    unfold ParseState.missing
    split
    · exact Or.inr rfl
    · exact Or.inl rfl
  have hnone : s'.missing = none := by
    rcases hstatus with hst | hst <;> simp [ParseState.missing, hst]
  refine ⟨?_, ?_, ?_, hpdu ▸ h.unfilled⟩
  · rcases hstatus with hst | hst <;> simp [hst]
  · rw [htrap, hobject]
    simpa using h.inTrap.onObject (f := f)
  · rw [htrap, hnone]
    exact h.valued.onObject hmissing hf

/-- A new object is the current one, and the one without value. -/
theorem newObject (h : ParseInv s) (hmissing : s.missing = none) (token : Str)
    {s' : ParseState} (htrap : s'.trap = (s.newObject token).trap)
    (hobject : s'.object = (s.newObject token).object) (hstatus : s'.status = .oidRead)
    (hpdu : s'.pdu = s.pdu) : ParseInv s' := by
  have hmissing' : s'.missing = s'.object := by simp [ParseState.missing, hstatus]
  have hvalued := h.valued
  rw [hmissing] at hvalued
  -- the new object is the last one, or there is no trap to put it in
  refine ⟨by simp [hstatus], ?_, ?_, hpdu ▸ h.unfilled⟩
  · rw [htrap, hobject]
    rcases ParseState.newObject_trap h.inTrap token with
      ⟨hsame, hobj⟩ | ⟨tr, objects, -, -, hnew, hobj⟩
    · rw [hsame, hobj]
      exact h.inTrap
    · rw [hnew, hobj]
      rintro _ i ⟨⟩ ⟨⟩
      simp
  · rw [htrap, hmissing', hobject]
    rcases ParseState.newObject_trap h.inTrap token with
      ⟨hsame, -⟩ | ⟨tr, objects, htr, hprefix, hnew, hobj⟩
    · rw [hsame]
      intro tr q o htr hq
      exact Or.inl ((hvalued tr q o htr hq).resolve_right nofun)
    · rw [hnew, hobj]
      rintro _ q o ⟨⟩ hq
      rcases lt_or_ge q objects.length with hlt | hge
      · -- an object from before
        rw [List.getElem?_append_left hlt] at hq
        obtain ⟨rest, hrest⟩ := hprefix
        have hold : tr.objects[q]? = some o := by
          rw [← hrest, List.getElem?_append_left hlt, hq]
        exact Or.inl ((hvalued tr q o htr hold).resolve_right nofun)
      · have hq' := (List.getElem?_eq_some_iff.mp hq).1
        rw [List.length_append, List.length_singleton] at hq'
        have heq : objects.length = q := by omega
        exact Or.inr (congrArg some heq)

/-- Steps that leave the objects alone, in a status in which none is without value. -/
theorem keep (h : ParseInv s) (hmissing : s.missing = none) {s' : ParseState}
    (htrap : s'.trap.map Trap.objects = s.trap.map Trap.objects) (hobject : s'.object = s.object)
    (hpdu : s'.pdu = s.pdu)
    (hfresh : s'.status = .started ∨ s'.status = .commandRead → s.object = none) :
    ParseInv s' := by
  have hsame : ∀ tr', s'.trap = some tr' → ∃ tr, s.trap = some tr ∧ tr'.objects = tr.objects := by
    intro tr' htr'
    rw [htr', Option.map_some] at htrap
    obtain ⟨tr, htr, heq⟩ := Option.map_eq_some_iff.mp htrap.symm
    exact ⟨tr, htr, heq.symm⟩
  refine ⟨fun hst => hobject.trans (hfresh hst), ?_, ?_, hpdu ▸ h.unfilled⟩
  · intro tr' i htr' hi
    obtain ⟨tr, htr, heq⟩ := hsame tr' htr'
    rw [heq]
    exact h.inTrap tr i htr (hobject ▸ hi)
  · intro tr' q o htr' hq
    obtain ⟨tr, htr, heq⟩ := hsame tr' htr'
    rw [heq] at hq
    have hvalued := h.valued tr q o htr hq
    rw [hmissing] at hvalued
    exact Or.inl (hvalued.resolve_right nofun)

/-- The `switch` keeps the variables consistent, state by state. -/
theorem parseSwitch (h : ParseInv s) (p : Bool) (token : Str) :
    ParseInv (parseSwitch p s token) := by
  have hmissing (hst : s.status ≠ .oidRead) : s.missing = none := by
    simp [ParseState.missing, hst]
  -- the first two states build the PDU and the trap, the others change the trap, its objects or
  -- the current object
  cases hstatus : s.status with
  | started =>
      have hnone := hmissing (by simp [hstatus])
      have hobject := h.fresh (Or.inl hstatus)
      have hvalued := h.valued
      rw [hnone] at hvalued
      refine ⟨?_, ?_, ?_, ?_⟩
      · simp [Trapd.parseSwitch, hstatus, hobject]
      · simpa [Trapd.parseSwitch, hstatus] using h.inTrap
      · simpa [Trapd.parseSwitch, hstatus, ParseState.missing] using hvalued
      · simp [Trapd.parseSwitch, hstatus]
  | commandRead =>
      have hobject := h.fresh (Or.inr hstatus)
      refine ⟨?_, ?_, ?_, ?_⟩
      · simp [Trapd.parseSwitch, hstatus]
      · simp [Trapd.parseSwitch, hstatus, InTrap, hobject]
      · intro tr q o htr hq
        obtain rfl : { allocTrap with hostname := xstrdup (some token) } = tr := by
          simpa [Trapd.parseSwitch, hstatus] using htr
        simp [allocTrap] at hq
      · simpa [Trapd.parseSwitch, hstatus] using h.unfilled
  | hostnameRead =>
      refine h.keep (hmissing (by simp [hstatus])) ?_ ?_ ?_ ?_ <;>
        simp [Trapd.parseSwitch, hstatus, ParseState.fault]
  | readingIpaddress =>
      cases hfound : s.tokenizer_found with
      | false =>
          refine h.keep (hmissing (by simp [hstatus])) ?_ ?_ ?_ ?_ <;>
            simp [Trapd.parseSwitch, hstatus, hfound, ParseState.fault]
      | true =>
          refine h.keep (hmissing (by simp [hstatus])) ?_ ?_ ?_ ?_ <;>
            cases htrap : s.trap <;>
            simp [Trapd.parseSwitch, hstatus, hfound, ParseState.fault, ParseState.onTrap, htrap]
  | ipaddressRead =>
      refine h.newObject (hmissing (by simp [hstatus])) token ?_ ?_ ?_ ?_ <;>
        simp [Trapd.parseSwitch, hstatus]
  | oidRead =>
      refine h.onObject (f := allocValue (token.length + 1) token) ?_ ?_ ?_ ?_
        fun o _ => allocValue_value _ _ o <;>
        simp [Trapd.parseSwitch, hstatus]
  | readingValue =>
      have hnone := hmissing (by simp [hstatus])
      have hvalue (o : MibObject) (ho : o.value ≠ none ∨ s.missing ≠ none) : o.value ≠ none :=
        ho.resolve_right (by simp [hnone])
      cases hfound : s.tokenizer_found with
      | false =>
          refine h.onObject
            (f := growValue (s.tokenlen + token.length + 2) s.tokenlen (' ' :: token)) ?_ ?_ ?_ ?_
            fun o ho => growValue_value _ _ _ (hvalue o ho) <;>
            simp [Trapd.parseSwitch, hstatus, hfound]
      | true =>
          refine h.onObject (f := terminateValue s.tokenlen) ?_ ?_ ?_ ?_
            fun o ho => terminateValue_value _ (hvalue o ho) <;>
            simp [Trapd.parseSwitch, hstatus, hfound]
  | valueRead =>
      refine h.newObject (hmissing (by simp [hstatus])) token ?_ ?_ ?_ ?_ <;>
        simp [Trapd.parseSwitch, hstatus]

/-- The tokenizer flag plays no part. -/
theorem found (h : ParseInv s) (b : Bool) : ParseInv { s with tokenizer_found := b } :=
  ⟨h.fresh, h.inTrap, h.valued, h.unfilled⟩

/-- **One token keeps the variables consistent.** -/
theorem parseStep (h : ParseInv s) (t : Str) (p : Bool) (token : Str) :
    ParseInv (parseStep t p s token) := by
  unfold Trapd.parseStep
  split
  · exact h
  · simp only
    split
    · exact h.found false
    · exact ((h.found _).parseSwitch p token).found false

/-- **The whole loop keeps the variables consistent.** -/
theorem parseLoop (t : Str) (p : Bool) (tokens : List Str) :
    ∀ {s : ParseState}, ParseInv s → ParseInv (parseLoop t p s tokens) := by
  induction tokens with
  | nil => exact fun h => h
  | cons token tokens ih =>
      intro s h
      exact ih (h.parseStep t p token)

end ParseInv

/-! ## A trap that is accepted -/

/-- The object's quoted value is that of its value. -/
def MibObject.Quoted (o : MibObject) : Prop :=
  ∃ v, o.valueStr = some v ∧ o.quoted_value = .set (some (quotedValue v))

/-- An object with a value gets a quoted one. -/
theorem quoteObject_quoted {o : MibObject} (h : o.value ≠ none) : (quoteObject o).Quoted := by
  obtain ⟨b, hb⟩ := Option.ne_none_iff_exists'.mp h
  have hv : o.valueStr = some b.cells := by rw [MibObject.valueStr, hb]; rfl
  refine ⟨b.cells, ?_, ?_⟩ <;> simp only [quoteObject, hv]
  exact hv

/-- What `post_parse` makes of a trap: the same objects, with their quoted values, of
which there is at least one. -/
theorem objects_of_postParse {tv : Timeval} {trap accepted : Trap}
    (h : postParse tv trap = some accepted) :
    accepted.objects = trap.objects.map quoteObject ∧ trap.objects ≠ [] := by
  unfold postParse at h
  cases hfind : trap.objects.find? fun o => oidIsSnmpTrapOID o.oid with
  | none => simp [hfind] at h
  | some o =>
      simp only [hfind] at h
      refine ⟨?_, List.ne_nil_of_mem (List.mem_of_find?_eq_some hfind)⟩
      rw [← Option.some_inj.mp h]

namespace ParseInv

variable {s : ParseState}

/-- Once no object waits for its value, all have one. -/
theorem value_of_status (h : ParseInv s) (hst : s.status ≠ .oidRead) {tr : Trap}
    (htr : s.trap = some tr) {o : MibObject} (ho : o ∈ tr.objects) : o.value ≠ none := by
  obtain ⟨q, hq⟩ := List.getElem?_of_mem ho
  have hvalued := h.valued tr q o htr hq
  rw [ParseState.missing, if_neg hst] at hvalued
  exact hvalued.resolve_right nofun

/-- The value that the end of the buffer leaves open is terminated. -/
theorem close (h : ParseInv s) :
    ParseInv (if s.status = .readingValue then
      { s.onObject (terminateValue s.tokenlen) with status := .valueRead } else s) := by
  split
  case isTrue hst =>
    have hnone : s.missing = none := by simp [ParseState.missing, hst]
    exact h.onObject rfl ParseState.onObject_object (Or.inr rfl) ParseState.onObject_pdu
      fun o ho => terminateValue_value _ (ho.resolve_right (by simp [hnone]))
  case isFalse => exact h

/-- A run that ends with an accepted trap went through `post_parse`. -/
theorem finishParse (h : ParseInv s) {tv : Timeval} {accepted : Trap}
    (hres : (finishParse tv s).pdu = some ⟨.trap, some accepted⟩) :
    ∃ trap, postParse tv trap = some accepted ∧ ∀ o ∈ trap.objects, o.value ≠ none := by
  unfold Trapd.finishParse at hres
  split at hres
  case isTrue =>
    have hclose := h.close
    simp only at hres
    generalize (if s.status = .readingValue then
      { s.onObject (terminateValue s.tokenlen) with status := .valueRead } else s) = s' at *
    split at hres
    case isTrue =>
      -- the incomplete trap is rejected, and its command says so
      cases hpdu : s'.pdu <;> simp [rejectTrap, hpdu] at hres
    case isFalse hst =>
      have hread : s'.status ≠ .oidRead := by
        intro hoid
        simp [hoid] at hst
      cases hpost : s'.trap.bind (postParse tv) with
      | none => cases hpdu : s'.pdu <;> simp [hpost, rejectTrap, hpdu] at hres
      | some tr =>
          obtain ⟨trap, htrap, hout⟩ := Option.bind_eq_some_iff.mp hpost
          rw [hpost] at hres
          simp only [Option.map_eq_some_iff, Pdu.mk.injEq, Option.some.injEq] at hres
          obtain ⟨-, -, -, rfl⟩ := hres
          exact ⟨trap, hout, fun o ho => hclose.value_of_status hread htrap ho⟩
  case isFalse => exact absurd (h.unfilled _ hres) nofun

end ParseInv

/-- **The objects of a trap that `parse` accepts**: at least one, and the quoted value of
each is that of its value. -/
theorem parse_accepted {t : Str} {tv : Timeval} {buffer : Str} {p : Bool} {accepted : Trap}
    (h : (parse t tv buffer p).pdu = some ⟨.trap, some accepted⟩) :
    accepted.objects ≠ [] ∧ ∀ o ∈ accepted.objects, o.Quoted := by
  unfold parse at h
  cases hbuf : removeChars (some buffer) ['\n', '\r'] with
  | none => simp [hbuf] at h
  | some buf =>
      simp only [hbuf] at h
      obtain ⟨trap, hpost, hvalue⟩ := (ParseInv.init.parseLoop t p (words ' ' buf)).finishParse h
      obtain ⟨hobjects, hne⟩ := objects_of_postParse hpost
      rw [hobjects]
      refine ⟨by simpa using hne, fun o' ho' => ?_⟩
      obtain ⟨o, ho, rfl⟩ := List.mem_map.mp ho'
      exact quoteObject_quoted (hvalue o ho)

end Trapd
