/-
# The groups of a trap's variable bindings

Behind the address segment, the tokenizers of a PDU divide its tokens into groups, one
for each variable binding: an OID and the words of its value.  `varbindGroups` is this
reading, and `parse_objects_iff` says when the object list of an accepted trap is the
list of the groups: exactly when every group that a tokenizer ends has at least two tokens.
In `S_VALUE_READ` and `S_OID_READ` a tokenizer is a token like any other.
-/
import NagiosTrapd.PduReader

namespace Trapd

open Words

/-! ## The groups -/

/-- The tokens behind the address segment: tokenizers in front of the command and of the
host name are skipped; host name and the first word of the address are taken as they
are, and the next tokenizer ends the address. -/
def varbindTokens (t : Str) (tokens : List Str) : List Str :=
  let command := tokens.dropWhile (· = t)
  let host := (command.drop 1).dropWhile (· = t)
  ((host.drop 2).dropWhile (· ≠ t)).drop 1

/-- The nonempty groups between tokenizers: OID and rest. -/
def varbindGroups (t : Str) (tokens : List Str) : List TrapLine :=
  (words t tokens).map fun g => ⟨g.headD [], g.tail⟩

/-- Every group that a tokenizer ends has an OID and a value. -/
def GroupsFilled (t : Str) (tokens : List Str) : Prop :=
  ∀ g ∈ (pieces t tokens).dropLast, 2 ≤ g.length

instance (t : Str) (tokens : List Str) : Decidable (GroupsFilled t tokens) :=
  inferInstanceAs (Decidable (∀ g ∈ (pieces t tokens).dropLast, 2 ≤ g.length))

theorem varbindGroups_last {t : Str} {g : List Str} (hg : t ∉ g) :
    varbindGroups t g = if g = [] then [] else [⟨g.headD [], g.tail⟩] := by
  unfold varbindGroups
  rw [words_eq_filter_pieces, pieces_last hg]
  cases g <;> rfl

theorem varbindGroups_piece {t : Str} {g : List Str} (hg : t ∉ g) (tokens : List Str) :
    varbindGroups t (g ++ t :: tokens)
      = (if g = [] then [] else [⟨g.headD [], g.tail⟩]) ++ varbindGroups t tokens := by
  unfold varbindGroups
  rw [words_eq_filter_pieces, words_eq_filter_pieces, pieces_append_cons hg]
  cases g <;> simp

theorem groupsFilled_last {t : Str} {g : List Str} (hg : t ∉ g) : GroupsFilled t g := by
  unfold GroupsFilled
  rw [pieces_last hg]
  simp

theorem groupsFilled_piece {t : Str} {g : List Str} (hg : t ∉ g) (tokens : List Str) :
    GroupsFilled t (g ++ t :: tokens) ↔ 2 ≤ g.length ∧ GroupsFilled t tokens := by
  unfold GroupsFilled
  rw [pieces_append_cons hg, List.dropLast_cons_of_ne_nil (pieces_ne_nil t tokens)]
  simp

/-- No group holds the tokenizer. -/
theorem not_mem_of_mem_varbindGroups {t : Str} {tokens : List Str} {l : TrapLine}
    (hl : l ∈ varbindGroups t tokens) : l.oid ≠ t ∧ t ∉ l.rest := by
  obtain ⟨g, hg, rfl⟩ := List.mem_map.mp hl
  obtain ⟨hne, ht⟩ := isWord_of_mem_words hg
  cases g with
  | nil => exact absurd rfl hne
  | cons o rest =>
      rw [List.mem_cons, not_or] at ht
      exact ⟨Ne.symm ht.1, ht.2⟩

/-! ## The head of the PDU -/

namespace Reader

variable {t : Str} {p : Bool}

/-- Where the tokenizer is skipped, the tokenizers in front are. -/
theorem run_dropWhile {r : Reader} (hr : r.step t p t = r) (tokens : List Str) :
    r.run t p tokens = r.run t p (tokens.dropWhile (· = t)) := by
  induction tokens with
  | nil => rfl
  | cons w ws ih =>
      by_cases hw : w = t
      · rw [run_cons, hw, hr, ih]
        simp
      · rw [List.dropWhile_cons_of_neg (by simpa using hw)]

/-- A simple command is all that is read. -/
theorem run_other (cmd : ProtoCmd) (tokens : List Str) :
    (other cmd).run t p tokens = other cmd := by
  induction tokens with
  | nil => rfl
  | cons w ws ih => exact ih

/-- The address ends at the next tokenizer, or with the text. -/
theorem run_address (hd : PduHead) (tokens : List Str) :
    (∃ hd', (address hd).run t p tokens
        = (between hd' []).run t p ((tokens.dropWhile (· ≠ t)).drop 1)) ∨
      (tokens.dropWhile (· ≠ t)).drop 1 = []
        ∧ ∃ hd', (address hd).run t p tokens = address hd' := by
  induction tokens generalizing hd with
  | nil => exact Or.inr ⟨rfl, hd, rfl⟩
  | cons w ws ih =>
      rw [run_cons, step]
      by_cases hw : w = t
      · rw [if_pos hw, List.dropWhile_cons_of_neg (by simpa using hw)]
        exact Or.inl ⟨hd, rfl⟩
      · rw [if_neg hw, List.dropWhile_cons_of_pos (by simpa using hw)]
        exact ih _

/-- A token that is left behind the tokenizers in front is not one. -/
theorem ne_of_dropWhile_eq_cons {tokens ws : List Str} {w : Str}
    (h : tokens.dropWhile (· = t) = w :: ws) : w ≠ t := by
  have hhead := List.head_dropWhile_not (l := tokens) (fun w => decide (w = t)) (by simp [h])
  simpa [h] using hhead

/-- **A PDU with all its parts is read from the address on** as its variable bindings. -/
theorem run_start (tokens : List Str) (h : (run t p .start tokens).lines ≠ none) :
    ∃ hd, run t p .start tokens = run t p (between hd []) (varbindTokens t tokens) := by
  have hstart : step t p start t = start := if_pos rfl
  have hcommand : step t p command t = command := if_pos rfl
  rw [run_dropWhile hstart] at h ⊢
  simp only [varbindTokens]
  cases hws : tokens.dropWhile (· = t) with
  | nil => simp [hws, lines] at h
  | cons w ws =>
      rw [hws] at h
      rw [run_cons, step, if_neg (ne_of_dropWhile_eq_cons hws)] at h ⊢
      split_ifs at h ⊢ with hread
      · rw [run_dropWhile hcommand] at h ⊢
        simp only [List.drop_succ_cons, List.drop_zero]
        cases hhost : ws.dropWhile (· = t) with
        | nil => simp [hhost, lines] at h
        | cons v vs =>
            rw [hhost] at h
            rw [run_cons, step, if_neg (ne_of_dropWhile_eq_cons hhost)] at h ⊢
            cases vs with
            | nil => simp [lines] at h
            | cons a as =>
                rw [run_cons, step] at h ⊢
                refine (run_address ⟨v, [a]⟩ as).resolve_right ?_
                rintro ⟨-, hd, hrun⟩
                rw [hrun] at h
                exact h rfl
      · rw [run_other] at h
        simp [lines] at h

/-! ## The bindings -/

/-- A value goes on while no tokenizer comes. -/
theorem run_value {hd : PduHead} {done : List TrapLine} {o : Str} {tokens : List Str}
    (ht : t ∉ tokens) :
    ∀ rest, (value hd done ⟨o, rest⟩).run t p tokens = value hd done ⟨o, rest ++ tokens⟩ := by
  induction tokens with
  | nil => simp
  | cons w ws ih =>
      intro rest
      rw [List.mem_cons, not_or] at ht
      rw [run_cons, step, if_neg (Ne.symm ht.1), ih ht.2]
      simp

/-- The binding behind `done` has the OID `o` and a value whose first word is `v`. -/
def Begins (done : List TrapLine) (o v : Str) : Reader → Prop
  | between _ lines | oid _ lines _ => ∃ vs rest, lines = done ++ ⟨o, v :: vs⟩ :: rest
  | value _ lines l =>
      ∃ vs rest, lines ++ [l] = done ++ ⟨o, v :: vs⟩ :: rest
  | _ => False

/-- A further token does not change how it begins. -/
theorem Begins.step {done : List TrapLine} {o v : Str} {r : Reader} (h : r.Begins done o v)
    (w : Str) : (r.step t p w).Begins done o v := by
  cases r with
  | between hd lines => exact h
  | oid hd lines o' =>
      obtain ⟨vs, rest, rfl⟩ := h
      exact ⟨vs, rest ++ [⟨o', [w]⟩], by simp⟩
  | value hd lines l =>
      rw [Reader.step]
      split_ifs with hw
      · exact h
      · -- the word goes to the last value, which may be the one looked at
        obtain ⟨vs, rest, hlines⟩ := h
        rcases List.eq_nil_or_concat rest with rfl | ⟨rest, l', rfl⟩
        · obtain ⟨rfl, hl⟩ := List.append_inj' hlines rfl
          obtain rfl := List.singleton_inj.mp hl
          exact ⟨vs ++ [w], [], rfl⟩
        · rw [List.concat_eq_append, ← List.cons_append, ← List.append_assoc] at hlines
          obtain ⟨rfl, -⟩ := List.append_inj' hlines rfl
          exact ⟨vs, rest ++ [{ l with rest := l.rest ++ [w] }], by simp⟩
  | _ => exact h.elim

theorem Begins.run {done : List TrapLine} {o v : Str} (tokens : List Str) :
    ∀ {r : Reader}, r.Begins done o v → (r.run t p tokens).Begins done o v := by
  induction tokens with
  | nil => exact fun h => h
  | cons w ws ih => exact fun h => ih (h.step w)

/-- Nor does the end of the text. -/
theorem Begins.lines {done : List TrapLine} {o v : Str} {r : Reader} (h : r.Begins done o v)
    {hd : PduHead} {lines : List TrapLine} (hlines : r.lines = some (hd, lines)) :
    ∃ vs rest, lines = done ++ ⟨o, v :: vs⟩ :: rest := by
  cases r with
  | between hd' done' =>
      obtain ⟨rfl, rfl⟩ := Prod.mk.inj (Option.some_inj.mp hlines)
      exact h
  | value hd' done' l =>
      obtain ⟨rfl, rfl⟩ := Prod.mk.inj (Option.some_inj.mp hlines)
      exact h
  | _ => simp [Reader.lines] at hlines

/-- An OID and a token behind it, whatever it is, begin a binding. -/
theorem lines_run_cons_cons {hd hd' : PduHead} {done lines : List TrapLine} {o v : Str}
    {tokens : List Str}
    (h : ((between hd done).run t p (o :: v :: tokens)).lines = some (hd', lines)) :
    ∃ vs rest, lines = done ++ ⟨o, v :: vs⟩ :: rest := by
  have hbegin : (value hd done ⟨o, [v]⟩).Begins done o v := ⟨[], [], rfl⟩
  exact (hbegin.run tokens).lines h

end Reader

/-! ## The bindings are the groups -/

/-- What a binding says: the OID, and the rest as one text. -/
def TrapLine.reading (l : TrapLine) : Str × Str := (l.oid, joinSp l.rest)

theorem joinSp_cons_ne_nil {w : Str} (hw : w ≠ []) (ws : List Str) : joinSp (w :: ws) ≠ [] :=
  spaced_ne_nil (spaced_intercalate ' ' (List.cons_ne_nil w ws)) hw

/-- No list of groups begins with the tokenizer. -/
theorem reading_varbindGroups_ne {t : Str} {l : TrapLine} (hl : l.oid = t) (ls : List TrapLine)
    (tokens : List Str) :
    (l :: ls).map TrapLine.reading ≠ (varbindGroups t tokens).map TrapLine.reading := by
  intro h
  cases hgroups : varbindGroups t tokens with
  | nil => simp [hgroups] at h
  | cons m ms =>
      have hmem : m ∈ varbindGroups t tokens := by
        rw [hgroups]
        exact List.mem_cons_self
      have hm : m.oid ≠ t := (not_mem_of_mem_varbindGroups hmem).1
      rw [hgroups, List.map_cons, List.map_cons, List.cons.injEq] at h
      exact hm ((congrArg Prod.fst h.1).symm.trans hl)

/-- **The bindings read are the groups exactly when the groups are filled.** -/
theorem lines_run_between_iff {t : Str} {p : Bool} (tokens : List Str) :
    ∀ {hd hd' : PduHead} {done lines : List TrapLine}, (∀ w ∈ tokens, w ≠ []) →
      ((Reader.between hd done).run t p tokens).lines = some (hd', lines) →
      (lines.map TrapLine.reading
          = done.map TrapLine.reading ++ (varbindGroups t tokens).map TrapLine.reading ↔
        GroupsFilled t tokens) := by
  -- on the groups between tokenizers
  induction tokens using pieces_induction t with
  | last g hg =>
      intro hd hd' done lines _ hlines
      refine iff_of_true ?_ (groupsFilled_last hg)
      rw [varbindGroups_last hg]
      rcases g with _ | ⟨o, _ | ⟨v, ws⟩⟩
      · obtain ⟨-, rfl⟩ := Prod.mk.inj (Option.some_inj.mp hlines)
        simp
      · simp [Reader.run_cons, Reader.step, Reader.lines] at hlines
      -- an OID with a value is read as the group has it, and the tokenizer ends it
      · have hws : t ∉ ws := fun h => hg (by simp [h])
        rw [Reader.run_cons, Reader.run_cons, Reader.step, Reader.step,
          Reader.run_value hws] at hlines
        obtain ⟨-, rfl⟩ := Prod.mk.inj (Option.some_inj.mp hlines)
        simp
  | piece g tokens hg ih =>
      intro hd hd' done lines hne hlines
      have ht : t ≠ [] := hne t (by simp)
      rw [varbindGroups_piece hg, groupsFilled_piece hg]
      rcases g with _ | ⟨o, _ | ⟨v, ws⟩⟩
      · -- the tokenizer is read as an OID
        refine iff_of_false ?_ (by simp)
        cases tokens with
        | nil => simp [Reader.run_cons, Reader.step, Reader.lines] at hlines
        | cons v vs =>
            obtain ⟨ws, rest, rfl⟩ := Reader.lines_run_cons_cons hlines
            rw [List.map_append, List.append_cancel_left_eq]
            exact reading_varbindGroups_ne rfl rest (v :: vs)
      · -- the tokenizer is read as the first word of the value
        refine iff_of_false ?_ (by simp)
        obtain ⟨ws, rest, rfl⟩ := Reader.lines_run_cons_cons hlines
        intro h
        rw [List.map_append, List.append_cancel_left_eq] at h
        simp only [List.map_cons, List.cons_ne_nil, if_false, List.singleton_append,
          List.cons.injEq] at h
        exact joinSp_cons_ne_nil ht ws (congrArg Prod.snd h.1)
      · have hws : t ∉ ws := fun h => hg (by simp [h])
        rw [List.cons_append, List.cons_append, Reader.run_cons, Reader.run_cons, Reader.step,
          Reader.step, Reader.run_append, Reader.run_value hws, Reader.run_cons, Reader.step,
          if_pos rfl] at hlines
        have hrest := ih (fun w hw => hne w (by simp [hw])) hlines
        rw [List.map_append, List.append_assoc] at hrest
        simpa using hrest

/-! ## The object list of an accepted trap -/

/-- The objects are the tokenizer-delimited groups of the tokens behind the address, and
the tokenizer stands nowhere among their words. -/
structure SegmentsVarbinds (t : Str) (tokens : List Str) (tr : Trap) : Prop where
  objects : tr.objects.map (fun o => (o.oid, o.valueStr))
    = (varbindGroups t (varbindTokens t tokens)).map fun l => (some l.oid, some (joinSp l.rest))
  oid_ne : ∀ o ∈ tr.objects, o.oid ≠ some t
  value_ne : ∀ o ∈ tr.objects, ∀ v, o.valueStr = some v → t ∉ words ' ' v

/-- The text of a value reads back as the words of the value. -/
theorem words_joinSp {ws : List Str} (hws : ∀ w ∈ ws, IsWord ' ' w) :
    words ' ' (joinSp ws) = ws := by
  cases ws with
  | nil => rfl
  | cons w ws => exact words_of_spaced (spaced_intercalate ' ' (List.cons_ne_nil w ws)) hws

/-- A word of a group is a token. -/
theorem mem_of_mem_varbindGroups {t : Str} {tokens : List Str} {l : TrapLine}
    (hl : l ∈ varbindGroups t tokens) {w : Str} (hw : w ∈ l.rest) : w ∈ tokens := by
  obtain ⟨g, hg, rfl⟩ := List.mem_map.mp hl
  exact mem_of_mem_words hg (List.mem_of_mem_tail hw)

theorem mem_of_mem_varbindTokens {t w : Str} {tokens : List Str}
    (hw : w ∈ varbindTokens t tokens) : w ∈ tokens := by
  have hhost := (List.dropWhile_sublist _).mem (List.mem_of_mem_drop
    ((List.dropWhile_sublist _).mem (List.mem_of_mem_drop hw)))
  exact (List.dropWhile_sublist _).mem (List.mem_of_mem_drop hhost)

/-- **A binding without a value shifts the others.**  The object list of an accepted trap is
the list of the groups exactly when every group that a tokenizer ends has an OID and a
value. -/
theorem parse_objects_iff {t : Str} {tv : Timeval} {buffer : Str} {p : Bool} {tr : Trap}
    (h : (parse t tv buffer p).pdu = some ⟨.trap, some tr⟩) :
    SegmentsVarbinds t (pduTokens buffer) tr ↔
      GroupsFilled t (varbindTokens t (pduTokens buffer)) := by
  obtain ⟨hd, lines, l, hlines, -, rfl⟩ := exists_lines_of_parse h
  obtain ⟨hd', hrun⟩ := Reader.run_start (pduTokens buffer) (by rw [hlines]; simp)
  rw [hrun] at hlines
  have hword : ∀ w ∈ varbindTokens t (pduTokens buffer), IsWord ' ' w := fun w hw =>
    isWord_of_mem_pduTokens (mem_of_mem_varbindTokens hw)
  have hiff := lines_run_between_iff _ (fun w hw => (hword w hw).1) hlines
  rw [List.map_nil, List.nil_append] at hiff
  rw [← hiff]
  have hobjects := acceptedTrap_objects tv hd lines l
  -- an object has the name and the value of its line, so that they can be compared as lines
  have hpairs : ∀ ls : List TrapLine,
      ls.map (fun l => (some l.oid, some (joinSp l.rest)))
        = (ls.map TrapLine.reading).map (Prod.map some some) := by
    intro ls
    rw [List.map_map]
    rfl
  have hinj : Function.Injective (Prod.map (some : Str → _) (some : Str → _)) :=
    (Option.some_injective Str).prodMap (Option.some_injective Str)
  constructor
  · rintro ⟨hsame, -, -⟩
    rw [hobjects, hpairs, hpairs] at hsame
    exact List.map_injective_iff.mpr hinj hsame
  · intro hsame
    have hgroups : ∀ o ∈ (acceptedTrap tv hd lines l).objects,
        ∃ m ∈ varbindGroups t (varbindTokens t (pduTokens buffer)),
          o.oid = some m.oid ∧ o.valueStr = some (joinSp m.rest) := by
      intro o ho
      have hmem := List.mem_map_of_mem (f := fun o => (o.oid, o.valueStr)) ho
      rw [hobjects, hpairs, hsame, ← hpairs] at hmem
      obtain ⟨m, hm, heq⟩ := List.mem_map.mp hmem
      exact ⟨m, hm, (congrArg Prod.fst heq).symm, (congrArg Prod.snd heq).symm⟩
    refine ⟨by rw [hobjects, hpairs, hpairs, hsame], ?_, ?_⟩
    · intro o ho
      obtain ⟨m, hm, hoid, -⟩ := hgroups o ho
      rw [hoid]
      exact fun h => (not_mem_of_mem_varbindGroups hm).1 (Option.some_inj.mp h)
    · intro o ho v hv
      obtain ⟨m, hm, -, hvalue⟩ := hgroups o ho
      obtain rfl := Option.some_inj.mp (hvalue.symm.trans hv)
      rw [words_joinSp fun w hw => hword w (mem_of_mem_varbindGroups hm hw)]
      exact (not_mem_of_mem_varbindGroups hm).2

/-- An object with the value `value`, as `parse` leaves it. -/
def readObject (oid value : Str) : MibObject :=
  ⟨some oid, some ⟨value.length + 1, value, true⟩, .set (some (quotedValue value))⟩

/-- A trap of the bindings `(oid, value)`, from host `h` at address `s`. -/
def readTrap (bindings : List (Str × Str)) : Trap where
  seconds := 1
  useconds := 0
  hostname := some ['h']
  ipaddress := some ['s']
  oid := bindings.head?.map Prod.snd
  objects := bindings.map fun b => readObject b.1 b.2

/-- Two bindings with values and an empty last group. -/
theorem parse_objects_filled :
    (parse "::".toList ⟨1, 0⟩
      "TRAP :: h :: [s] :: SNMPv2-MIB::snmpTrapOID.0 o :: a b c ::".toList false).pdu
        = some ⟨.trap, some (readTrap [(snmpTrapOIDName, ['o']), (['a'], "b c".toList)])⟩ ∧
      (SegmentsVarbinds "::".toList
          (pduTokens "TRAP :: h :: [s] :: SNMPv2-MIB::snmpTrapOID.0 o :: a b c ::".toList)
          (readTrap [(snmpTrapOIDName, ['o']), (['a'], "b c".toList)]) ↔
        GroupsFilled "::".toList (varbindTokens "::".toList
          (pduTokens "TRAP :: h :: [s] :: SNMPv2-MIB::snmpTrapOID.0 o :: a b c ::".toList))) :=
  ⟨by decide, @parse_objects_iff "::".toList ⟨1, 0⟩ _ false _ (by decide)⟩

/-- The binding `a` without a value takes the tokenizer and the binding `b` behind it. -/
theorem not_parse_objects :
    ¬ ∀ (t : Str) (tv : Timeval) (buffer : Str) (is_private : Bool) (tr : Trap),
        (parse t tv buffer is_private).pdu = some ⟨.trap, some tr⟩ →
        SegmentsVarbinds t (pduTokens buffer) tr := by
  intro h
  have hseg := h "::".toList ⟨1, 0⟩
    "TRAP :: h :: [s] :: SNMPv2-MIB::snmpTrapOID.0 o :: a :: b c".toList false
    (readTrap [(snmpTrapOIDName, ['o']), (['a'], ":: b c".toList)]) (by decide)
  exact absurd hseg.objects (by decide)

end Trapd
