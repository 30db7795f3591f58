/-
# The address of the sender (`trap.c`)

`extract_ipaddress` looks for a `[` and takes what follows up to a `]`, or up to the end.  It
is given what `parse` has collected in `ipbuf`: the token behind the host name, which is the
tokenizer in the PDUs of the trap handler, and the words behind it.

**Main result:** `sender_address_iff`: the address is the bracketed text of the address words
exactly when the tokenizer has no `[` and the first one of the words is closed, or when the
text behind the `[` of the tokenizer happens to begin with the bracketed one.
-/
import NagiosTrapd.TrapFaults

namespace Trapd

open Words

/-! ## Bracketed texts -/

/-- `x` stands between the first `[` of a text and the first `]` behind it. -/
def Bracketed (text x : Str) : Prop :=
  ∃ front back, text = front ++ '[' :: (x ++ ']' :: back) ∧ '[' ∉ front ∧ ']' ∉ x

/-- There is an opening bracket. -/
theorem Bracketed.mem_open {text x : Str} (h : Bracketed text x) : '[' ∈ text := by
  obtain ⟨front, back, rfl, -, -⟩ := h
  simp

/-- What follows the first `[`, up to the first `]`. -/
theorem bracketed_iff {front : Str} (hfront : '[' ∉ front) (behind x : Str) :
    Bracketed (front ++ '[' :: behind) x ↔ ']' ∈ behind ∧ firstPiece ']' behind = x := by
  rw [← isPrefix_iff_firstPiece]
  constructor
  · rintro ⟨front', back, htext, hfront', hx⟩
    obtain ⟨-, rfl⟩ := append_cons_sep_inj hfront hfront' htext
    exact ⟨hx, back, by rw [List.append_assoc]; rfl⟩
  · rintro ⟨hx, back, rfl⟩
    exact ⟨front, back, by rw [List.append_assoc]; rfl, hfront, hx⟩

/-- There is a closing one. -/
theorem Bracketed.mem_close {text x : Str} (h : Bracketed text x) : ']' ∈ text := by
  obtain ⟨front, back, rfl, -, -⟩ := h
  simp

/-- Between them is none. -/
theorem Bracketed.notMem {text x : Str} (h : Bracketed text x) : ']' ∉ x := by
  obtain ⟨-, -, -, -, hx⟩ := h
  exact hx

/-- There is one bracketed text at most. -/
theorem Bracketed.unique {text x y : Str} (hx : Bracketed text x) (hy : Bracketed text y) :
    x = y := by
  obtain ⟨front, behind, rfl, hfront⟩ := List.eq_append_cons_of_mem hx.mem_open
  exact ((bracketed_iff hfront behind x).mp hx).2.symm.trans
    ((bracketed_iff hfront behind y).mp hy).2

/-! ## `extract_ipaddress` -/

/-- Without an opening bracket there is no address. -/
theorem extractIpaddress_none {s : Str} (h : '[' ∉ s) : extractIpaddress s = none := by
  have hdrop : s.dropWhile (· ≠ '[') = [] := by
    rw [List.dropWhile_eq_nil_iff]
    intro c hc
    simpa using ne_of_mem_of_not_mem hc h
  unfold extractIpaddress
  rw [hdrop]
  split_ifs <;> rfl

/-- What follows the first `[`, up to a `]` or to the end. -/
theorem extractIpaddress_bracket {front : Str} (hfront : '[' ∉ front) (behind : Str) :
    extractIpaddress (front ++ '[' :: behind) = some (firstPiece ']' behind) := by
  have hdrop : (front ++ '[' :: behind).dropWhile (· ≠ '[') = '[' :: behind := by
    rw [List.dropWhile_append_of_pos, List.dropWhile_cons_of_neg (by simp)]
    intro c hc
    simpa using ne_of_mem_of_not_mem hc hfront
  unfold extractIpaddress
  rw [if_neg (by simp), hdrop]
  rfl

/-- Only then there is none. -/
theorem extractIpaddress_eq_none_iff {s : Str} : extractIpaddress s = none ↔ '[' ∉ s := by
  refine ⟨fun h hopen => ?_, extractIpaddress_none⟩
  obtain ⟨front, behind, rfl, hfront⟩ := List.eq_append_cons_of_mem hopen
  rw [extractIpaddress_bracket hfront] at h
  exact absurd h (by simp)

/-! ## The text in `ipbuf` -/

/-- The sender is credited right: the address is the bracketed text of the address words. -/
def CreditedTo (address : Str) (ipaddress : Option Str) : Prop :=
  ∀ x, ipaddress = some x ↔ Bracketed address x

/-- The tokenizer has no `[` and the first one of the address words, if there is one, is
closed; or what stands behind the first `[` of the tokenizer begins with the bracketed text of
the address words and a `]`. -/
def BracketsFit (t address : Str) : Prop :=
  ('[' ∉ t ∧ ('[' ∈ address → ∃ x, Bracketed address x)) ∨
    ∃ front behind x, t = front ++ '[' :: behind ∧ '[' ∉ front ∧ Bracketed address x ∧
      x ++ [']'] <+: behind ++ ' ' :: address

/-- The tokenizer without `[` in front of the address words. -/
theorem creditedTo_plain {t : Str} (ht : '[' ∉ t) (address : Str) :
    CreditedTo address (extractIpaddress (t ++ ' ' :: address))
      ↔ ('[' ∈ address → ∃ x, Bracketed address x) := by
  by_cases hopen : '[' ∈ address
  · obtain ⟨front, behind, rfl, hfront⟩ := List.eq_append_cons_of_mem hopen
    have hall : '[' ∉ t ++ ' ' :: front := by simp [ht, hfront]
    have htext : t ++ ' ' :: (front ++ '[' :: behind) = (t ++ ' ' :: front) ++ '[' :: behind := by
      simp
    unfold CreditedTo
    rw [htext, extractIpaddress_bracket hall]
    simp only [bracketed_iff hfront, Option.some_inj]
    by_cases hclosed : ']' ∈ behind
    · exact iff_of_true (fun x => (and_iff_right hclosed).symm) fun _ => ⟨_, hclosed, rfl⟩
    · exact iff_of_false (fun h => hclosed ((h _).mp rfl).1) fun h =>
        (h hopen).elim fun _ hx => hclosed hx.1
  · have hall : '[' ∉ t ++ ' ' :: address := by simp [ht, hopen]
    unfold CreditedTo
    rw [extractIpaddress_none hall]
    exact iff_of_true (fun x => iff_of_false (by simp) fun h => hopen h.mem_open)
      fun h => absurd h hopen

/-- A tokenizer with a `[`. -/
theorem creditedTo_bracket {front : Str} (hfront : '[' ∉ front) (behind address : Str) :
    CreditedTo address (extractIpaddress ((front ++ '[' :: behind) ++ ' ' :: address))
      ↔ ∃ x, Bracketed address x ∧ x ++ [']'] <+: behind ++ ' ' :: address := by
  unfold CreditedTo
  rw [List.append_assoc, List.cons_append, extractIpaddress_bracket hfront]
  simp only [Option.some_inj]
  constructor
  · intro h
    have hx := (h _).mp rfl
    -- the bracket that closes the address words closes the whole text as well
    have hmem : ']' ∈ behind ++ ' ' :: address := by simp [hx.mem_close]
    exact ⟨_, hx, (isPrefix_iff_firstPiece.mpr ⟨hmem, rfl⟩).2⟩
  · rintro ⟨x, hx, hprefix⟩ y
    obtain ⟨-, hfirst⟩ := isPrefix_iff_firstPiece.mp ⟨hx.notMem, hprefix⟩
    rw [hfirst]
    exact ⟨fun h => h ▸ hx, fun hy => hx.unique hy⟩

/-- A tokenizer without bracket leaves the condition to the address. -/
theorem bracketsFit_plain {t : Str} (ht : '[' ∉ t) (address : Str) :
    BracketsFit t address ↔ ('[' ∈ address → ∃ x, Bracketed address x) := by
  constructor
  · rintro (⟨-, h⟩ | ⟨front, behind, x, rfl, -⟩)
    · exact h
    · exact absurd (by simp) ht
  · exact fun h => Or.inl ⟨ht, h⟩

/-- One with a bracket has to close it as the address does. -/
theorem bracketsFit_bracket {front : Str} (hfront : '[' ∉ front) (behind address : Str) :
    BracketsFit (front ++ '[' :: behind) address
      ↔ ∃ x, Bracketed address x ∧ x ++ [']'] <+: behind ++ ' ' :: address := by
  constructor
  · rintro (⟨hnot, -⟩ | ⟨front', behind', x, ht, hfront', hx⟩)
    · exact absurd (by simp) hnot
    · obtain ⟨-, rfl⟩ := append_cons_sep_inj hfront hfront' ht
      exact ⟨x, hx⟩
  · rintro ⟨x, hx⟩
    exact Or.inr ⟨front, behind, x, rfl, hfront, hx⟩

/-- Without address words there is no bracketed text. -/
theorem creditedTo_nil {ipaddress : Option Str} : CreditedTo [] ipaddress ↔ ipaddress = none := by
  have hnone : ∀ x, ¬ Bracketed [] x := fun x hx => absurd hx.mem_open List.not_mem_nil
  unfold CreditedTo
  rw [Option.eq_none_iff_forall_ne_some]
  exact forall_congr' fun x => iff_false_right (hnone x)

/-- An empty address needs no bracket. -/
theorem bracketsFit_nil {t : Str} : BracketsFit t [] ↔ '[' ∉ t := by
  constructor
  · rintro (⟨ht, -⟩ | ⟨-, -, x, -, -, hx, -⟩)
    · exact ht
    · exact absurd hx.mem_open List.not_mem_nil
  · exact fun ht => Or.inl ⟨ht, fun h => absurd h List.not_mem_nil⟩

/-- Two words are joined by a blank. -/
theorem joinSp_cons_cons (v w : Str) (ws : List Str) :
    joinSp (v :: w :: ws) = v ++ ' ' :: joinSp (w :: ws) := by
  unfold joinSp
  rw [List.intercalate_cons_cons, List.append_assoc, List.singleton_append]

/-- **When the address of the sender is the bracketed text of the address words**, whatever
the words are. -/
theorem creditedTo_joinSp (t : Str) (a : List Str) :
    CreditedTo (joinSp a) (extractIpaddress (joinSp (t :: a))) ↔ BracketsFit t (joinSp a) := by
  cases a with
  | nil =>
      have hnil : joinSp [] = [] := rfl
      rw [hnil, joinSp_singleton, creditedTo_nil, extractIpaddress_eq_none_iff, bracketsFit_nil]
  | cons w a =>
      rw [joinSp_cons_cons]
      by_cases ht : '[' ∈ t
      · obtain ⟨front, behind, rfl, hfront⟩ := List.eq_append_cons_of_mem ht
        rw [creditedTo_bracket hfront, bracketsFit_bracket hfront]
      · rw [creditedTo_plain ht, bracketsFit_plain ht]

/-! ## The head of a PDU -/

/-- The tokens of a PDU as the trap handler sends it. -/
def handlerTokens (t : Str) (k : ℕ) (h : Str) (a varbinds : List Str) : List Str :=
  "TRAP".toList :: List.replicate k t ++ (h :: t :: a ++ t :: varbinds)

namespace Reader

variable {t : Str} {p : Bool}

/-- What stands in front of the bindings, once it has been read. -/
def head : Reader → Option PduHead
  | between hd _ | oid hd _ _ | value hd _ _ => some hd
  | _ => none

/-- The head of a PDU is read once. -/
theorem head_step {r : Reader} {hd : PduHead} (h : r.head = some hd) (w : Str) :
    (r.step t p w).head = some hd := by
  cases r with
  | between | oid => exact h
  | value =>
      rw [step]
      split_ifs <;> exact h
  | _ => simp [head] at h

/-- The bindings leave it as it is. -/
theorem head_run {hd : PduHead} (tokens : List Str) :
    ∀ {r : Reader}, r.head = some hd → (r.run t p tokens).head = some hd := by
  induction tokens with
  | nil => exact fun h => h
  | cons w ws ih => exact fun h => ih (head_step h w)

/-- A complete PDU has its head. -/
theorem head_of_lines {r : Reader} {hd : PduHead} {ls : List TrapLine}
    (h : r.lines = some (hd, ls)) : r.head = some hd := by
  cases r with
  | between | value =>
      obtain ⟨rfl, -⟩ := Prod.mk.inj (Option.some_inj.mp h)
      rfl
  | _ => simp [lines] at h

/-- The words of an address. -/
theorem run_address_words {a : List Str} (ha : ∀ w ∈ a, w ≠ t) :
    ∀ hd : PduHead,
      (address hd).run t p a = address { hd with address := hd.address ++ a } := by
  induction a with
  | nil => simp
  | cons w a ih =>
      intro hd
      rw [run_cons, step, if_neg (ha w List.mem_cons_self),
        ih (fun v hv => ha v (List.mem_cons_of_mem w hv))]
      simp

/-- Tokenizers that change nothing may be repeated. -/
theorem run_replicate {r : Reader} (hr : r.step t p t = r) (k : ℕ) :
    r.run t p (List.replicate k t) = r := by
  have hnil : (List.replicate k t).dropWhile (· = t) = [] := by
    rw [List.dropWhile_eq_nil_iff]
    exact fun w hw => decide_eq_true (List.eq_of_mem_replicate hw)
  rw [run_dropWhile hr, hnil, run_nil]

/-- **The head that is read**: the tokenizer behind the host name is the first word of the
address. -/
theorem run_handlerTokens (ht : "TRAP".toList ≠ t) (k : ℕ) {h : Str} (hh : h ≠ t) {a : List Str}
    (ha : ∀ w ∈ a, w ≠ t) (varbinds : List Str) :
    start.run t p (handlerTokens t k h a varbinds)
      = (between ⟨h, t :: a⟩ []).run t p varbinds := by
  have hskip : command.step t p t = command := if_pos rfl
  have hcommand : start.step t p "TRAP".toList = command := by
    rw [step, if_neg ht, if_pos (readCommand_eq_trap.mpr rfl)]
  have hhost : command.step t p h = host h := if_neg hh
  rw [handlerTokens, run_append, run_cons, hcommand, run_replicate hskip, run_append,
    run_cons command, hhost, run_cons (host h), step, run_address_words ha, run_cons, step,
    if_pos rfl, List.singleton_append]

/-- In front of the command they change nothing. -/
theorem step_start_tokenizer : start.step t p t = start := if_pos rfl

/-- Where `TRAP` is the tokenizer, the host name is read as the command. -/
theorem lines_run_handlerTokens (k : ℕ) {h : Str} (hh : h ≠ "TRAP".toList)
    (a varbinds : List Str) :
    (start.run "TRAP".toList p (handlerTokens "TRAP".toList k h a varbinds)).lines = none := by
  have hother : start.step "TRAP".toList p h = other (readCommand p h) := by
    rw [step, if_neg hh, if_neg (mt readCommand_eq_trap.mp hh)]
  rw [handlerTokens, run_append, run_cons, step_start_tokenizer,
    run_replicate step_start_tokenizer, List.cons_append, run_cons, hother, run_other]
  rfl

end Reader

/-- What the handler sends has its host name behind the command. -/
theorem hostTokens_handlerTokens {t : Str} (ht : "TRAP".toList ≠ t) (k : ℕ) {h : Str}
    (hh : h ≠ t) (a varbinds : List Str) :
    hostTokens t (handlerTokens t k h a varbinds) = h :: t :: a ++ t :: varbinds := by
  unfold hostTokens handlerTokens
  rw [List.cons_append, List.dropWhile_cons_of_neg (by simpa using ht)]
  simp only [if_true]
  rw [List.dropWhile_append_of_pos (by simp), List.cons_append,
    List.dropWhile_cons_of_neg (by simpa using hh)]

/-- The tokenizer, a space, and the words of the address. -/
theorem length_joinSp_cons_le (t : Str) (a : List Str) :
    (joinSp (t :: a)).length ≤ t.length + 1 + (joinSp a).length := by
  cases a with
  | nil => rw [joinSp_singleton]; omega
  | cons w a =>
      rw [joinSp_cons_cons, List.length_append, List.length_cons]
      omega

/-- The address of the handler's PDU fits where it is shorter than the buffer. -/
theorem addressFits_handlerTokens {t : Str} (ht : "TRAP".toList ≠ t) (k : ℕ) {h : Str}
    (hh : h ≠ t) {a : List Str} (ha : ∀ w ∈ a, w ≠ t) (varbinds : List Str)
    (hroom : t.length + 1 + (joinSp a).length < TMPBUFLEN) :
    AddressFits t (handlerTokens t k h a varbinds) := by
  have hle := length_joinSp_cons_le t a
  have htake : (a ++ t :: varbinds).takeWhile (· ≠ t) = a := by
    rw [List.takeWhile_append_of_pos (by simpa using ha), List.takeWhile_cons_of_neg (by simp),
      List.append_nil]
  unfold AddressFits
  rw [hostTokens_handlerTokens ht k hh]
  simp only [List.cons_append, htake]
  refine ⟨by omega, ?_⟩
  rw [if_pos (by simp)]
  omega

/-- **The address of the sender**, for every PDU of the handler's form whose address fits: it
is the bracketed text of the address words, or NULL where they have none, exactly when the
brackets fit. -/
theorem sender_address_iff {t : Str} {tv : Timeval} {buffer : Str} {p : Bool} {tr : Trap}
    {k : ℕ} {h : Str} {a varbinds : List Str}
    (htokens : pduTokens buffer = handlerTokens t k h a varbinds) (hh : h ≠ t)
    (ha : ∀ w ∈ a, w ≠ t) (hroom : t.length + 1 + (joinSp a).length < TMPBUFLEN)
    (haccept : (parse t tv buffer p).pdu = some ⟨.trap, some tr⟩) :
    (∀ i, .overrun i ∉ (parse t tv buffer p).faults) ∧
      (CreditedTo (joinSp a) tr.ipaddress ↔ BracketsFit t (joinSp a)) := by
  obtain ⟨hd, lines, l, hlines, -, rfl⟩ := exists_lines_of_parse haccept
  have ht : "TRAP".toList ≠ t := by
    rintro rfl
    rw [htokens, Reader.lines_run_handlerTokens k hh] at hlines
    exact absurd hlines (by simp)
  constructor
  · rw [address_fits_iff, htokens]
    exact addressFits_handlerTokens ht k hh ha varbinds hroom
  · rw [htokens, Reader.run_handlerTokens ht k hh ha] at hlines
    -- the head has been read when the bindings begin
    have hhead : (Reader.run t p (.between ⟨h, t :: a⟩ []) varbinds).head = some ⟨h, t :: a⟩ :=
      Reader.head_run varbinds rfl
    rw [Reader.head_of_lines hlines] at hhead
    rw [Option.some_inj.mp hhead]
    exact creditedTo_joinSp t a

/-- The tokenizer `::`, one in front of the host name. -/
theorem sender_address_bracketed :
    (∀ i, .overrun i ∉ (parse "::".toList ⟨1, 0⟩
        "TRAP :: h :: [s] :: SNMPv2-MIB::snmpTrapOID.0 o".toList false).faults) ∧
      (CreditedTo (joinSp ["[s]".toList]) (readTrap [(snmpTrapOIDName, ['o'])]).ipaddress
        ↔ BracketsFit "::".toList (joinSp ["[s]".toList])) :=
  @sender_address_iff "::".toList ⟨1, 0⟩ _ false (readTrap [(snmpTrapOIDName, ['o'])]) 1 ['h']
    ["[s]".toList] [snmpTrapOIDName, ['o']] (by decide) (by decide) (by decide) (by decide)
    (by decide)

/-- The bracket of the address `[s` is not closed: the text to the end is the address. -/
theorem not_sender_address :
    ¬ ∀ (t : Str) (tv : Timeval) (buffer : Str) (p : Bool) (tr : Trap) (k : ℕ) (h : Str)
        (a varbinds : List Str), pduTokens buffer = handlerTokens t k h a varbinds → h ≠ t →
        (∀ w ∈ a, w ≠ t) → t.length + 1 + (joinSp a).length < TMPBUFLEN →
        (parse t tv buffer p).pdu = some ⟨.trap, some tr⟩ →
        CreditedTo (joinSp a) tr.ipaddress := by
  intro h
  have hcredit := h "::".toList ⟨1, 0⟩ "TRAP :: h :: [s :: SNMPv2-MIB::snmpTrapOID.0 o".toList
    false (readTrap [(snmpTrapOIDName, ['o'])]) 1 ['h'] ["[s".toList] [snmpTrapOIDName, ['o']]
    (by decide) (by decide) (by decide) (by decide) (by decide)
  have hclosed := ((hcredit ['s']).mp rfl).mem_close
  exact absurd hclosed (by decide)

end Trapd
