/-
# The status of a line, and whose it is

`parse_result_str` tells a result from a request for a second step by the fourth field
of a line, and fills the empty fields of a result from the item that was executed.  The
fields that a plugin prints are those of the line without its end; what is read of them
ends at a NUL and has no carriage returns.

* `status_printed_iff`: a status is what was printed, unless nothing was printed, or a
  carriage return or a NUL makes a difference.
* `result_attributed`: a result without names is written under those of the item.
-/
import NagiosTrapd.ExecLines
import NagiosTrapd.ExecOutput

namespace Trapd

open Words

/-! ## Numbers -/

/-- `atoi` of a number that fits into an `int`. -/
theorem atoi_digits {s : Str} (hs : s ≠ []) (hdigits : isInteger (some s) = true)
    (hmax : digitsValue s < 2 ^ 31) : atoi s = digitsValue s := by
  obtain ⟨c, t, rfl⟩ := List.exists_cons_of_ne_nil hs
  have hall : ∀ d ∈ c :: t, d.isDigit = true := List.all_eq_true.mp hdigits
  have htake : (c :: t).takeWhile Char.isDigit = c :: t := List.takeWhile_eq_self_iff.mpr hall
  rw [atoi, strtol_cons_digit (hall c List.mem_cons_self), htake, Int.bmod_eq_of_le] <;> omega

/-- A larger number is altered. -/
theorem atoi_eq_digitsValue_iff {s : Str} (hdigits : isInteger (some s) = true) :
    atoi s = digitsValue s ↔ digitsValue s < 2 ^ 31 := by
  constructor
  · intro h
    have hbounds := atoi_bounds s
    omega
  · intro hmax
    by_cases hs : s = []
    · subst hs
      rfl
    · exact atoi_digits hs hdigits hmax

/-! ## Fields of a line -/

/-- A line without its end. -/
def lineText (line : Str) : Str := if line.getLast? = some '\n' then line.dropLast else line

/-- The fields that a plugin has printed in a line. -/
def printedFields (line : Str) : List Str := pieces '|' (lineText line)

/-- A text without line feeds and carriage returns, which `parse_result_str` takes out of a
line wherever they stand. -/
def withoutEnds (s : Str) : Str := s.filter (· ∉ ['\n', '\r'])

/-- A text that nothing is taken out of. -/
def IsOneLine (s : Str) : Prop := '\n' ∉ s ∧ '\r' ∉ s

instance (s : Str) : Decidable (IsOneLine s) := inferInstanceAs (Decidable (_ ∧ _))

/-- The fields as `parse_result_str` reads them. -/
def fieldsRead (line : Str) : List Str := (printedFields line).map withoutEnds

@[simp] theorem withoutEnds_nil : withoutEnds [] = [] := rfl

theorem withoutEnds_append (s t : Str) : withoutEnds (s ++ t) = withoutEnds s ++ withoutEnds t :=
  List.filter_append s t

/-- What is left has no end of line. -/
theorem isOneLine_withoutEnds (s : Str) : IsOneLine (withoutEnds s) := by
  simp [IsOneLine, withoutEnds]

theorem isOneLine_append {s t : Str} : IsOneLine (s ++ t) ↔ IsOneLine s ∧ IsOneLine t := by
  simp only [IsOneLine, List.mem_append, not_or]
  tauto

/-- A text is left as it is when it is on one line. -/
theorem withoutEnds_eq_self_iff {s : Str} : withoutEnds s = s ↔ IsOneLine s := by
  constructor
  · intro h
    rw [← h]
    exact isOneLine_withoutEnds s
  · rintro ⟨hlf, hcr⟩
    refine List.filter_eq_self.mpr fun c hc => ?_
    simpa using ⟨ne_of_mem_of_not_mem hc hlf, ne_of_mem_of_not_mem hc hcr⟩

/-- The end of a line is taken out with the others. -/
theorem withoutEnds_lineText (line : Str) : withoutEnds (lineText line) = withoutEnds line := by
  unfold lineText
  split_ifs with hend
  · obtain ⟨text, rfl⟩ := List.getLast?_eq_some_iff.mp hend
    rw [List.dropLast_concat, withoutEnds_append]
    exact (List.append_nil _).symm
  · rfl

theorem fieldsRead_eq_pieces (line : Str) : fieldsRead line = pieces '|' (withoutEnds line) := by
  rw [← withoutEnds_lineText]
  exact (pieces_filter (by decide) (lineText line)).symm

/-- **The fields that are read of a printed line** are those up to the first NUL. -/
theorem fieldsRead_cString (line : Str) :
    fieldsRead (cString line) = (cutPieces '\x00' (printedFields line)).map withoutEnds := by
  have hend : withoutEnds (cString line) = withoutEnds (cString (lineText line)) := by
    unfold lineText
    split_ifs with hend
    · obtain ⟨text, rfl⟩ := List.getLast?_eq_some_iff.mp hend
      rw [List.dropLast_concat]
      unfold cString
      by_cases hnul : '\x00' ∈ text
      · obtain ⟨p, t, rfl, hp⟩ := List.eq_append_cons_of_mem hnul
        rw [List.append_assoc, List.cons_append, firstPiece_append_cons hp,
          firstPiece_append_cons hp]
      · have hline : '\x00' ∉ text ++ ['\n'] := by simp [hnul]
        rw [firstPiece_eq_self_iff.mpr hnul, firstPiece_eq_self_iff.mpr hline, withoutEnds_append]
        exact List.append_nil _
    · rfl
  rw [fieldsRead_eq_pieces, hend, printedFields, ← pieces_firstPiece (by decide)]
  exact pieces_filter (by decide) _

/-- What `parse_result_str` makes of a line, by its fields. -/
theorem removeChars_ends (line : Str) :
    removeChars (some line) ['\n', '\r']
      = if withoutEnds line = [] then none else some (withoutEnds line) := by
  unfold removeChars
  simp only [List.length_eq_zero_iff]
  rfl

/-- A line is malformed when fewer than seven fields are read. -/
theorem malformed_iff {line : Str} : Malformed line ↔ (fieldsRead line).length < 7 := by
  unfold Malformed
  rw [removeChars_ends, fieldsRead_eq_pieces]
  by_cases hempty : withoutEnds line = []
  · rw [if_pos hempty, hempty, pieces_last List.not_mem_nil]
    simp
  · simp [if_neg hempty, pieces]

/-- What a line with its first seven fields is parsed to. -/
theorem parseResultStr_eq
    {line host_address host_name svc_desc ret_value output perfdata svc_id : Str} {more : List Str}
    (h : fieldsRead line = host_address :: host_name :: svc_desc :: ret_value :: output ::
      perfdata :: svc_id :: more)
    (db : Db) (is_service : IsService) (host svc : Option ℕ) (u : Bool) :
    parseResultStr db line is_service host svc u
      = .ok (some (makeResult db is_service host svc u
          ⟨some host_address, some host_name, some svc_desc, some ret_value, some output,
            some perfdata, some svc_id⟩ ret_value svc_id)) := by
  rw [fieldsRead_eq_pieces] at h
  have hne : withoutEnds line ≠ [] := by
    intro hempty
    rw [hempty, pieces_last List.not_mem_nil] at h
    simp at h
  have hfields : readFields (withoutEnds line) = ⟨some host_address, some host_name,
      some svc_desc, some ret_value, some output, some perfdata, some svc_id⟩ := by
    unfold readFields
    rw [foldl_readField, show (withoutEnds line).splitOn '|' = _ from h]
    rfl
  unfold parseResultStr
  rw [removeChars_ends, if_neg hne]
  simp only [hfields]

/-- A line with its first six fields without NUL, read as a C string. -/
theorem fieldsRead_cString_cons {line a b c d e f g : Str} {more : List Str}
    (h : printedFields line = a :: b :: c :: d :: e :: f :: g :: more)
    (hnul : ∀ s ∈ [a, b, c, d, e, f], '\x00' ∉ s) :
    ∃ rest, fieldsRead (cString line) = withoutEnds a :: withoutEnds b :: withoutEnds c ::
      withoutEnds d :: withoutEnds e :: withoutEnds f :: withoutEnds (cString g) :: rest := by
  rw [fieldsRead_cString, h, show a :: b :: c :: d :: e :: f :: g :: more
      = [a, b, c, d, e, f] ++ g :: more from rfl, cutPieces_append hnul, cutPieces]
  exact ⟨_, rfl⟩

/-- Seven fields are read of a printed line when none of the first six has a NUL. -/
theorem not_malformed_cString_iff {line : Str} (h : 7 ≤ (printedFields line).length) :
    ¬ Malformed (cString line) ↔ ∀ s ∈ (printedFields line).take 6, '\x00' ∉ s := by
  rw [malformed_iff, fieldsRead_cString, List.length_map, Nat.not_lt, Nat.succ_le_iff,
    lt_length_cutPieces_iff]
  exact and_iff_right h

theorem exists_seven {fields : List Str} (h : 7 ≤ fields.length) :
    ∃ a b c d e f g more, fields = a :: b :: c :: d :: e :: f :: g :: more := by
  rcases fields with _ | ⟨a, _ | ⟨b, _ | ⟨c, _ | ⟨d, _ | ⟨e, _ | ⟨f, _ | ⟨g, more⟩⟩⟩⟩⟩⟩⟩
  case cons.cons.cons.cons.cons.cons.cons => exact ⟨_, _, _, _, _, _, _, _, rfl⟩
  all_goals simp at h

theorem fillResult_is_complete (db : Db) (host svc : Option ℕ) (r : ExecResult) :
    (fillResult db host svc r).is_complete = r.is_complete := by
  unfold fillResult
  split_ifs <;> rfl

theorem fillResult_ret_value (db : Db) (host svc : Option ℕ) (r : ExecResult) :
    (fillResult db host svc r).ret_value = r.ret_value := by
  unfold fillResult
  split_ifs <;> rfl

theorem fillResult_output (db : Db) (host svc : Option ℕ) (r : ExecResult) :
    (fillResult db host svc r).output = r.output := by
  unfold fillResult
  split_ifs <;> rfl

theorem fillResult_perfdata (db : Db) (host svc : Option ℕ) (r : ExecResult) :
    (fillResult db host svc r).perfdata = r.perfdata := by
  unfold fillResult
  split_ifs <;> rfl

theorem fillResult_use_sender_address (db : Db) (host svc : Option ℕ) (r : ExecResult) :
    (fillResult db host svc r).use_sender_address = r.use_sender_address := by
  unfold fillResult
  split_ifs <;> rfl

/-! ## The status -/

/-- The fourth field that a plugin has printed in a line. -/
def statusField (line : Str) : Str := (printedFields line)[3]?.getD []

/-- A status is a number that was printed: a result is complete exactly when the field is a
run of digits that is not empty, and then it has the value of the digits. -/
def StatusPrinted (parsed : Except Fault (Option ExecResult)) (status : Str) : Prop :=
  ∃ r, parsed = .ok (some r) ∧
    (r.is_complete = true ↔ status ≠ [] ∧ ∀ c ∈ status, c.isDigit = true) ∧
    (status ≠ [] → (∀ c ∈ status, c.isDigit = true) → digitsValue status < 2 ^ 31 →
      r.ret_value = digitsValue status)

/-- A field that is read as a status exactly when it is one: it is not empty, and it does not
become a run of digits, or the empty text, by what is taken out of it. -/
structure StatusLegible (status : Str) : Prop where
  ne_nil : status ≠ []
  kept : IsOneLine status ∨ ∃ c ∈ status, c ∉ ['\n', '\r'] ∧ c.isDigit = false

/-- Whether a field is legible can be computed. -/
theorem statusLegible_decide {status : Str} :
    (!status.isEmpty && (decide (IsOneLine status) ||
        status.any fun c => c != '\n' && c != '\r' && !c.isDigit)) = true ↔
      StatusLegible status := by
  simp only [Bool.and_eq_true, Bool.or_eq_true, Bool.not_eq_true', decide_eq_true_eq,
    List.any_eq_true, bne_iff_ne, List.isEmpty_eq_false_iff]
  constructor
  · rintro ⟨hne, hkept⟩
    exact ⟨hne, hkept.imp_right fun ⟨c, hc, hend, hdigit⟩ => ⟨c, hc, by simp [hend], hdigit⟩⟩
  · rintro ⟨hne, hkept⟩
    exact ⟨hne, hkept.imp_right fun ⟨c, hc, hend, hdigit⟩ => ⟨c, hc, by simpa using hend, hdigit⟩⟩

instance (status : Str) : Decidable (StatusLegible status) :=
  decidable_of_iff _ statusLegible_decide

/-- Digits are on one line. -/
theorem isOneLine_of_digits {s : Str} (h : ∀ c ∈ s, c.isDigit = true) : IsOneLine s :=
  ⟨fun hmem => absurd (h _ hmem) (by decide), fun hmem => absurd (h _ hmem) (by decide)⟩

/-- What is read of a field is a run of digits exactly when the field is one that is not empty:
this is so for the fields that are legible. -/
theorem statusLegible_iff {status : Str} :
    ((∀ c ∈ withoutEnds status, c.isDigit = true) ↔
        status ≠ [] ∧ ∀ c ∈ status, c.isDigit = true) ↔ StatusLegible status := by
  constructor
  · intro h
    have hne : status ≠ [] := by
      rintro rfl
      exact (h.mp (by simp)).1 rfl
    refine ⟨hne, ?_⟩
    by_cases hdigits : ∀ c ∈ withoutEnds status, c.isDigit = true
    · exact Or.inl (isOneLine_of_digits (h.mp hdigits).2)
    · push Not at hdigits
      obtain ⟨c, hc, hdigit⟩ := hdigits
      obtain ⟨hmem, hkept⟩ := List.mem_filter.mp hc
      exact Or.inr ⟨c, hmem, of_decide_eq_true hkept, Bool.eq_false_iff.mpr hdigit⟩
  · rintro ⟨hne, hline | ⟨c, hc, hkept, hdigit⟩⟩
    · rw [withoutEnds_eq_self_iff.mpr hline]
      exact (and_iff_right hne).symm
    · have hread : c ∈ withoutEnds status := List.mem_filter.mpr ⟨hc, decide_eq_true hkept⟩
      refine iff_of_false (fun h => ?_) fun h => ?_
      · exact absurd (h c hread) (by simp [hdigit])
      · exact absurd (h.2 c hc) (by simp [hdigit])

/-- **A status is a number that was printed** exactly when none of the first six fields has a
NUL, which ends the line, and the fourth one is legible: an empty field passes for the number
0, and `1` and `2` with a carriage return between them for 12. -/
theorem status_printed_iff {line : Str} (hline : 7 ≤ (printedFields line).length) (db : Db)
    (is_service : IsService) (host svc : Option ℕ) (use_sender_address : Bool) :
    StatusPrinted (parseResultStr db (cString line) is_service host svc use_sender_address)
        (statusField line) ↔
      (∀ s ∈ (printedFields line).take 6, '\x00' ∉ s) ∧ StatusLegible (statusField line) := by
  by_cases hnul : ∀ s ∈ (printedFields line).take 6, '\x00' ∉ s
  · rw [and_iff_right hnul]
    obtain ⟨a, b, c, status, e, f, g, more, hfields⟩ := exists_seven hline
    have hstatus : statusField line = status := by
      unfold statusField
      rw [hfields]
      rfl
    rw [hfields] at hnul
    obtain ⟨rest, hread⟩ := fieldsRead_cString_cons hfields hnul
    have hdigits : isInteger (some (withoutEnds status)) = true ↔
        ∀ c ∈ withoutEnds status, c.isDigit = true := List.all_eq_true
    rw [parseResultStr_eq hread, hstatus, ← statusLegible_iff]
    constructor
    · rintro ⟨r, hr, hcomplete, -⟩
      obtain rfl := Option.some.inj (Except.ok.inj hr)
      rw [makeResult, fillResult_is_complete] at hcomplete
      exact hdigits.symm.trans hcomplete
    · intro hlegible
      refine ⟨_, rfl, ?_, fun hne hall hmax => ?_⟩
      · rw [makeResult, fillResult_is_complete]
        exact hdigits.trans hlegible
      · rw [makeResult, fillResult_ret_value,
          withoutEnds_eq_self_iff.mpr (isOneLine_of_digits hall)]
        exact atoi_digits hne (List.all_eq_true.mpr hall) hmax
  · -- the line ends too early
    refine iff_of_false ?_ fun h => hnul h.1
    rintro ⟨r, hr, -⟩
    exact hnul ((not_malformed_cString_iff hline).mp (not_malformed_of_parse hr))

/-- A database without tables. -/
def bareDb : Db := ⟨HashTable.empty, none⟩

theorem status_printed_critical :
    StatusPrinted (parseResultStr bareDb (cString "|h||2|down||\n".toList) .no none none false)
      (statusField "|h||2|down||\n".toList) :=
  (status_printed_iff (by decide) _ _ _ _ _).mpr (by decide)

/-- A line without status is a complete result. -/
theorem not_status_printed :
    ¬ ∀ (db : Db) (line : Str) (is_service : IsService) (host svc : Option ℕ)
        (use_sender_address : Bool), 7 ≤ (printedFields line).length →
      StatusPrinted (parseResultStr db (cString line) is_service host svc use_sender_address)
        (statusField line) := by
  intro h
  obtain ⟨r, hr, hcomplete, -⟩ := h bareDb "|h|||||\n".toList .no none none false (by decide)
  have hresult : r.is_complete = true := by
    have heq : parseResultStr bareDb (cString "|h|||||\n".toList) .no none none false
        = .ok (some
            ⟨true, false, false, .unset, none, some ['h'], none, 0, none, none, true, 0⟩) := by
      decide
    rw [heq] at hr
    obtain rfl := Option.some.inj (Except.ok.inj hr)
    rfl
  exact (hcomplete.mp hresult).1 (by decide)

/-! ## The names of a result -/

/-- The host name of a line: the plugin's, or the stored one of the item. -/
def nameOf (db : Db) (host svc : Option ℕ) (service : Bool) (host_name : Str) : Str :=
  if host_name ≠ [] then host_name
  else if service then (dbExtractHostName db none svc).getD []
  else (dbExtractHostName db host none).getD []

/-- The description of a line: the plugin's, or the stored one of the item. -/
def descOf (db : Db) (svc : Option ℕ) (svc_desc : Str) : Str :=
  if svc_desc ≠ [] then svc_desc else (dbExtractSvcDesc db svc).getD []

theorem getD_fillField (f : Str) (stored : Option Str) :
    (fillField (xstrdup (some f)) stored).getD [] = if f ≠ [] then f else stored.getD [] := by
  cases f with
  | cons c f => rfl
  | nil => rcases stored with - | (- | ⟨c, s⟩) <;> rfl

/-- The text of a field that is not empty. -/
theorem some_of_getD {field : Option Str} {f : Str} (hne : isEmpty field = false)
    (hf : field.getD [] = f) : field = some f := by
  cases field with
  | none => exact absurd hne (by simp)
  | some s => exact congrArg some hf

/-- The names of a complete result. -/
theorem makeResult_names {db : Db} {is_service : IsService} {host svc : Option ℕ} {u : Bool}
    {address host_name svc_desc status output perfdata svc_id : Str}
    (hdigits : isInteger (some status) = true) {r : ExecResult}
    (hr : makeResult db is_service host svc u ⟨some address, some host_name, some svc_desc,
      some status, some output, some perfdata, some svc_id⟩ status svc_id = r) :
    r.is_service = chooseService is_service (some svc_desc) ∧
      r.host_name.getD [] = nameOf db host svc r.is_service host_name ∧
      r.svc_desc.getD [] = if r.is_service then descOf db svc svc_desc else svc_desc := by
  subst hr
  cases hs : chooseService is_service (some svc_desc) with
  | false =>
      simp only [makeResult, fillResult, hdigits, hs, if_true, Bool.not_false, getD_fillField]
      refine ⟨trivial, rfl, ?_⟩
      cases svc_desc <;> rfl
  | true =>
      simp only [makeResult, fillResult, hdigits, hs, if_true, Bool.not_true, Bool.false_eq_true,
        if_false, getD_fillField]
      exact ⟨trivial, rfl, rfl⟩

/-! ## What a record is about -/

/-- The address of a line: the plugin's, or the stored one of the item. -/
def addressOf (db : Db) (host svc : Option ℕ) (service : Bool) (host_address : Str) : Str :=
  if host_address ≠ [] then host_address
  else if service then (dbExtractHostAddress db none svc).getD []
  else (dbExtractHostAddress db host none).getD []

/-- What a record is about, with the empty text for what it does not name. -/
structure Subject where
  service : Bool
  address : Str
  name : Str
  desc : Str
  deriving DecidableEq, Repr

/-- What the record with some fields is about: what they name, and with a status, where they
name nothing, what is stored for the item. -/
def subjectOf (db : Db) (item : ExecItem) (fields : List Str) : Subject :=
  match fields with
  | address :: name :: desc :: status :: _ =>
      let service := chooseService item.is_service (some desc)
      if isInteger (some status) then
        ⟨service, addressOf db item.host item.svc service address,
          nameOf db item.host item.svc service name,
          if service then descOf db item.svc desc else desc⟩
      else ⟨service, address, name, desc⟩
  | _ => ⟨false, [], [], []⟩

/-- A result that is about a subject: what is not named is NULL. -/
structure IsAbout (r : ExecResult) (s : Subject) : Prop where
  is_service : r.is_service = s.service
  host_address : r.host_address = xstrdup (some s.address)
  host_name : r.host_name = xstrdup (some s.name)
  svc_desc : r.svc_desc = xstrdup (some s.desc)

theorem fillField_xstrdup (f : Str) (stored : Option Str) :
    fillField (xstrdup (some f)) stored
      = xstrdup (some (if f ≠ [] then f else stored.getD [])) := by
  cases f with
  | cons c f => rfl
  | nil => rcases stored with - | (- | ⟨c, s⟩) <;> rfl

/-- A line with a result has seven fields, and the result is made of them. -/
theorem exists_makeResult_of_parse {c : ExecCtx} {item : ExecItem} {line : Str} {r : ExecResult}
    (h : c.parse item line = .ok (some r)) :
    ∃ address name desc status output perfdata svc_id more,
      fieldsRead line = address :: name :: desc :: status :: output :: perfdata :: svc_id :: more ∧
        r = makeResult c.db item.is_service item.host item.svc c.use_sender_address
          ⟨some address, some name, some desc, some status, some output, some perfdata,
            some svc_id⟩ status svc_id := by
  have hlength : 7 ≤ (fieldsRead line).length :=
    Nat.not_lt.mp fun hshort => not_malformed_of_parse h (malformed_iff.mpr hshort)
  obtain ⟨address, name, desc, status, output, perfdata, svc_id, more, hfields⟩ :=
    exists_seven hlength
  unfold ExecCtx.parse at h
  rw [parseResultStr_eq hfields] at h
  exact ⟨_, _, _, _, _, _, _, _, hfields, (Option.some.inj (Except.ok.inj h)).symm⟩

/-- A result carries the setting of its trap. -/
theorem use_sender_address_of_parse {c : ExecCtx} {item : ExecItem} {line : Str} {r : ExecResult}
    (h : c.parse item line = .ok (some r)) : r.use_sender_address = c.use_sender_address := by
  obtain ⟨_, _, _, _, _, _, _, _, -, rfl⟩ := exists_makeResult_of_parse h
  rw [makeResult, fillResult_use_sender_address]

/-- The result of a line is about what the line is. -/
theorem isAbout_of_parse {c : ExecCtx} {item : ExecItem} {line : Str} {r : ExecResult}
    (h : c.parse item line = .ok (some r)) :
    IsAbout r (subjectOf c.db item (fieldsRead line)) := by
  obtain ⟨address, name, desc, status, output, perfdata, svc_id, more, hfields, rfl⟩ :=
    exists_makeResult_of_parse h
  rw [hfields]
  cases hdigits : isInteger (some status) with
  | false =>
      simp only [subjectOf, hdigits, Bool.false_eq_true, if_false, makeResult, fillResult]
      exact ⟨rfl, rfl, rfl, rfl⟩
  | true =>
      cases hs : chooseService item.is_service (some desc) with
      | false =>
          simp only [subjectOf, hdigits, hs, Bool.false_eq_true, if_false, if_true, makeResult,
            fillResult, Bool.not_false, fillField_xstrdup]
          exact ⟨rfl, rfl, rfl, rfl⟩
      | true =>
          simp only [subjectOf, hdigits, hs, Bool.false_eq_true, if_false, if_true, makeResult,
            fillResult, Bool.not_true, fillField_xstrdup]
          exact ⟨rfl, rfl, rfl, rfl⟩

/-- A stored text is the one of a result when it is the one of the subject. -/
theorem some_text_eq_xstrdup_iff {t : Text} {s : Str} :
    some t.1 = xstrdup (some s) ↔ t.1 = s := by
  by_cases hs : s = []
  · subst hs
    exact iff_of_false (by simp [xstrdup]) t.2
  · rw [xstrdup_some_of_ne_nil hs, Option.some_inj]

theorem xstrdup_some_eq_none_iff {s : Str} : xstrdup (some s) = none ↔ s = [] := by
  cases s <;> simp [xstrdup]

/-- A service is reported without description, while a stored one has its host name or
address. -/
def Subject.Undescribed (db : Db) (s : Subject) : Prop :=
  s.service = true ∧ s.desc = [] ∧
    ∃ n ∈ db.svcs.nodes, n.host_name.1 = s.name ∨ n.host_address.1 = s.address

instance (db : Db) (s : Subject) : Decidable (s.Undescribed db) :=
  inferInstanceAs (Decidable (_ ∧ _ ∧ ∃ n ∈ db.svcs.nodes, _))

/-- The host is stored under a command, or no host of its name or address is stored at all. -/
def Subject.HostVerified (db : Db) (cmd_id : ℤ) (s : Subject) : Prop :=
  (∃ n ∈ db.hosts.nodes, n.cmd_id = cmd_id ∧ n.host_name.1 = s.name) ∨
    ∀ n ∈ db.hosts.nodes, n.host_name.1 ≠ s.name ∧ n.host_address.1 ≠ s.address

/-- The service is stored under a command, or no service of its description and of its host
name or address is stored at all. -/
def Subject.SvcVerified (db : Db) (cmd_id : ℤ) (s : Subject) : Prop :=
  (∃ n ∈ db.svcs.nodes, n.cmd_id = cmd_id ∧ n.host_name.1 = s.name ∧ n.description.1 = s.desc) ∨
    ∀ n ∈ db.svcs.nodes, n.description.1 = s.desc →
      n.host_name.1 ≠ s.name ∧ n.host_address.1 ≠ s.address

/-- A record that may be reported for a command. -/
def Subject.Verified (db : Db) (cmd_id : ℤ) (s : Subject) : Prop :=
  s.name = [] ∨ if s.service then s.SvcVerified db cmd_id else s.HostVerified db cmd_id

/-! ## The item of a result -/

/-- An item is bound to a stored host, or to a stored service: the name of the host, and the
description of the service. -/
inductive BoundTo (db : Db) (item : ExecItem) : Text → Option Text → Prop
  | host {q : ℕ} {n : Host} (hservice : item.is_service = .no) (hitem : item.host = some q)
      (hstored : db.hosts.nodes[q]? = some n) : BoundTo db item n.host_name none
  | svc {q : ℕ} {n : Svc} (hservice : item.is_service = .yes) (hitem : item.svc = some q)
      (hstored : db.svcs.nodes[q]? = some n) : BoundTo db item n.host_name (some n.description)

/-- The fields of a line that has a status and no names. -/
def namelessFields (status output perfdata svc_id : Str) : Fields :=
  ⟨some [], some [], some [], some status, some output, some perfdata, some svc_id⟩

theorem fillField_text (t : Text) : fillField none (some t.1) = some t.1 := by
  unfold fillField
  rw [if_pos (by rfl), isEmpty_text, if_neg (by simp), xstrdup_text]

/-- The result of such a line belongs to the item: it has the names that are stored, and it
is known. -/
theorem makeResult_of_boundTo {db : Db} {item : ExecItem} {name : Text}
    {description : Option Text} (hbound : BoundTo db item name description)
    (u : Bool) {status : Str} (hdigits : isInteger (some status) = true)
    (output perfdata svc_id : Str) :
    ∃ r, makeResult db item.is_service item.host item.svc u
        (namelessFields status output perfdata svc_id) status svc_id = r ∧
      r.is_complete = true ∧ r.host_name = some name.1 ∧ r.svc_desc = description.map (·.1) ∧
      r.is_service = description.isSome ∧ r.ret_value = atoi status ∧ Known db r := by
  refine ⟨_, rfl, ?_⟩
  cases hbound with
  | @host q n hservice hitem hstored =>
      have hname : dbExtractHostName db (some q) none = some n.host_name.1 := by
        simp [dbExtractHostName, dbExtract, hstored]
      have hfill : fillField (xstrdup (some [])) (dbExtractHostName db (some q) none)
          = some n.host_name.1 := by
        rw [hname]
        exact fillField_text n.host_name
      simp only [makeResult, fillResult, hservice, hitem, chooseService, hdigits, namelessFields,
        if_true, Bool.not_false, hfill]
      exact ⟨trivial, trivial, rfl, rfl, trivial,
        Or.inl ⟨rfl, n, List.mem_of_getElem? hstored, Or.inl rfl⟩⟩
  | @svc q n hservice hitem hstored =>
      have hname : dbExtractHostName db none (some q) = some n.host_name.1 := by
        simp [dbExtractHostName, dbExtract, hstored]
      have hfill : fillField (xstrdup (some [])) (dbExtractHostName db none (some q))
          = some n.host_name.1 := by
        rw [hname]
        exact fillField_text n.host_name
      have hdesc : fillField (xstrdup (some [])) (dbExtractSvcDesc db (some q))
          = some n.description.1 := by
        rw [dbExtractSvcDesc_eq hstored]
        exact fillField_text n.description
      simp only [makeResult, fillResult, hservice, hitem, chooseService, hdigits, namelessFields,
        if_true, Bool.not_true, Bool.false_eq_true, if_false, hfill, hdesc]
      exact ⟨trivial, trivial, rfl, rfl, trivial,
        Or.inr ⟨rfl, n, List.mem_of_getElem? hstored, Or.inl rfl, rfl⟩⟩

/-- **A result belongs to the item executed**: a first line with a status and no names makes
`do_output` call `channel_write` once, with the names of the item.  The lines are those read,
so that the seven fields stand in front of a NUL. -/
theorem result_attributed {c : ExecCtx} {item : ExecItem} {name : Text}
    {description : Option Text} (hbound : BoundTo c.db item name description) {executions : ℕ}
    (hlimit : ¬ (executions : ℤ) > c.stack_max_executions) {line : Str} {lines : List Str}
    (hlines : c.lines executions item = line :: lines)
    {status output perfdata svc_id : Str} {more : List Str}
    (hfields : printedFields line
      = [] :: [] :: [] :: status :: output :: perfdata :: svc_id :: more)
    (hne : status ≠ []) (hdigits : ∀ c ∈ status, c.isDigit = true)
    (hmax : digitsValue status < 2 ^ 31) (rest : List ExecItem) :
    ∃ run r w, stackRun c executions item rest = some run ∧ run.ending = .result r ∧
      doOutput c.db r = .ok (some w) ∧ w.host_name = some name.1 ∧
      w.svc_desc = description.map (·.1) ∧ (w.is_service = true ↔ item.is_service = .yes) ∧
      w.return_code = digitsValue status ∧ w.timestamp = .set c.trap_timestamp := by
  have hinteger : isInteger (some status) = true := List.all_eq_true.mpr hdigits
  have hread : fieldsRead line = [] :: [] :: [] :: status :: withoutEnds output ::
      withoutEnds perfdata :: withoutEnds svc_id :: more.map withoutEnds := by
    rw [fieldsRead, hfields]
    simp [withoutEnds_eq_self_iff.mpr (isOneLine_of_digits hdigits)]
  obtain ⟨r, hr, hcomplete, hname, hdesc, hservice, hvalue, hknown⟩ :=
    makeResult_of_boundTo hbound c.use_sender_address hinteger (withoutEnds output)
      (withoutEnds perfdata) (withoutEnds svc_id)
  have hparse : c.parse item line = .ok (some r) := by
    unfold ExecCtx.parse
    rw [parseResultStr_eq hread, ← hr]
    rfl
  have hloop : lineLoop c item rest none (line :: lines) = ⟨rest, .result (c.stamp r)⟩ :=
    lineLoop_complete (complete_eq_some.mpr ⟨r, hparse, hcomplete, rfl⟩) none
  have hconfirmed : Confirmed c.db (c.stamp r) := by
    refine ⟨?_, fun hs => ?_, Or.inr hknown⟩
    · show isEmpty r.host_name = false
      rw [hname, isEmpty_text]
    · have hsome : description.isSome = true := hservice ▸ hs
      obtain ⟨d, rfl⟩ := Option.isSome_iff_exists.mp hsome
      show isEmpty r.svc_desc = false
      rw [hdesc, Option.map_some, isEmpty_text]
  refine ⟨⟨rest, .result (c.stamp r)⟩, c.stamp r, _, ?_, rfl,
    doOutput_eq_some.mpr ⟨hconfirmed, rfl⟩, hname, hdesc, ?_, ?_, rfl⟩
  · rw [stackRun, if_neg hlimit, hlines, hloop]
  · show r.is_service = true ↔ _
    rw [hservice]
    cases hbound with
    | host hno => simp [hno]
    | svc hyes => simp [hyes]
  · show r.ret_value = _
    rw [hvalue, atoi_digits hne hinteger hmax]

/-- The command of two hosts, with a plugin that reports a status without names. -/
def namelessCtx : ExecCtx :=
  { twoHostsCtx with plugin := fun _ _ => ["|||2|down||\n".toList] }

/-- The older host. -/
def olderHostItem : ExecItem := ⟨some ['p'], .no, some 0, none⟩

theorem result_attributed_older :
    ∃ run r w, stackRun namelessCtx 0 olderHostItem [] = some run ∧ run.ending = .result r ∧
      doOutput namelessCtx.db r = .ok (some w) ∧ w.host_name = some ['h'] ∧
      w.svc_desc = none ∧ (w.is_service = true ↔ olderHostItem.is_service = .yes) ∧
      w.return_code = digitsValue ['2'] ∧ w.timestamp = .set 1 := by
  obtain ⟨n, hstored, hname⟩ : ∃ n : Host, namelessCtx.db.hosts.nodes[0]? = some n ∧
      n.host_name = Text.single 'h' := ⟨_, rfl, rfl⟩
  have hbound : BoundTo namelessCtx.db olderHostItem n.host_name none := .host rfl rfl hstored
  rw [hname] at hbound
  have hlimit : ¬ ((0 : ℕ) : ℤ) > namelessCtx.stack_max_executions := by decide
  have hfields : printedFields "|||2|down||\n".toList
      = [] :: [] :: [] :: ['2'] :: "down".toList :: [] :: [] :: [] := by decide
  have hdigits : ∀ c ∈ ['2'], c.isDigit = true := List.all_eq_true.mp rfl
  exact result_attributed hbound hlimit rfl hfields (List.cons_ne_nil _ _) hdigits (by decide) []

end Trapd
