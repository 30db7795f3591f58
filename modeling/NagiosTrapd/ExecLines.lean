/-
# What an execution makes of its lines

A line of a plugin is malformed, complete, or it schedules a second step; what is
left over is an incomplete line for which nothing is found.  `stack_run` reads on
only behind lines of the third kind.  Two relations say what it reads:

* `Reports`: the result that reaches `do_output`, which is that of the `ReportingLine`;
* `ReadsMalformed`: a malformed line is reached.

The loop is then given by `lineLoop_result`, `lineLoop_nullFault` and
`lineLoop_stack`, and whether every record of the output counts by
`lineLoop_records_iff`.
-/
import NagiosTrapd.Exec

namespace Trapd

/-! ## Fields of a line -/

/-- Behind the seventh field nothing changes any more. -/
theorem foldl_readField_svcId (f : Fields) (tokens : List Str) :
    (tokens.foldl readField (.svcId, f)).2 = f := by
  induction tokens with
  | nil => rfl
  | cons token tokens ih => exact ih

/-- The `strsep` loop puts the first seven fields where they belong. -/
theorem foldl_readField (tokens : List Str) :
    (tokens.foldl readField (.started, Fields.none)).2
      = ⟨tokens[0]?, tokens[1]?, tokens[2]?, tokens[3]?, tokens[4]?, tokens[5]?, tokens[6]?⟩ := by
  rcases tokens with _ | ⟨a, _ | ⟨b, _ | ⟨d, _ | ⟨e, _ | ⟨f, _ | ⟨g, _ | ⟨h, tokens⟩⟩⟩⟩⟩⟩⟩
  all_goals try rfl
  exact foldl_readField_svcId _ tokens

/-- A blank line, or one with fewer than seven fields. -/
def Malformed (line : Str) : Prop :=
  ∀ str, removeChars (some line) ['\n', '\r'] = some str → (str.splitOn '|').length < 7

instance (line : Str) : Decidable (Malformed line) :=
  decidable_of_iff
    (((removeChars (some line) ['\n', '\r']).all fun str => (str.splitOn '|').length < 7) = true)
    (by unfold Malformed; cases removeChars (some line) ['\n', '\r'] <;> simp)

example : Malformed "|host||0|up\n".toList := by decide

/-- `parse_result_str` on a malformed line: NULL, or `atoi` of NULL. -/
theorem parseResultStr_malformed {db : Db} {line : Str} {is_service : IsService}
    {host svc : Option ℕ} {u : Bool} (h : Malformed line) :
    parseResultStr db line is_service host svc u = .ok none ∨
      parseResultStr db line is_service host svc u = .error .nullString := by
  unfold parseResultStr
  cases hstr : removeChars (some line) ['\n', '\r'] with
  | none => exact Or.inl rfl
  | some str =>
      right
      have hlength := h str hstr
      have hid : (readFields str).svc_id = none := by
        unfold readFields
        rw [foldl_readField]
        exact List.getElem?_eq_none (Nat.le_of_lt_succ hlength)
      simp only [hid]
      cases (readFields str).ret_value <;> rfl

/-- A line with a result is not malformed. -/
theorem not_malformed_of_parse {db : Db} {line : Str} {is_service : IsService}
    {host svc : Option ℕ} {u : Bool} {r : ExecResult}
    (h : parseResultStr db line is_service host svc u = .ok (some r)) : ¬ Malformed line := by
  intro hm
  have hp : parseResultStr db line is_service host svc u = .ok none ∨
      parseResultStr db line is_service host svc u = .error .nullString :=
    parseResultStr_malformed hm
  rw [h] at hp
  simp at hp

/-- `parse_result_str` on any other line returns a result. -/
theorem parseResultStr_of_not_malformed {db : Db} {line : Str} (is_service : IsService)
    (host svc : Option ℕ) (u : Bool) (h : ¬ Malformed line) :
    ∃ r, parseResultStr db line is_service host svc u = .ok (some r) := by
  unfold Malformed at h
  push Not at h
  obtain ⟨str, hstr, hlength⟩ := h
  have hvalue : ∃ v, (readFields str).ret_value = some v := by
    unfold readFields
    rw [foldl_readField]
    exact ⟨_, List.getElem?_eq_getElem (by omega)⟩
  have hid : ∃ i, (readFields str).svc_id = some i := by
    unfold readFields
    rw [foldl_readField]
    exact ⟨_, List.getElem?_eq_getElem (by omega)⟩
  obtain ⟨v, hv⟩ := hvalue
  obtain ⟨i, hi⟩ := hid
  unfold parseResultStr
  simp only [hstr, hv, hi]
  exact ⟨_, rfl⟩

/-! ## Execution lists and the stack -/

/-- Without its tables no branch of `execlist_build` searches. -/
theorem matchBoth_standalone {db : Db} (hd : db.daemon = none) (cmd_id : ℤ) (flags : LookupFlag)
    (extract : Extract) (key : Str) : matchBoth db cmd_id flags extract key = .error .noTable := by
  have htables : db.tables = .error .noTable := by simp [Db.tables, hd]
  simp [matchBoth, matchHosts, dbLookupHostByCmdId, htables, bind, Except.bind]

/-- The items a search lists have commands that are not empty. -/
theorem matchBoth_commands {db : Db} {cmd_id : ℤ} (key : Key) {l : List ExeclistItem}
    (h : matchBoth db cmd_id key.flag key.extract key.text = .ok l) :
    ∀ i ∈ l, ∃ t : Text, i.command = some t.1 := by
  by_cases hd : db.daemon = none
  · rw [matchBoth_standalone hd] at h
    exact absurd h (by simp)
  · rw [matchBoth_eq hd] at h
    obtain rfl := Except.ok.inj h
    intro i hi
    rcases List.mem_append.mp hi with hi | hi
    · obtain ⟨q, hq, rfl⟩ := List.mem_map.mp hi
      obtain ⟨-, -, n, -, -, -, hn, -⟩ := db.hosts.mem_found.mp hq
      exact ⟨n.expanded_text, by rw [hostItem_eq hn]⟩
    · obtain ⟨q, hq, rfl⟩ := List.mem_map.mp hi
      obtain ⟨-, -, n, -, -, -, hn, -⟩ := db.svcs.mem_found.mp hq
      exact ⟨n.expanded_text, by rw [svcItem_eq hn]⟩

/-- What `execlist_append` stores is NULL or a copy that is not empty. -/
theorem execlistAppend_commands (command : Option Str) (is_service : IsService) :
    (∀ i ∈ execlistAppend [] command is_service none none, ∃ t : Text, i.command = some t.1) ∨
      ∃ i, execlistAppend [] command is_service none none = [i] ∧ i.command = none := by
  unfold execlistAppend
  cases hc : xstrdup command with
  | none => exact Or.inr ⟨_, rfl, rfl⟩
  | some t =>
      left
      intro i hi
      obtain rfl := List.mem_singleton.mp hi
      exact ⟨⟨t, ne_nil_of_xstrdup_eq_some hc⟩, rfl⟩

/-- **An execution list** has commands that are not empty, or it is a single item
without command. -/
theorem execlistBuild_commands {db : Db} {command : Option Str} {cmd_id : ℤ} {u : Bool}
    {s a n : Option Str} {l : List ExeclistItem}
    (h : execlistBuild db command cmd_id u s a n = .ok l) :
    (∀ i ∈ l, ∃ t : Text, i.command = some t.1) ∨ ∃ i, l = [i] ∧ i.command = none := by
  unfold execlistBuild at h
  split_ifs at h with hcommand hassert haddress hname hsender huse
  · obtain rfl := Except.ok.inj h
    exact execlistAppend_commands _ _
  · exact Or.inl (matchBoth_commands (.address (a.getD [])) h)
  · exact Or.inl (matchBoth_commands (.name (n.getD [])) h)
  · exact Or.inl (matchBoth_commands (.address (s.getD [])) h)
  · cases ht : dbLookupExpandedTextByCmdId db cmd_id with
    | error f => simp [ht, bind, Except.bind] at h
    | ok text =>
        simp only [ht, bind, Except.bind] at h
        obtain rfl := Except.ok.inj h
        exact execlistAppend_commands _ _
  · obtain rfl := Except.ok.inj h
    exact Or.inl fun i hi => absurd hi List.not_mem_nil

/-- `execlist_build` compares nothing through NULL. -/
theorem execlistBuild_error {db : Db} {command : Option Str} {cmd_id : ℤ} {u : Bool}
    {s a n : Option Str} {f : Fault} (h : execlistBuild db command cmd_id u s a n = .error f) :
    f = .assertion ∨ f = .noTable := by
  have hmatch : ∀ key : Key, matchBoth db cmd_id key.flag key.extract key.text = .error f →
      f = .noTable := by
    intro key hkey
    by_cases hd : db.daemon = none
    · rw [matchBoth_standalone hd] at hkey
      exact (Except.error.inj hkey).symm
    · rw [matchBoth_eq hd] at hkey
      exact absurd hkey (by simp)
  unfold execlistBuild at h
  split_ifs at h with hcommand hassert haddress hname hsender huse
  · exact Or.inl (Except.error.inj h).symm
  · exact Or.inr (hmatch (.address (a.getD [])) h)
  · exact Or.inr (hmatch (.name (n.getD [])) h)
  · exact Or.inr (hmatch (.address (s.getD [])) h)
  · right
    unfold dbLookupExpandedTextByCmdId dbLookupCommandByCmdId Db.tables at h
    split_ifs at h with hcmd
    · simp [bind, Except.bind] at h
    · cases hd : db.daemon with
      | none => simpa [hd, bind, Except.bind, eq_comm] using h
      | some d => simp [hd, bind, Except.bind] at h

/-- All items go onto the stack when all have commands. -/
theorem pushExeclist_eq {l : List ExeclistItem} (h : ∀ i ∈ l, ∃ t : Text, i.command = some t.1) :
    ∀ stack, pushExeclist stack l = (l.reverse ++ stack, true) := by
  induction l with
  | nil => intro stack; rfl
  | cons i l ih =>
      intro stack
      obtain ⟨t, ht⟩ := h i List.mem_cons_self
      have hpush : pushExecitem stack t.1 i.is_service i.host i.svc = i :: stack := by
        unfold pushExecitem
        rw [xstrdup_text, ← ht]
      rw [pushExeclist, ht]
      simp only [hpush]
      rw [ih (fun j hj => h j (List.mem_cons_of_mem i hj))]
      simp

/-! ## Kinds of lines -/

section

variable (c : ExecCtx) (item : ExecItem)

/-- A line as `stack_run` parses it. -/
def ExecCtx.parse (line : Str) : Except Fault (Option ExecResult) :=
  parseResultStr c.db line item.is_service item.host item.svc c.use_sender_address

/-- A result with the time of the trap. -/
def ExecCtx.stamp (r : ExecResult) : ExecResult := { r with timestamp := .set c.trap_timestamp }

/-- The result of a complete line. -/
def ExecCtx.complete (line : Str) : Option ExecResult :=
  match c.parse item line with
  | .ok (some r) => if r.is_complete then some (c.stamp r) else none
  | _ => none

/-- The items an incomplete line asks to be executed: those of the second execution
list, if they can be pushed. -/
def ExecCtx.scheduled (line : Str) : List ExecItem :=
  match c.parse item line with
  | .ok (some r) =>
      if r.is_complete then []
      else
        match execlistBuild c.db c.command c.cmd_id c.use_sender_address c.sender_address
            r.host_address r.host_name with
        | .ok l => if l.all (·.command.isSome) then l else []
        | .error _ => []
  | _ => []

/-- **What reaches `do_output`**: the first complete line behind lines that all
schedule something, or the last line if all of them do. -/
inductive Reports : List Str → ExecResult → Prop
  | complete {line : Str} {lines : List Str} {r : ExecResult} (h : c.complete item line = some r) :
      Reports (line :: lines) r
  | last {line : Str} {r : ExecResult} (hs : c.scheduled item line ≠ [])
      (hr : c.parse item line = .ok (some r)) : Reports [line] (c.stamp r)
  | later {line : Str} {lines : List Str} {r : ExecResult} (hs : c.scheduled item line ≠ [])
      (h : Reports lines r) : Reports (line :: lines) r

/-- The line that is reported: the first complete one behind lines that all schedule
something, or the last line if all of them do. -/
def ReportingLine (lines : List Str) (line : Str) : Prop :=
  ∃ before after, lines = before ++ line :: after ∧
    (∀ l ∈ before, c.scheduled item l ≠ []) ∧
    (c.complete item line ≠ none ∨ c.scheduled item line ≠ [] ∧ after = [])

/-- **A malformed line is read**: all lines before it schedule something. -/
inductive ReadsMalformed : List Str → Prop
  | here {line : Str} {lines : List Str} (h : Malformed line) : ReadsMalformed (line :: lines)
  | later {line : Str} {lines : List Str} (hs : c.scheduled item line ≠ [])
      (h : ReadsMalformed lines) : ReadsMalformed (line :: lines)

/-- The items that the lines read push, in this order. -/
def ExecCtx.pushed (lines : List Str) : List ExecItem :=
  (lines.takeWhile fun line => c.scheduled item line ≠ []).flatMap (c.scheduled item)

end

variable {c : ExecCtx} {item : ExecItem} {line : Str} {lines : List Str} {stack : List ExecItem}

/-- A malformed line neither completes nor schedules anything. -/
theorem complete_of_malformed (h : Malformed line) : c.complete item line = none := by
  unfold ExecCtx.complete ExecCtx.parse
  rcases parseResultStr_malformed h with hp | hp <;> rw [hp]

theorem scheduled_of_malformed (h : Malformed line) : c.scheduled item line = [] := by
  unfold ExecCtx.scheduled ExecCtx.parse
  rcases parseResultStr_malformed h with hp | hp <;> rw [hp]

/-- A line is complete when what it parses to is. -/
theorem complete_eq_some {r : ExecResult} :
    c.complete item line = some r ↔
      ∃ r', c.parse item line = .ok (some r') ∧ r'.is_complete = true ∧ c.stamp r' = r := by
  unfold ExecCtx.complete
  rcases c.parse item line with f | _ | r'
  · simp
  · simp
  · simp

/-- A complete line schedules nothing. -/
theorem scheduled_of_complete {r : ExecResult} (h : c.complete item line = some r) :
    c.scheduled item line = [] := by
  obtain ⟨r', hp, hcomplete, -⟩ := complete_eq_some.mp h
  unfold ExecCtx.scheduled
  rw [hp]
  simp only [if_pos hcomplete]

/-! ## One turn of the loop -/

/-- The loop at a malformed line. -/
theorem lineLoop_malformed (h : Malformed line) (er : Option ExecResult) :
    lineLoop c item stack er (line :: lines) = ⟨stack, .fault .nullResult⟩ ∨
      lineLoop c item stack er (line :: lines) = ⟨stack, .fault .nullString⟩ := by
  rw [lineLoop]
  rcases parseResultStr_malformed h with hp | hp
  · exact Or.inl (by rw [hp])
  · exact Or.inr (by rw [hp])

/-- The loop at a complete line. -/
theorem lineLoop_complete {r : ExecResult} (h : c.complete item line = some r)
    (er : Option ExecResult) : lineLoop c item stack er (line :: lines) = ⟨stack, .result r⟩ := by
  obtain ⟨r', hp, hcomplete, rfl⟩ := complete_eq_some.mp h
  unfold ExecCtx.parse at hp
  rw [lineLoop, hp]
  simp only [if_pos hcomplete]
  rfl

/-- A line that schedules something has a result without status, for which a list is
found whose items can all be pushed. -/
theorem exists_of_scheduled (h : c.scheduled item line ≠ []) :
    ∃ r i l, c.parse item line = .ok (some r) ∧ r.is_complete = false ∧
      execlistBuild c.db c.command c.cmd_id c.use_sender_address c.sender_address r.host_address
        r.host_name = .ok (i :: l) ∧
      (∀ j ∈ i :: l, ∃ t : Text, j.command = some t.1) ∧ c.scheduled item line = i :: l := by
  unfold ExecCtx.scheduled at h ⊢
  cases hp : c.parse item line with
  | error f => simp [hp] at h
  | ok o =>
      cases o with
      | none => simp [hp] at h
      | some r =>
          cases hcomplete : r.is_complete with
          | true => simp [hp, hcomplete] at h
          | false =>
              cases hb : execlistBuild c.db c.command c.cmd_id c.use_sender_address
                  c.sender_address r.host_address r.host_name with
              | error f => simp [hp, hcomplete, hb] at h
              | ok list =>
                  simp only [hp, hcomplete, hb, Bool.false_eq_true, if_false] at h ⊢
                  by_cases hall : list.all (·.command.isSome) = true
                  · rw [if_pos hall] at h
                    obtain ⟨i, l, rfl⟩ := List.exists_cons_of_ne_nil h
                    refine ⟨r, i, l, rfl, hcomplete, hb, ?_, if_pos hall⟩
                    -- a single item without command is not pushed
                    rcases execlistBuild_commands hb with hcommands | ⟨j, hj, hnone⟩
                    · exact hcommands
                    · rw [hj] at hall
                      simp [hnone] at hall
                  · rw [if_neg hall] at h
                    exact absurd rfl h

/-- The loop at a line that schedules something. -/
theorem lineLoop_scheduled (h : c.scheduled item line ≠ []) (er : Option ExecResult) :
    ∃ r, c.parse item line = .ok (some r) ∧
      lineLoop c item stack er (line :: lines)
        = lineLoop c item ((c.scheduled item line).reverse ++ stack) (some r) lines := by
  obtain ⟨r, i, l, hp, hcomplete, hb, hcommands, hs⟩ := exists_of_scheduled h
  refine ⟨r, hp, ?_⟩
  unfold ExecCtx.parse at hp
  rw [lineLoop]
  simp only [hp, hcomplete, hb, pushExeclist_eq hcommands stack, hs, Bool.false_eq_true, if_false]

/-- The loop at a line for which nothing is found ends without a result. -/
theorem lineLoop_other (hm : ¬ Malformed line) (hc : c.complete item line = none)
    (hs : c.scheduled item line = []) (er : Option ExecResult) :
    ∃ e, lineLoop c item stack er (line :: lines) = ⟨stack, e⟩ ∧
      (e = .null ∨ e = .fault .assertion ∨ e = .fault .noTable) := by
  obtain ⟨r, hp⟩ : ∃ r, parseResultStr c.db line item.is_service item.host item.svc
      c.use_sender_address = .ok (some r) := parseResultStr_of_not_malformed _ _ _ _ hm
  have hcomplete : r.is_complete = false := by
    unfold ExecCtx.complete ExecCtx.parse at hc
    simpa [hp] using hc
  unfold ExecCtx.scheduled ExecCtx.parse at hs
  simp only [hp, hcomplete, Bool.false_eq_true, if_false] at hs
  rw [lineLoop]
  simp only [hp, hcomplete, Bool.false_eq_true, if_false]
  -- nothing is scheduled: the list is empty or cannot be built, or it cannot be pushed
  cases hb : execlistBuild c.db c.command c.cmd_id c.use_sender_address c.sender_address
      r.host_address r.host_name with
  | error f =>
      rcases execlistBuild_error hb with rfl | rfl
      · exact ⟨_, rfl, Or.inr (Or.inl rfl)⟩
      · exact ⟨_, rfl, Or.inr (Or.inr rfl)⟩
  | ok list =>
      cases list with
      | nil => exact ⟨_, rfl, Or.inl rfl⟩
      | cons i l =>
          rcases execlistBuild_commands hb with hcommands | ⟨j, hj, hnone⟩
          · -- all items can be pushed, so something is scheduled
            have hall : (i :: l).all (·.command.isSome) = true := by
              rw [List.all_eq_true]
              intro j hj
              obtain ⟨t, ht⟩ := hcommands j hj
              rw [ht]
              rfl
            simp only [hb, if_pos hall] at hs
            exact absurd hs (by simp)
          · rw [hj]
            simp only [pushExeclist, hnone]
            exact ⟨_, rfl, Or.inl rfl⟩

/-- Undefined behaviour through NULL. -/
def RunEnd.NullFault (e : RunEnd) : Prop := e = .fault .nullString ∨ e = .fault .nullResult

/-- **The loop at a line that is not complete and schedules nothing** ends without a
result, and through NULL exactly when the line is malformed. -/
theorem lineLoop_stop (hc : c.complete item line = none) (hs : c.scheduled item line = [])
    (er : Option ExecResult) :
    ∃ e, lineLoop c item stack er (line :: lines) = ⟨stack, e⟩ ∧ (∀ r, e ≠ .result r) ∧
      (e.NullFault ↔ Malformed line) := by
  by_cases hm : Malformed line
  · rcases lineLoop_malformed hm er with h | h
    · exact ⟨_, h, by simp, by simp [RunEnd.NullFault, hm]⟩
    · exact ⟨_, h, by simp, by simp [RunEnd.NullFault, hm]⟩
  · obtain ⟨e, h, he⟩ := lineLoop_other hm hc hs er
    refine ⟨e, h, ?_, ?_⟩
    · rcases he with rfl | rfl | rfl <;> simp
    · rcases he with rfl | rfl | rfl <;> simp [RunEnd.NullFault, hm]

/-! ## The whole loop -/

/-- The three kinds of lines, as far as the loop goes. -/
theorem line_cases (c : ExecCtx) (item : ExecItem) (line : Str) :
    (∃ r, c.complete item line = some r) ∨ c.scheduled item line ≠ [] ∨
      (c.complete item line = none ∧ c.scheduled item line = []) := by
  cases hc : c.complete item line with
  | some r => exact Or.inl ⟨r, rfl⟩
  | none =>
      by_cases hs : c.scheduled item line = []
      · exact Or.inr (Or.inr ⟨rfl, hs⟩)
      · exact Or.inr (Or.inl hs)

/-- A complete line reports its result and nothing else. -/
theorem reports_complete_iff {r r' : ExecResult} (h : c.complete item line = some r) :
    Reports c item (line :: lines) r' ↔ r = r' := by
  constructor
  · rintro (h' | ⟨hs, -⟩ | ⟨hs, -⟩)
    · exact Option.some_inj.mp (h.symm.trans h')
    · exact absurd (scheduled_of_complete h) hs
    · exact absurd (scheduled_of_complete h) hs
  · rintro rfl
    exact .complete h

/-- Behind a line that schedules something, the later lines report; if there are
none, it reports its own result. -/
theorem reports_scheduled_iff {r r' : ExecResult} (hs : c.scheduled item line ≠ [])
    (hp : c.parse item line = .ok (some r)) :
    Reports c item (line :: lines) r' ↔
      Reports c item lines r' ∨ (c.stamp r = r' ∧ lines = []) := by
  constructor
  · rintro (h | ⟨-, hp'⟩ | ⟨-, h⟩)
    · exact absurd (scheduled_of_complete h) hs
    · obtain rfl : r = _ := Option.some_inj.mp (Except.ok.inj (hp.symm.trans hp'))
      exact Or.inr ⟨rfl, rfl⟩
    · exact Or.inl h
  · rintro (h | ⟨rfl, rfl⟩)
    · exact .later hs h
    · exact .last hs hp

/-- A line that schedules nothing and is not complete reports nothing. -/
theorem not_reports_of_stop (hc : c.complete item line = none) (hs : c.scheduled item line = [])
    {r : ExecResult} : ¬ Reports c item (line :: lines) r := by
  rintro (h | ⟨hs', -⟩ | ⟨hs', -⟩)
  · rw [hc] at h
    exact absurd h (by simp)
  · exact hs' hs
  · exact hs' hs

/-- A reporting line has a result. -/
theorem ReportingLine.parse_eq_some (h : ReportingLine c item lines line) :
    ∃ r, c.parse item line = .ok (some r) := by
  obtain ⟨before, after, -, -, hc | ⟨hs, -⟩⟩ := h
  · obtain ⟨r, hc⟩ := Option.ne_none_iff_exists'.mp hc
    obtain ⟨r', hp, -⟩ := complete_eq_some.mp hc
    exact ⟨r', hp⟩
  · obtain ⟨r, -, -, hp, -⟩ := exists_of_scheduled hs
    exact ⟨r, hp⟩

/-- **What is reported is the record of the reporting line.** -/
theorem reports_iff_line {r : ExecResult} :
    Reports c item lines r ↔
      ∃ line, ReportingLine c item lines line ∧
        ∃ r', c.parse item line = .ok (some r') ∧ c.stamp r' = r := by
  constructor
  · intro h
    induction h with
    | @complete line lines r hc =>
        obtain ⟨r', hp, -, hr⟩ := complete_eq_some.mp hc
        exact ⟨line, ⟨[], lines, rfl, by simp, Or.inl (by simp [hc])⟩, r', hp, hr⟩
    | @last line r hs hp => exact ⟨line, ⟨[], [], rfl, by simp, Or.inr ⟨hs, rfl⟩⟩, r, hp, rfl⟩
    | @later first lines r hs _ ih =>
        obtain ⟨line, ⟨before, after, rfl, hbefore, hline⟩, hr⟩ := ih
        exact ⟨line, ⟨first :: before, after, rfl, List.forall_mem_cons.mpr ⟨hs, hbefore⟩, hline⟩,
          hr⟩
  · rintro ⟨line, ⟨before, after, rfl, hbefore, hline⟩, r', hp, rfl⟩
    induction before with
    | nil =>
        rcases hline with hc | ⟨hs, rfl⟩
        · obtain ⟨r, hc⟩ := Option.ne_none_iff_exists'.mp hc
          obtain ⟨r'', hp', -, rfl⟩ := complete_eq_some.mp hc
          obtain rfl : r' = r'' := Option.some_inj.mp (Except.ok.inj (hp.symm.trans hp'))
          exact .complete hc
        · exact .last hs hp
    | cons first before ih =>
        rw [List.forall_mem_cons] at hbefore
        exact .later hbefore.1 (ih hbefore.2)

/-- **The result of the loop** is what the lines report; where there are none, the
result it came with. -/
theorem lineLoop_result {r : ExecResult} (lines : List Str) :
    ∀ (stack : List ExecItem) (er : Option ExecResult),
      (lineLoop c item stack er lines).ending = .result r ↔
        Reports c item lines r ∨ (er.map c.stamp = some r ∧ lines = []) := by
  -- the last result is only returned when no line is left, so it is generalised
  induction lines with
  | nil =>
      intro stack er
      have hnone : ¬ Reports c item [] r := by rintro ⟨⟩
      cases er with
      | none => simp [lineLoop, RunEnd.ofResult, hnone]
      | some r' => simp [lineLoop, RunEnd.ofResult, hnone, ExecCtx.stamp]
  | cons line lines ih =>
      intro stack er
      rcases line_cases c item line with ⟨r', hc⟩ | hs | ⟨hc, hs⟩
      · rw [lineLoop_complete hc, reports_complete_iff hc]
        simp
      · obtain ⟨r', hp, hloop⟩ := lineLoop_scheduled hs er
        rw [hloop, ih, reports_scheduled_iff hs hp]
        simp
      · obtain ⟨e, hloop, he, -⟩ := lineLoop_stop hc hs er
        have hno : ¬ Reports c item (line :: lines) r := not_reports_of_stop hc hs
        rw [hloop]
        simp [he r, hno]

/-- **The loop goes through NULL** exactly when it reads a malformed line. -/
theorem lineLoop_nullFault (lines : List Str) :
    ∀ (stack : List ExecItem) (er : Option ExecResult),
      (lineLoop c item stack er lines).ending.NullFault ↔ ReadsMalformed c item lines := by
  induction lines with
  | nil =>
      intro stack er
      have hnone : ¬ ReadsMalformed c item [] := by rintro ⟨⟩
      cases er <;> simp [lineLoop, RunEnd.ofResult, RunEnd.NullFault, hnone]
  | cons line lines ih =>
      intro stack er
      have hcons : ReadsMalformed c item (line :: lines) ↔
          Malformed line ∨ (c.scheduled item line ≠ [] ∧ ReadsMalformed c item lines) := by
        constructor
        · rintro (h | ⟨hs, h⟩)
          · exact Or.inl h
          · exact Or.inr ⟨hs, h⟩
        · rintro (h | ⟨hs, h⟩)
          · exact .here h
          · exact .later hs h
      rw [hcons]
      rcases line_cases c item line with ⟨r', hc⟩ | hs | ⟨hc, hs⟩
      · have hm : ¬ Malformed line := fun hm => by simp [complete_of_malformed hm] at hc
        rw [lineLoop_complete hc]
        simp [RunEnd.NullFault, hm, scheduled_of_complete hc]
      · have hm : ¬ Malformed line := fun hm => hs (scheduled_of_malformed hm)
        obtain ⟨r', -, hloop⟩ := lineLoop_scheduled hs er
        rw [hloop, ih]
        simp [hm, hs]
      · obtain ⟨e, hloop, -, he⟩ := lineLoop_stop hc hs er
        rw [hloop]
        simp [he, hs]

/-- **The stack the loop leaves**: what the lines read push, on top of what was there. -/
theorem lineLoop_stack (lines : List Str) :
    ∀ (stack : List ExecItem) (er : Option ExecResult),
      (lineLoop c item stack er lines).stack = (c.pushed item lines).reverse ++ stack := by
  induction lines with
  | nil => intro stack er; rfl
  | cons line lines ih =>
      intro stack er
      unfold ExecCtx.pushed
      rw [List.takeWhile_cons]
      rcases line_cases c item line with ⟨r', hc⟩ | hs | ⟨hc, hs⟩
      · rw [lineLoop_complete hc]
        simp [scheduled_of_complete hc]
      · obtain ⟨r', -, hloop⟩ := lineLoop_scheduled hs er
        rw [hloop, ih]
        simp [hs, ExecCtx.pushed]
      · obtain ⟨e, hloop, -⟩ := lineLoop_stop hc hs er
        rw [hloop]
        simp [hs]

/-! ## Does every record count? -/

/-- What `exec_trap` hands to `do_output`. -/
def RunEnd.outputs : RunEnd → List ExecResult
  | .result r => [r]
  | _ => []

theorem RunEnd.outputs_of_no_result {e : RunEnd} (h : ∀ r, e ≠ .result r) : e.outputs = [] := by
  cases e with
  | result r => exact absurd rfl (h r)
  | fault f => rfl
  | null => rfl

/-- **One result per record**: every complete line is handed to `do_output` once, and
what every other line asks for is pushed once. -/
def EveryRecordCounts (c : ExecCtx) (item : ExecItem) (lines : List Str) (stack : List ExecItem)
    (run : LineLoop) : Prop :=
  (run.ending.outputs.filter ExecResult.is_complete).Perm (lines.filterMap (c.complete item)) ∧
    run.stack.Perm (lines.flatMap (c.scheduled item) ++ stack)

/-- Behind a line that schedules nothing there is neither a complete line nor one that
schedules something. -/
def NothingBehindStop (c : ExecCtx) (item : ExecItem) (lines : List Str) : Prop :=
  lines.Pairwise fun line later =>
    c.scheduled item line ≠ [] ∨ (c.complete item later = none ∧ c.scheduled item later = [])

theorem is_complete_of_complete {r : ExecResult} (h : c.complete item line = some r) :
    r.is_complete = true := by
  obtain ⟨r', -, hcomplete, rfl⟩ := complete_eq_some.mp h
  exact hcomplete

theorem is_complete_of_scheduled {r : ExecResult} (hs : c.scheduled item line ≠ [])
    (hp : c.parse item line = .ok (some r)) : r.is_complete = false := by
  obtain ⟨r', -, -, hp', hcomplete, -⟩ := exists_of_scheduled hs
  obtain rfl : r = r' := Option.some_inj.mp (Except.ok.inj (hp.symm.trans hp'))
  exact hcomplete

theorem complete_of_scheduled (hs : c.scheduled item line ≠ []) : c.complete item line = none := by
  cases hc : c.complete item line with
  | none => rfl
  | some r => exact absurd (scheduled_of_complete hc) hs

/-- Where the loop stops, every record counts when none is left. -/
theorem everyRecordCounts_stop_iff {e : RunEnd} (first : List ExecResult)
    (hfirst : e.outputs.filter ExecResult.is_complete = first) (lines : List Str)
    (stack : List ExecItem) :
    ((e.outputs.filter ExecResult.is_complete).Perm
          (first ++ lines.filterMap (c.complete item)) ∧
        stack.Perm (lines.flatMap (c.scheduled item) ++ stack))
      ↔ ∀ later ∈ lines, c.complete item later = none ∧ c.scheduled item later = [] := by
  rw [hfirst]
  constructor
  · rintro ⟨houtputs, hstack⟩ later hlater
    have hcomplete : lines.filterMap (c.complete item) = [] := by
      have := houtputs.length_eq
      rw [List.length_append] at this
      exact List.length_eq_zero_iff.mp (by omega)
    have hscheduled : lines.flatMap (c.scheduled item) = [] := by
      have := hstack.length_eq
      rw [List.length_append] at this
      exact List.length_eq_zero_iff.mp (by omega)
    exact ⟨List.filterMap_eq_nil_iff.mp hcomplete later hlater,
      List.flatMap_eq_nil_iff.mp hscheduled later hlater⟩
  · intro h
    rw [List.filterMap_eq_nil_iff.mpr fun m hm => (h m hm).1,
      List.flatMap_eq_nil_iff.mpr fun m hm => (h m hm).2, List.append_nil, List.nil_append]
    exact ⟨List.Perm.refl _, List.Perm.refl _⟩

/-- Where the loop stops at a line that schedules nothing, nothing behind it counts. -/
theorem nothingBehindStop_cons_iff (hs : c.scheduled item line = []) :
    NothingBehindStop c item (line :: lines) ↔
      ∀ later ∈ lines, c.complete item later = none ∧ c.scheduled item later = [] := by
  unfold NothingBehindStop
  rw [List.pairwise_cons]
  constructor
  · rintro ⟨h, -⟩ later hlater
    exact (h later hlater).resolve_left fun h' => h' hs
  · intro h
    exact ⟨fun later hlater => Or.inr (h later hlater),
      List.pairwise_of_forall_mem_list fun _ _ m hm => Or.inr (h m hm)⟩

/-- **When every record counts**, for the loop from any point on. -/
theorem lineLoop_records (lines : List Str) :
    ∀ (stack : List ExecItem) (er : Option ExecResult), (∀ r ∈ er, r.is_complete = false) →
      (EveryRecordCounts c item lines stack (lineLoop c item stack er lines)
        ↔ NothingBehindStop c item lines) := by
  induction lines with
  | nil =>
      intro stack er her
      have houtputs : (lineLoop c item stack er []).ending.outputs.filter
          ExecResult.is_complete = [] := by
        cases er with
        | none => rfl
        | some r => simp [lineLoop, RunEnd.ofResult, RunEnd.outputs, her r rfl]
      refine iff_of_true ⟨?_, List.Perm.refl _⟩ List.Pairwise.nil
      rw [houtputs]
      exact List.Perm.refl _
  | cons line lines ih =>
      intro stack er her
      unfold EveryRecordCounts
      rw [List.filterMap_cons, List.flatMap_cons]
      rcases line_cases c item line with ⟨r, hc⟩ | hs | ⟨hc, hs⟩
      · have hs := scheduled_of_complete hc
        rw [lineLoop_complete hc, hc, hs, nothingBehindStop_cons_iff hs]
        exact everyRecordCounts_stop_iff [r]
          (by simp [RunEnd.outputs, is_complete_of_complete hc]) lines stack
      · obtain ⟨r, hp, hloop⟩ := lineLoop_scheduled hs er
        have hpairs :
            NothingBehindStop c item (line :: lines) ↔ NothingBehindStop c item lines := by
          unfold NothingBehindStop
          rw [List.pairwise_cons]
          exact and_iff_right fun _ _ => Or.inl hs
        -- the items of a line lie in reverse on the stack
        have hstack : (lines.flatMap (c.scheduled item)
              ++ ((c.scheduled item line).reverse ++ stack)).Perm
            (c.scheduled item line ++ lines.flatMap (c.scheduled item) ++ stack) := by
          rw [← List.append_assoc]
          exact (List.perm_append_comm.trans
            ((List.reverse_perm _).append_right _)).append_right stack
        have hih := ih ((c.scheduled item line).reverse ++ stack) (some r) (by
          rintro r' ⟨⟩
          exact is_complete_of_scheduled hs hp)
        rw [hloop, complete_of_scheduled hs, hpairs, ← hih]
        unfold EveryRecordCounts
        exact and_congr_right fun _ => ⟨fun h => h.trans hstack.symm, fun h => h.trans hstack⟩
      · obtain ⟨e, hloop, he, -⟩ := lineLoop_stop hc hs er
        rw [hloop, hc, hs, nothingBehindStop_cons_iff hs]
        exact everyRecordCounts_stop_iff []
          (by simp [RunEnd.outputs_of_no_result he]) lines stack

/-- **When every record of a plugin's output counts**: exactly when behind a line that
schedules nothing there is neither a complete line nor one that schedules something. -/
theorem lineLoop_records_iff (c : ExecCtx) (item : ExecItem) (lines : List Str)
    (stack : List ExecItem) :
    EveryRecordCounts c item lines stack (lineLoop c item stack none lines)
      ↔ NothingBehindStop c item lines :=
  lineLoop_records lines stack none (by simp)

/-- A trap for the command of two hosts `h` and `k` (`twoAddresses`). -/
def twoHostsCtx : ExecCtx where
  db := daemonDb HashTable.empty twoAddresses
  plugin := fun _ _ => []
  stack_max_executions := 10
  command := none
  cmd_id := 1
  use_sender_address := false
  sender_address := some ['s']
  trap_contents := some ['o', '=', '"', 'v', '"']
  trap_timestamp := 1

/-- The plugin of a command, before any host is known. -/
def templateItem : ExecItem := ⟨some ['p'], .maybe, none, none⟩

example : initialStack twoHostsCtx.db none 1 false (some ['s']) = .ok (some [templateItem]) := by
  decide

/-- Of two complete lines the second is dropped. -/
theorem lineLoop_not_records :
    ¬ ∀ (c : ExecCtx) (item : ExecItem) (lines : List Str) (stack : List ExecItem),
        EveryRecordCounts c item lines stack (lineLoop c item stack none lines) := by
  intro h
  have hcount := (h twoHostsCtx templateItem
    ["|h||0|up||\n".toList, "|k||0|up||\n".toList] []).1.length_eq
  exact absurd hcount (by decide)

end Trapd
