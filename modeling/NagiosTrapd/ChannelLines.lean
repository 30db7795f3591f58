/-
# The lines of the channel, as Nagios reads them

`channel_write` prints a result with `;` between its fields, behind a time and a command
word.  Nagios cuts the fields off again; the last one extends to the end of the line.

* `channel_carries_iff`: the fields that a plugin has printed arrive unchanged exactly when no
  separator stands in a name, the status is an `int`, the plugin printed an output, and no
  carriage return stands in the fields.
-/
import NagiosTrapd.Channel
import NagiosTrapd.ExecStatus

namespace Trapd

open Words FileLocks

/-! ## Reading a line -/

/-- A check result as Nagios reads it. -/
structure NagiosCheck where
  is_service : Bool
  host_name : Str
  svc_desc : Option Str
  return_code : ℤ
  plugin_output : Str
  deriving DecidableEq, Repr

/-- The fields behind the command word. -/
def readCheck (command fields : Str) : Option NagiosCheck :=
  if command = "PROCESS_HOST_CHECK_RESULT".toList then
    match cuts ';' 2 fields with
    | [host_name, return_code, plugin_output] =>
        some ⟨false, host_name, none, atoi return_code, plugin_output⟩
    | _ => none
  else if command = "PROCESS_SERVICE_CHECK_RESULT".toList then
    match cuts ';' 3 fields with
    | [host_name, svc_desc, return_code, plugin_output] =>
        some ⟨true, host_name, some svc_desc, atoi return_code, plugin_output⟩
    | _ => none
  else none

/-- The text behind the time of a line, up to its end. -/
def entryOf (line : Str) : Str := ((line.takeWhile (· ≠ '\n')).dropWhile (· ≠ ' ')).drop 1

/-- A line of the channel. -/
def readLine (line : Str) : Option NagiosCheck :=
  match cuts ';' 1 (entryOf line) with
  | [command, fields] => readCheck command fields
  | _ => none

/-- The texts that are written to the channel. -/
def writtenLines (ops : List (Op LockedFile Str)) : List Str :=
  ops.filterMap fun op =>
    match op with
    | .write .channel text => some text
    | _ => none

/-- The call of `channel_write` that `do_output` makes. -/
def ChannelWrite.ops (channel_is_daemon : Bool) (timestamp : ℕ) (w : ChannelWrite) :
    List (Op LockedFile Str) :=
  channelWrite channel_is_daemon timestamp w.host_name w.svc_desc w.return_code w.plugin_output
    w.perfdata w.is_service

theorem printed_some (s : Str) : printed (some s) = s := rfl

/-- The fields of a line behind its command word. -/
def ChannelWrite.fields (w : ChannelWrite) : Str :=
  printed w.host_name ++ ';' ::
    ((if w.is_service then printed w.svc_desc ++ [';'] else []) ++ (decimal w.return_code ++ ';' ::
      (printed w.plugin_output
        ++ if isEmpty w.perfdata then [] else " | ".toList ++ printed w.perfdata)))

/-- The command word of a line. -/
def ChannelWrite.command (w : ChannelWrite) : Str :=
  if w.is_service then "PROCESS_SERVICE_CHECK_RESULT".toList
  else "PROCESS_HOST_CHECK_RESULT".toList

/-- The line of a call, with its time. -/
def ChannelWrite.line (w : ChannelWrite) (timestamp : ℕ) : Str :=
  ('[' :: decimal timestamp ++ [']']) ++ ' ' :: ((w.command ++ ';' :: w.fields) ++ ['\n'])

/-- This line is written. -/
theorem writtenLines_ops {w : ChannelWrite} (hname : isEmpty w.host_name = false)
    (hdesc : w.is_service = true → isEmpty w.svc_desc = false) (channel_is_daemon : Bool)
    (timestamp : ℕ) :
    writtenLines (w.ops channel_is_daemon timestamp) = [w.line timestamp] := by
  obtain ⟨t, host_name, svc_desc, return_code, plugin_output, perfdata, is_service⟩ := w
  unfold ChannelWrite.ops channelWrite
  cases is_service with
  | false =>
      rw [if_neg (by simpa using hname), if_neg (by simp)]
      cases channel_is_daemon <;>
        simp [writtenLines, getFileLock, flockfile, funlockfile, releaseFileLock,
          channelProcessHostCheckResult, checkResult, ChannelWrite.line, ChannelWrite.fields,
          ChannelWrite.command]
  | true =>
      rw [if_neg (by simpa using hname), if_neg (by simpa using hdesc)]
      cases channel_is_daemon <;>
        simp [writtenLines, getFileLock, flockfile, funlockfile, releaseFileLock,
          channelProcessSvcCheckResult, checkResult, ChannelWrite.line, ChannelWrite.fields,
          ChannelWrite.command]

/-! ## What is read -/

/-- A text that is one field: no separator and no end of line. -/
def IsField (s : Str) : Prop := ';' ∉ s ∧ '\n' ∉ s

instance (s : Str) : Decidable (IsField s) := inferInstanceAs (Decidable (_ ∧ _))

/-- The entry of a line that has no other end. -/
theorem entryOf_eq {head body : Str} (hblank : ' ' ∉ head) (hhead : '\n' ∉ head)
    (hbody : '\n' ∉ body) : entryOf (head ++ ' ' :: (body ++ ['\n'])) = body := by
  have htake : (head ++ ' ' :: (body ++ ['\n'])).takeWhile (· ≠ '\n') = head ++ ' ' :: body := by
    rw [show head ++ ' ' :: (body ++ ['\n']) = (head ++ ' ' :: body) ++ ['\n'] by simp,
      List.takeWhile_append_of_pos, List.takeWhile_cons_of_neg (by simp), List.append_nil]
    intro c hc
    rw [decide_eq_true_iff]
    rintro rfl
    simp only [List.mem_append, List.mem_cons] at hc
    rcases hc with hc | hc | hc
    · exact hhead hc
    · exact absurd hc (by decide)
    · exact hbody hc
  rw [entryOf, htake, List.dropWhile_append_of_pos, List.dropWhile_cons_of_neg (by simp),
    List.drop_one, List.tail_cons]
  intro c hc
  rw [decide_eq_true_iff]
  rintro rfl
  exact hblank hc

/-- The fields are read back when they are fields. -/
theorem readCheck_fields {w : ChannelWrite} {name : Str} (hname : w.host_name = some name)
    (hfield : IsField name) (hdesc : w.is_service = true → ∃ d, w.svc_desc = some d ∧ IsField d) :
    readCheck w.command w.fields = some
      ⟨w.is_service, name, if w.is_service then w.svc_desc else none, atoi (decimal w.return_code),
        printed w.plugin_output
          ++ if isEmpty w.perfdata then [] else " | ".toList ++ printed w.perfdata⟩ := by
  have hcode : ';' ∉ decimal w.return_code := not_mem_decimal (by decide) (by decide)
  unfold readCheck ChannelWrite.command ChannelWrite.fields
  rw [hname]
  cases hs : w.is_service with
  | false =>
      simp only [Bool.false_eq_true, if_false, if_true, List.nil_append, printed_some]
      rw [cuts_append_cons hfield.1, cuts_append_cons hcode, cuts]
  | true =>
      obtain ⟨d, hd, hdfield⟩ := hdesc hs
      rw [if_neg (by decide)]
      simp only [if_true, hd, List.append_assoc, List.singleton_append, printed_some]
      rw [cuts_append_cons hfield.1, cuts_append_cons hdfield.1, cuts_append_cons hcode, cuts]

/-- A text that is one line: its only line feed ends it. -/
def IsLine (text : Str) : Prop := ∃ body, text = body ++ ['\n'] ∧ '\n' ∉ body

/-- The time of a line has neither blanks nor line feeds. -/
theorem not_mem_time {c : Char} (hsign : c ≠ '-') (hopen : c ≠ '[') (hclose : c ≠ ']')
    (hdigit : c.isDigit = false) (timestamp : ℕ) : c ∉ '[' :: decimal timestamp ++ [']'] := by
  simp [not_mem_decimal hsign hdigit, hopen, hclose]

theorem not_mem_command (w : ChannelWrite) : ';' ∉ w.command ∧ '\n' ∉ w.command := by
  unfold ChannelWrite.command
  cases w.is_service <;> decide

/-- It is one line when its fields have no line feed. -/
theorem isLine_line_iff (w : ChannelWrite) (timestamp : ℕ) :
    IsLine (w.line timestamp) ↔ '\n' ∉ w.fields := by
  have htime : '\n' ∉ '[' :: decimal timestamp ++ [']'] :=
    not_mem_time (by decide) (by decide) (by decide) (by decide) timestamp
  have hline : w.line timestamp
      = (('[' :: decimal timestamp ++ [']']) ++ ' ' :: (w.command ++ ';' :: w.fields)) ++ ['\n'] := by
    unfold ChannelWrite.line
    simp only [List.append_assoc, List.cons_append]
  constructor
  · rintro ⟨body, htext, hbody⟩ hmem
    rw [hline] at htext
    obtain rfl := List.append_cancel_right htext
    exact hbody (by simp [hmem])
  · intro hfields
    refine ⟨_, hline, ?_⟩
    simp only [List.mem_append, List.mem_cons, not_or] at htime ⊢
    exact ⟨htime, by decide, (not_mem_command w).2, by decide, hfields⟩

/-- Nagios reads the fields of such a line. -/
theorem readLine_line {w : ChannelWrite} (hfields : '\n' ∉ w.fields) (timestamp : ℕ) :
    readLine (w.line timestamp) = readCheck w.command w.fields := by
  have hentry : '\n' ∉ w.command ++ ';' :: w.fields := by
    simp [(not_mem_command w).2, hfields]
  have htime := not_mem_time (c := '\n') (by decide) (by decide) (by decide) (by decide) timestamp
  have hblank := not_mem_time (c := ' ') (by decide) (by decide) (by decide) (by decide) timestamp
  rw [readLine, ChannelWrite.line, entryOf_eq hblank htime hentry,
    cuts_append_cons (not_mem_command w).1, cuts]

/-- The output as it is printed, with the performance data. -/
def ChannelWrite.outputText (w : ChannelWrite) : Str :=
  printed w.plugin_output ++ if isEmpty w.perfdata then [] else " | ".toList ++ printed w.perfdata

/-- No line feed is printed when none is in the texts. -/
theorem newline_notMem_fields {w : ChannelWrite} {name : Str} (hname : w.host_name = some name)
    (hfield : IsField name) (hdesc : w.is_service = true → ∃ d, w.svc_desc = some d ∧ IsField d)
    (houtput : '\n' ∉ w.outputText) : '\n' ∉ w.fields := by
  have hcode : '\n' ∉ decimal w.return_code := not_mem_decimal (by decide) (by decide)
  have hservice : '\n' ∉ if w.is_service then printed w.svc_desc ++ [';'] else [] := by
    split_ifs with hs
    · obtain ⟨d, hd, hdfield⟩ := hdesc hs
      simp [hd, printed_some, hdfield.2]
    · simp
  unfold ChannelWrite.outputText at houtput
  simp only [ChannelWrite.fields, hname, printed_some, List.mem_append, List.mem_cons, not_or]
    at houtput ⊢
  exact ⟨hfield.2, by decide, hservice, hcode, by decide, houtput⟩

/-- The kind of check that is read is that of the call. -/
theorem is_service_of_readCheck {w : ChannelWrite} {check : NagiosCheck}
    (h : readCheck w.command w.fields = some check) : check.is_service = w.is_service := by
  unfold readCheck ChannelWrite.command at h
  cases hs : w.is_service with
  | false =>
      simp only [hs, Bool.false_eq_true, if_false, if_true] at h
      split at h
      · exact congrArg NagiosCheck.is_service (Option.some.inj h).symm
      · exact absurd h (by simp)
  | true =>
      simp only [hs, if_true] at h
      rw [if_neg (by decide)] at h
      split at h
      · exact congrArg NagiosCheck.is_service (Option.some.inj h).symm
      · exact absurd h (by simp)

/-- A separator in a name shifts text into the output that is read. -/
theorem output_of_readCheck {w : ChannelWrite} {check : NagiosCheck}
    (h : readCheck w.command w.fields = some check)
    (hsep : ';' ∈ printed w.host_name ∨ w.is_service = true ∧ ';' ∈ printed w.svc_desc) :
    ∃ shifted, ';' ∈ shifted ∧ check.plugin_output = shifted ++ w.outputText := by
  have hsplit : w.fields = (printed w.host_name ++ ';' ::
      ((if w.is_service then printed w.svc_desc ++ [';'] else [])
        ++ (decimal w.return_code ++ [';']))) ++ w.outputText := by
    simp [ChannelWrite.fields, ChannelWrite.outputText]
  have hcount : ∀ {t : Str}, ';' ∈ t → 0 < t.count ';' := List.count_pos_iff.mpr
  unfold readCheck ChannelWrite.command at h
  cases hs : w.is_service with
  | false =>
      simp only [hs, Bool.false_eq_true, if_false, if_true, List.nil_append, false_and,
        or_false] at h hsplit hsep
      split at h
      · next host_name return_code plugin_output hcuts =>
          obtain rfl := Option.some.inj h
          -- there are more separators than fields that are cut off
          have hmore : 2 < (printed w.host_name ++ ';' :: (decimal w.return_code ++ [';'])).count
              ';' := by
            have hname := hcount hsep
            simp only [List.count_append, List.count_cons_self, List.count_nil]
            omega
          rw [hsplit] at hcuts
          exact exists_append_of_cuts [host_name, return_code] rfl hcuts hmore
      · exact absurd h (by simp)
  | true =>
      simp only [hs, if_true, true_and] at h hsplit hsep
      rw [if_neg (by decide)] at h
      split at h
      · next host_name svc_desc return_code plugin_output hcuts =>
          obtain rfl := Option.some.inj h
          have hmore : 3 < (printed w.host_name ++ ';' ::
              (printed w.svc_desc ++ [';'] ++ (decimal w.return_code ++ [';']))).count ';' := by
            simp only [List.count_append, List.count_cons_self, List.count_nil]
            rcases hsep with hsep | hsep <;> have hname := hcount hsep <;> omega
          rw [hsplit] at hcuts
          exact exists_append_of_cuts [host_name, svc_desc, return_code] rfl hcuts hmore
      · exact absurd h (by simp)

/-! ## What arrives -/

theorem printed_xstrdup (s : Str) :
    printed (xstrdup (some s)) = if s = [] then "(null)".toList else s := by
  split_ifs with h
  · rw [h]
    rfl
  · rw [xstrdup_some_of_ne_nil h]
    rfl

/-- The performance data, when there are any. -/
theorem perfdata_printed (perfdata : Str) :
    (if isEmpty (xstrdup (some perfdata)) then []
        else " | ".toList ++ printed (xstrdup (some perfdata)))
      = if perfdata = [] then [] else " | ".toList ++ perfdata := by
  cases perfdata <;> rfl

/-- What arrives of an output is the output, unless it is empty. -/
theorem printed_append_eq_iff {output rest : Str} :
    printed (xstrdup (some output)) ++ rest = output ++ rest ↔ output ≠ [] := by
  rw [List.append_left_inj, printed_xstrdup]
  split_ifs with h
  · subst h
    simp
  · simp [h]

/-- The output of a line with its performance data, as Nagios is to get it. -/
def withPerfdata (output perfdata : Str) : Str :=
  output ++ if perfdata = [] then [] else " | ".toList ++ perfdata

theorem newline_notMem_withPerfdata {output perfdata : Str} (houtput : '\n' ∉ output)
    (hperfdata : '\n' ∉ perfdata) : '\n' ∉ withPerfdata output perfdata := by
  unfold withPerfdata
  split_ifs
  · simpa using houtput
  · simp [houtput, hperfdata]

/-- The check that a line with these fields is to arrive as; there is none for a status that is
no number. -/
def expectedCheck (service : Bool) (name desc status output perfdata : Str) :
    Option NagiosCheck :=
  if isInteger (some status) then
    some ⟨service, name, if service then some desc else none, digitsValue status,
      withPerfdata output perfdata⟩
  else none

/-- One line is written, and Nagios reads it as the check that is expected. -/
def Carries (lines : List Str) (expected : Option NagiosCheck) : Prop :=
  ∃ text check, lines = [text] ∧ IsLine text ∧ readLine text = some check ∧ expected = some check

/-- A call of `channel_write` with these names and these fields of a line. -/
structure Sends (w : ChannelWrite) (service : Bool) (name desc status output perfdata : Str) :
    Prop where
  is_service : w.is_service = service
  host_name : w.host_name = some name
  name_ne_nil : isEmpty w.host_name = false
  svc_desc : service = true → w.svc_desc = some desc
  desc_ne_nil : w.is_service = true → isEmpty w.svc_desc = false
  return_code : w.return_code = atoi status
  plugin_output : w.plugin_output = xstrdup (some output)
  perfdata : w.perfdata = xstrdup (some perfdata)

/-- What `do_output` sends of a line. -/
theorem sends_of_doOutput
    {host_address host_name svc_desc status output perfdata svc_id : Str} {db : Db}
    {is_service : IsService} {host svc : Option ℕ} {u : Bool} {r : ExecResult}
    (hdigits : isInteger (some status) = true)
    (hr : makeResult db is_service host svc u ⟨some host_address, some host_name, some svc_desc,
      some status, some output, some perfdata, some svc_id⟩ status svc_id = r)
    {t : Slot ℕ} {w : ChannelWrite} (hout : doOutput db { r with timestamp := t } = .ok (some w)) :
    Sends w (chooseService is_service (some svc_desc))
      (nameOf db host svc (chooseService is_service (some svc_desc)) host_name)
      (descOf db svc svc_desc) status output perfdata := by
  obtain ⟨⟨hname, hdesc, -⟩, rfl⟩ := doOutput_eq_some.mp hout
  obtain ⟨hchosen, hwname, hwdesc⟩ := makeResult_names hdigits hr
  rw [hchosen] at hwname hwdesc
  have hcode : r.ret_value = atoi status := by
    rw [← hr]
    exact fillResult_ret_value ..
  have hplugin : r.output = xstrdup (some output) := by
    rw [← hr]
    exact fillResult_output ..
  have hperfdata : r.perfdata = xstrdup (some perfdata) := by
    rw [← hr]
    exact fillResult_perfdata ..
  refine ⟨hchosen, some_of_getD hname hwname, hname, fun hs => ?_, hdesc, hcode, hplugin, hperfdata⟩
  exact some_of_getD (hdesc (hchosen.trans hs)) (hwdesc.trans (if_pos hs))

/-- The output of such a call. -/
theorem Sends.outputText_eq {w : ChannelWrite} {service : Bool}
    {name desc status output perfdata : Str}
    (h : Sends w service name desc status output perfdata) :
    w.outputText = printed (xstrdup (some output))
      ++ if perfdata = [] then [] else " | ".toList ++ perfdata := by
  rw [ChannelWrite.outputText, h.plugin_output, h.perfdata, perfdata_printed]

/-- What is written of a call is one line, and Nagios reads its fields. -/
theorem Sends.carries_iff {w : ChannelWrite} {service : Bool}
    {name desc status output perfdata : Str}
    (h : Sends w service name desc status output perfdata) (expected : Option NagiosCheck)
    (channel_is_daemon : Bool) (timestamp : ℕ) :
    Carries (writtenLines (w.ops channel_is_daemon timestamp)) expected ↔
      '\n' ∉ w.fields ∧ ∃ check, readCheck w.command w.fields = some check ∧
        expected = some check := by
  rw [writtenLines_ops h.name_ne_nil h.desc_ne_nil]
  constructor
  · rintro ⟨text, check, htext, hline, hread, hexpected⟩
    obtain rfl := List.singleton_inj.mp htext
    have hfields := (isLine_line_iff w timestamp).mp hline
    exact ⟨hfields, check, (readLine_line hfields timestamp).symm.trans hread, hexpected⟩
  · rintro ⟨hfields, check, hread, hexpected⟩
    exact ⟨_, check, rfl, (isLine_line_iff w timestamp).mpr hfields,
      (readLine_line hfields timestamp).trans hread, hexpected⟩

/-- Where the names are fields, all parts are read back. -/
theorem Sends.readCheck_eq {w : ChannelWrite} {service : Bool}
    {name desc status output perfdata : Str}
    (h : Sends w service name desc status output perfdata) (hname : IsField name)
    (hdesc : service = true → IsField desc) :
    readCheck w.command w.fields = some
      ⟨service, name, if service then some desc else none, atoi status, w.outputText⟩ := by
  have hfield : w.is_service = true → ∃ d, w.svc_desc = some d ∧ IsField d := fun hs =>
    ⟨desc, h.svc_desc (h.is_service ▸ hs), hdesc (h.is_service ▸ hs)⟩
  have hbounds := atoi_bounds status
  have hd : (if w.is_service then w.svc_desc else none) = if service then some desc else none := by
    rw [h.is_service]
    split_ifs with hs
    · exact h.svc_desc hs
    · rfl
  rw [readCheck_fields h.host_name hname hfield, hd, h.is_service, h.return_code,
    atoi_decimal hbounds.1 hbounds.2]
  rfl

/-- The names of a line that is read as it was printed have neither separators nor line feeds. -/
theorem Sends.isField {w : ChannelWrite} {service : Bool} {name desc status output perfdata : Str}
    (h : Sends w service name desc status output perfdata) (hline : '\n' ∉ w.fields)
    (hsep : ¬ (';' ∈ printed w.host_name ∨ w.is_service = true ∧ ';' ∈ printed w.svc_desc)) :
    IsField name ∧ (service = true → IsField desc) := by
  simp only [not_or, not_and] at hsep
  rw [h.host_name, h.is_service] at hsep
  simp only [ChannelWrite.fields, h.host_name, printed_some, List.mem_append, List.mem_cons,
    not_or] at hline
  refine ⟨⟨hsep.1, hline.1⟩, fun hs => ?_⟩
  have hnewline := hline.2.2.1
  have hseparator := hsep.2 hs
  rw [if_pos (h.is_service.trans hs), h.svc_desc hs, List.mem_append, not_or] at hnewline
  rw [h.svc_desc hs] at hseparator
  exact ⟨hseparator, hnewline.1⟩

/-! ## Fields with carriage returns -/

/-- The stored host name that an empty field is filled with. -/
def storedName (db : Db) (host svc : Option ℕ) (service : Bool) : Str :=
  if service then (dbExtractHostName db none svc).getD []
  else (dbExtractHostName db host none).getD []

/-- A printed field is what is written for it: nothing is taken out of it, or all of it is, and
what is stored in its place is the same text. -/
def Arrives (field stored : Str) : Prop :=
  IsOneLine field ∨ withoutEnds field = [] ∧ stored = field

instance (field stored : Str) : Decidable (Arrives field stored) :=
  inferInstanceAs (Decidable (_ ∨ _ ∧ _))

theorem arrives_iff {field stored : Str} :
    (if withoutEnds field ≠ [] then withoutEnds field else stored)
        = (if field ≠ [] then field else stored) ↔ Arrives field stored := by
  unfold Arrives
  by_cases hline : IsOneLine field
  · simp [withoutEnds_eq_self_iff.mpr hline, hline]
  · have hne : field ≠ [] := by
      rintro rfl
      exact hline (by decide)
    have hchanged : withoutEnds field ≠ field := fun h => hline (withoutEnds_eq_self_iff.mp h)
    by_cases hread : withoutEnds field = []
    · simp [hline, hne, hread]
    · simp [hline, hne, hread, hchanged]

theorem nameOf_withoutEnds_iff {db : Db} {host svc : Option ℕ} {service : Bool}
    {host_name : Str} :
    nameOf db host svc service (withoutEnds host_name) = nameOf db host svc service host_name ↔
      Arrives host_name (storedName db host svc service) := arrives_iff

theorem descOf_withoutEnds_iff {db : Db} {svc : Option ℕ} {svc_desc : Str} :
    descOf db svc (withoutEnds svc_desc) = descOf db svc svc_desc ↔
      Arrives svc_desc ((dbExtractSvcDesc db svc).getD []) := arrives_iff

/-- A plugin chooses as it has printed, unless carriage returns are all it has printed. -/
theorem chooseService_withoutEnds_iff {is_service : IsService} {svc_desc : Str} :
    chooseService is_service (some (withoutEnds svc_desc))
        = chooseService is_service (some svc_desc) ↔
      (is_service = .maybe → svc_desc ≠ [] → withoutEnds svc_desc ≠ []) := by
  cases is_service with
  | no => simp [chooseService]
  | yes => simp [chooseService]
  | maybe =>
      cases svc_desc with
      | nil => simp [chooseService]
      | cons c s => cases hread : withoutEnds (c :: s) <;> simp [chooseService]

/-- Text with a separator in front of what is written is not what was printed. -/
theorem withPerfdata_ne {output perfdata shifted : Str} (hsep : ';' ∈ shifted) :
    withPerfdata output perfdata ≠ shifted ++ (printed (xstrdup (some (withoutEnds output)))
      ++ if withoutEnds perfdata = [] then [] else " | ".toList ++ withoutEnds perfdata) := by
  intro heq
  have hprinted : (withoutEnds output).length
      ≤ (printed (xstrdup (some (withoutEnds output)))).length := by
    rw [printed_xstrdup]
    split_ifs with hnil
    · simp [hnil]
    · exact le_rfl
  have hline : IsOneLine (printed (xstrdup (some (withoutEnds output)))) := by
    rw [printed_xstrdup]
    split_ifs
    · decide
    · exact isOneLine_withoutEnds output
  have hshifted : 0 < (withoutEnds shifted).length :=
    List.length_pos_of_mem (List.mem_filter.mpr ⟨hsep, by decide⟩)
  by_cases hends : perfdata ≠ [] ∧ withoutEnds perfdata = []
  · -- the text that was printed ends in a carriage return, the other one does not
    obtain ⟨c, hlast⟩ := Option.ne_none_iff_exists'.mp (mt List.getLast?_eq_none_iff.mp hends.1)
    have hleft : (withPerfdata output perfdata).getLast? = some c := by
      simp [withPerfdata, hends.1, List.getLast?_cons, hlast]
    have hend : c ∈ printed (xstrdup (some (withoutEnds output))) := by
      rw [heq, if_pos hends.2, List.append_nil, List.getLast?_append] at hleft
      have hne : printed (xstrdup (some (withoutEnds output))) ≠ [] := by
        rw [printed_xstrdup]
        split_ifs with hnil
        · decide
        · exact hnil
      obtain ⟨d, hd⟩ := Option.ne_none_iff_exists'.mp (mt List.getLast?_eq_none_iff.mp hne)
      rw [hd, Option.some_or, Option.some_inj] at hleft
      exact hleft ▸ List.mem_of_getLast? hd
    have hkept : c ∈ withoutEnds perfdata := by
      refine List.mem_filter.mpr ⟨List.mem_of_getLast? hlast, ?_⟩
      simpa using ⟨ne_of_mem_of_not_mem hend hline.1, ne_of_mem_of_not_mem hend hline.2⟩
    rw [hends.2] at hkept
    exact absurd hkept List.not_mem_nil
  -- without ends of lines the text that is written is longer
  · have hlengths := congrArg (fun s => (withoutEnds s).length) heq
    simp only [withPerfdata, withoutEnds_append, List.length_append,
      withoutEnds_eq_self_iff.mpr hline] at hlengths
    by_cases hnone : perfdata = []
    · simp only [hnone, withoutEnds_nil, if_true, List.length_nil] at hlengths
      omega
    · have hsome : withoutEnds perfdata ≠ [] := fun h => hends ⟨hnone, h⟩
      have htwice : withoutEnds (withoutEnds perfdata) = withoutEnds perfdata :=
        withoutEnds_eq_self_iff.mpr (isOneLine_withoutEnds perfdata)
      simp only [if_neg hnone, if_neg hsome, withoutEnds_append, List.length_append, htwice]
        at hlengths
      omega

/-- What is written of an output is what was printed: nothing is taken out, and the output is
not empty. -/
theorem withPerfdata_eq_iff {output perfdata : Str} :
    (printed (xstrdup (some (withoutEnds output)))
        ++ if withoutEnds perfdata = [] then [] else " | ".toList ++ withoutEnds perfdata)
      = withPerfdata output perfdata ↔ (IsOneLine output ∧ output ≠ []) ∧ IsOneLine perfdata := by
  constructor
  · intro heq
    have hwritten : IsOneLine (printed (xstrdup (some (withoutEnds output)))
        ++ if withoutEnds perfdata = [] then [] else " | ".toList ++ withoutEnds perfdata) := by
      have hoptional : IsOneLine
          (if withoutEnds perfdata = [] then [] else " | ".toList ++ withoutEnds perfdata) := by
        split_ifs
        · decide
        · exact isOneLine_append.mpr ⟨by decide, isOneLine_withoutEnds perfdata⟩
      refine isOneLine_append.mpr ⟨?_, hoptional⟩
      rw [printed_xstrdup]
      split_ifs
      · decide
      · exact isOneLine_withoutEnds output
    rw [heq, withPerfdata, isOneLine_append] at hwritten
    have hperfdata : IsOneLine perfdata := by
      by_cases hnone : perfdata = []
      · rw [hnone]
        decide
      · rw [if_neg hnone, isOneLine_append] at hwritten
        exact hwritten.2.2
    rw [withoutEnds_eq_self_iff.mpr hwritten.1, withoutEnds_eq_self_iff.mpr hperfdata,
      withPerfdata, printed_append_eq_iff] at heq
    exact ⟨⟨hwritten.1, heq⟩, hperfdata⟩
  · rintro ⟨⟨houtput, hne⟩, hperfdata⟩
    rw [withoutEnds_eq_self_iff.mpr houtput, withoutEnds_eq_self_iff.mpr hperfdata]
    exact printed_append_eq_iff.mpr hne

/-! ## What arrives of a line -/

/-- Nothing alters the fields of a line on their way: the names are fields, the status is an
`int`, there is an output, and nothing is taken out of any of them. -/
structure Transparent (db : Db) (is_service : IsService) (host svc : Option ℕ) (service : Bool)
    (host_name svc_desc status output perfdata : Str) : Prop where
  name : IsField (nameOf db host svc service host_name) ∧
    Arrives host_name (storedName db host svc service)
  kind : is_service = .maybe → svc_desc ≠ [] → withoutEnds svc_desc ≠ []
  desc : service = true → IsField (descOf db svc svc_desc) ∧
    Arrives svc_desc ((dbExtractSvcDesc db svc).getD [])
  status : IsOneLine status ∧ digitsValue status < 2 ^ 31
  output : IsOneLine output ∧ output ≠ []
  perfdata : IsOneLine perfdata

/-- A call of `channel_write` for the fields that a plugin has printed: its fields are those that
are read of them. -/
def SendsRead (w : ChannelWrite) (db : Db) (is_service : IsService) (host svc : Option ℕ)
    (host_name svc_desc status output perfdata : Str) : Prop :=
  let service := chooseService is_service (some (withoutEnds svc_desc))
  Sends w service (nameOf db host svc service (withoutEnds host_name))
    (descOf db svc (withoutEnds svc_desc)) (withoutEnds status) (withoutEnds output)
    (withoutEnds perfdata)

/-- What `do_output` sends of the complete result of a printed line. -/
theorem sendsRead_of_doOutput
    {line host_address host_name svc_desc status output perfdata svc_id : Str}
    (hfields : printedFields line
      = [host_address, host_name, svc_desc, status, output, perfdata, svc_id])
    {db : Db} {is_service : IsService} {host svc : Option ℕ} {u : Bool} {r : ExecResult}
    (hparse : parseResultStr db (cString line) is_service host svc u = .ok (some r))
    (hcomplete : r.is_complete = true) {t : Slot ℕ} {w : ChannelWrite}
    (hout : doOutput db { r with timestamp := t } = .ok (some w)) :
    SendsRead w db is_service host svc host_name svc_desc status output perfdata ∧
      isInteger (some (withoutEnds status)) = true := by
  -- the line is read in full, so no NUL stands in front of its last field
  have hnul : ∀ s ∈ [host_address, host_name, svc_desc, status, output, perfdata], '\x00' ∉ s := by
    have hread := (not_malformed_cString_iff (by rw [hfields]; exact le_rfl)).mp
      (not_malformed_of_parse hparse)
    rwa [hfields] at hread
  obtain ⟨rest, hread⟩ := fieldsRead_cString_cons hfields hnul
  rw [parseResultStr_eq hread] at hparse
  have hr := Option.some.inj (Except.ok.inj hparse)
  have hdigits : isInteger (some (withoutEnds status)) = true := by
    rw [← hcomplete, ← hr, makeResult, fillResult_is_complete]
  exact ⟨sends_of_doOutput hdigits hr hout, hdigits⟩

section

variable {w : ChannelWrite} {db : Db} {is_service : IsService} {host svc : Option ℕ}
  {service : Bool} {host_name svc_desc status output perfdata : Str}

/-- A line that is read as the check that is expected is transparent. -/
theorem SendsRead.transparent
    (h : SendsRead w db is_service host svc host_name svc_desc status output perfdata)
    (hservice : chooseService is_service (some svc_desc) = service) (hline : '\n' ∉ w.fields)
    {check : NagiosCheck} (hcheck : readCheck w.command w.fields = some check)
    (hexpected : expectedCheck service (nameOf db host svc service host_name)
      (descOf db svc svc_desc) status output perfdata = some check) :
    Transparent db is_service host svc service host_name svc_desc status output perfdata := by
  -- the status that is expected is a number, so nothing has been taken out of it
  have hinteger : isInteger (some status) = true := by
    by_contra hno
    rw [expectedCheck, if_neg hno] at hexpected
    simp at hexpected
  rw [expectedCheck, if_pos hinteger, Option.some_inj] at hexpected
  subst hexpected
  have hstatus := isOneLine_of_digits (List.all_eq_true.mp hinteger)
  have hkind : chooseService is_service (some (withoutEnds svc_desc)) = service :=
    h.is_service.symm.trans (is_service_of_readCheck hcheck).symm
  have hnames := chooseService_withoutEnds_iff.mp (hkind.trans hservice.symm)
  unfold SendsRead at h
  simp only [hkind] at h
  obtain ⟨hname, hdesc⟩ := h.isField hline fun hsep => by
    obtain ⟨shifted, hmem, houtput⟩ := output_of_readCheck hcheck hsep
    rw [h.outputText_eq] at houtput
    exact withPerfdata_ne hmem houtput
  rw [h.readCheck_eq hname hdesc, h.outputText_eq, Option.some_inj, NagiosCheck.mk.injEq] at hcheck
  obtain ⟨-, hsame, hsamedesc, hcode, houtput⟩ := hcheck
  obtain ⟨houtput, hperfdata⟩ := withPerfdata_eq_iff.mp houtput
  rw [withoutEnds_eq_self_iff.mpr hstatus] at hcode
  refine ⟨⟨hsame ▸ hname, nameOf_withoutEnds_iff.mp hsame⟩, hnames, fun hs => ?_,
    ⟨hstatus, (atoi_eq_digitsValue_iff hinteger).mp hcode⟩, houtput, hperfdata⟩
  rw [if_pos hs, if_pos hs, Option.some_inj] at hsamedesc
  exact ⟨hsamedesc ▸ hdesc hs, descOf_withoutEnds_iff.mp hsamedesc⟩

/-- A transparent line is read as the check that is expected. -/
theorem SendsRead.readCheck_eq
    (h : SendsRead w db is_service host svc host_name svc_desc status output perfdata)
    (hdigits : isInteger (some (withoutEnds status)) = true)
    (hservice : chooseService is_service (some svc_desc) = service)
    (ht : Transparent db is_service host svc service host_name svc_desc status output perfdata) :
    '\n' ∉ w.fields ∧ ∃ check, readCheck w.command w.fields = some check ∧
      expectedCheck service (nameOf db host svc service host_name) (descOf db svc svc_desc) status
        output perfdata = some check := by
  -- what is read of each field is the field, so the line is written of the printed ones
  have hkind : chooseService is_service (some (withoutEnds svc_desc)) = service :=
    (chooseService_withoutEnds_iff.mpr ht.kind).trans hservice
  have hstatus := withoutEnds_eq_self_iff.mpr ht.status.1
  unfold SendsRead at h
  simp only [hkind, hstatus, nameOf_withoutEnds_iff.mpr ht.name.2] at h
  rw [hstatus] at hdigits
  have hsamedesc : service = true →
      descOf db svc (withoutEnds svc_desc) = descOf db svc svc_desc :=
    fun hs => descOf_withoutEnds_iff.mpr (ht.desc hs).2
  have hdesc : service = true → IsField (descOf db svc (withoutEnds svc_desc)) := fun hs =>
    hsamedesc hs ▸ (ht.desc hs).1
  have houtput : w.outputText = withPerfdata output perfdata :=
    h.outputText_eq.trans (withPerfdata_eq_iff.mpr ⟨ht.output, ht.perfdata⟩)
  have hline : '\n' ∉ w.fields := by
    apply newline_notMem_fields h.host_name ht.name.1
    · intro hs
      have hs' := h.is_service ▸ hs
      exact ⟨_, h.svc_desc hs', hdesc hs'⟩
    · rw [houtput]
      exact newline_notMem_withPerfdata ht.output.1.1 ht.perfdata.1
  refine ⟨hline, _, h.readCheck_eq ht.name.1 hdesc, ?_⟩
  have hsamesvc : (if service then some (descOf db svc (withoutEnds svc_desc)) else none)
      = if service then some (descOf db svc svc_desc) else none := by
    split_ifs with hs
    · rw [hsamedesc hs]
    · rfl
  rw [expectedCheck, if_pos hdigits, hsamesvc, houtput,
    (atoi_eq_digitsValue_iff hdigits).mpr ht.status.2]

end

/-- **The fields that a plugin has printed arrive unchanged** exactly when the line is
transparent for them. -/
theorem channel_carries_iff
    {line host_address host_name svc_desc status output perfdata svc_id : Str}
    (hfields : printedFields line
      = [host_address, host_name, svc_desc, status, output, perfdata, svc_id])
    {db : Db} {is_service : IsService} {host svc : Option ℕ} {u : Bool} {r : ExecResult}
    (hparse : parseResultStr db (cString line) is_service host svc u = .ok (some r))
    (hcomplete : r.is_complete = true) {t : Slot ℕ} {w : ChannelWrite}
    (hout : doOutput db { r with timestamp := t } = .ok (some w)) {service : Bool}
    (hservice : chooseService is_service (some svc_desc) = service) (channel_is_daemon : Bool)
    (timestamp : ℕ) :
    Carries (writtenLines (w.ops channel_is_daemon timestamp))
        (expectedCheck service (nameOf db host svc service host_name)
          (descOf db svc svc_desc) status output perfdata) ↔
      Transparent db is_service host svc service host_name svc_desc status output perfdata := by
  obtain ⟨hsends, hdigits⟩ := sendsRead_of_doOutput hfields hparse hcomplete hout
  rw [hsends.carries_iff]
  constructor
  · rintro ⟨hline, check, hcheck, hexpected⟩
    exact hsends.transparent hservice hline hcheck hexpected
  · exact hsends.readCheck_eq hdigits hservice

/-- The result of a plugin that reports the host `h` in status 2, with this output. -/
def reportOf (output : Option Str) : ExecResult :=
  ⟨true, false, true, .unset, none, some ['h'], none, 2, output, none, true, 0⟩

theorem channel_carries_down :
    Carries (writtenLines (((reportOf (some "down".toList)).channelWrite).ops true 1))
      (expectedCheck false ['h'] [] ['2'] "down".toList []) := by
  have hfields : printedFields "|h||2|down||\n".toList
      = [[], ['h'], [], ['2'], "down".toList, [], []] := by decide
  have hparse : parseResultStr bareDb (cString "|h||2|down||\n".toList) .no none none true
      = .ok (some (reportOf (some "down".toList))) := by decide
  have hout : doOutput bareDb { reportOf (some "down".toList) with timestamp := .unset }
      = .ok (some (reportOf (some "down".toList)).channelWrite) := by decide
  exact (channel_carries_iff hfields hparse rfl hout rfl true 1).mpr
    ⟨by decide, by decide, by decide, by decide, by decide, by decide⟩

/-- Without output the channel gets a text that the plugin has not printed. -/
theorem not_channel_carries :
    ¬ ∀ (line host_address host_name svc_desc status output perfdata svc_id : Str) (db : Db)
        (is_service : IsService) (host svc : Option ℕ) (u : Bool) (r : ExecResult) (t : Slot ℕ)
        (w : ChannelWrite) (service channel_is_daemon : Bool) (timestamp : ℕ),
      printedFields line = [host_address, host_name, svc_desc, status, output, perfdata, svc_id] →
      parseResultStr db (cString line) is_service host svc u = .ok (some r) →
      r.is_complete = true → doOutput db { r with timestamp := t } = .ok (some w) →
      chooseService is_service (some svc_desc) = service →
      Carries (writtenLines (w.ops channel_is_daemon timestamp))
        (expectedCheck service (nameOf db host svc service host_name)
          (descOf db svc svc_desc) status output perfdata) := by
  intro h
  obtain ⟨text, check, htext, -, hread, hexpected⟩ := h "|h||2|||\n".toList [] ['h'] [] ['2'] [] []
    [] bareDb .no none none true (reportOf none) .unset (reportOf none).channelWrite false true 1
    (by decide) (by decide) rfl (by decide) rfl
  have hline : writtenLines (((reportOf none).channelWrite).ops true 1)
      = ["[1] PROCESS_HOST_CHECK_RESULT;h;2;(null)\n".toList] := by decide
  rw [hline] at htext
  obtain rfl := List.singleton_inj.mp htext
  rw [← hexpected] at hread
  exact absurd hread (by decide)

end Trapd
