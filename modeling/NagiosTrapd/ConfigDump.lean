/-
# The dumped configuration is loaded again

`config_dump` prints every option as a line that assigns its value in double quotes.  A file of
such lines is read back key by key (`iniparser_assign_lines`), and so the table that has been
dumped is loaded again, whatever else there is for PHP to print (`config_dump_load`).
-/
import NagiosTrapd.Config

namespace Trapd

/-! ## A file of lines that assign values -/

variable {before : Char} {lines : List Str}

/-- A line that the reader takes as it is. -/
structure PlainLine (line : Str) : Prop where
  length_lt : line.length + 1 < ASCIILINESZ
  getLast : line.getLast? = some '"'

/-- Plain lines are neither joined nor stripped. -/
theorem joinLines_plain (h : ∀ line ∈ lines, PlainLine line) :
    joinLines before [] (lines ++ [[]]) = some lines := by
  induction lines with
  | nil => rfl
  | cons line lines ih =>
      obtain ⟨hline, hlines⟩ := List.forall_mem_cons.mp h
      have hne : line ≠ [] := by
        rintro rfl
        cases hline.getLast
      have hstrip : line.rdropWhile isspace = line := by
        rw [List.rdropWhile_eq_self_iff]
        intro hne hspace
        have hlast := hline.getLast
        rw [List.getLast?_eq_getLast_of_ne_nil hne] at hlast
        rw [Option.some.inj hlast] at hspace
        exact absurd hspace (by decide)
      have hquote : ¬(some '"').getD before = '\\' := by
        rw [Option.getD_some]
        decide
      have hlen := hline.length_lt
      rw [List.cons_append, joinLines_cons before [] line (by simp), List.nil_append, hstrip,
        hline.getLast, if_neg (by omega), if_neg hne, if_neg hquote, ih hlines]
      rfl

/-- The end of the line is its closing quote. -/
theorem getLast?_assignLine (key val : Str) : (assignLine key val).getLast? = some '"' := by
  rw [assignLine, List.getLast?_append]
  rfl

/-- Lines that assign values set just these values. -/
theorem assignments_assign {pairs : List (Str × Str)} (hkeys : ∀ p ∈ pairs, IsIniKey p.1)
    (hvals : ∀ p ∈ pairs, IsIniValue p.2) :
    assignments [] (pairs.map fun p => assignLine p.1 p.2)
      = pairs.map fun p => (':' :: p.1, some p.2) := by
  induction pairs with
  | nil => rfl
  | cons p pairs ih =>
      obtain ⟨hkey, hkeys⟩ := List.forall_mem_cons.mp hkeys
      obtain ⟨hval, hvals⟩ := List.forall_mem_cons.mp hvals
      rw [List.map_cons, assignments, iniparserLine_assign hkey hval, ih hkeys hvals]
      rfl

/-- A name that is set once. -/
theorem lastValue_of_mem {as : List (Str × Option Str)} (hnodup : (as.map Prod.fst).Nodup)
    {a : Str × Option Str} (ha : a ∈ as) : lastValue a.1 as = some a.2 := by
  induction as with
  | nil => exact absurd ha List.not_mem_nil
  | cons b as ih =>
      rw [List.map_cons, List.nodup_cons] at hnodup
      rw [lastValue]
      rcases List.mem_cons.mp ha with rfl | ha
      · have hnone : ∀ as : List (Str × Option Str), a.1 ∉ as.map Prod.fst →
            lastValue a.1 as = none := by
          intro as hnot
          induction as with
          | nil => rfl
          | cons c as ih =>
              rw [List.map_cons, List.mem_cons, not_or] at hnot
              rw [lastValue, ih hnot.2, if_neg (Ne.symm hnot.1)]
              rfl
        rw [hnone as hnodup.1, if_pos rfl]
        rfl
      · rw [ih hnodup.2 ha]
        rfl

/-- Lines without a syntax error. -/
theorem errorsForgotten_of_ne (h : ∀ line ∈ lines, iniparserLine line [] ≠ .lineError) :
    ErrorsForgotten lines := by
  intro front line behind heq herror
  exact absurd herror (h line (by rw [heq]; simp))

/-- **A file of lines that assign values** is loaded, and every key has its value; the one that is
empty is `NULL`. -/
theorem exists_load_assignLines (before : Char) {pairs : List (Str × Str)}
    (hkeys : ∀ p ∈ pairs, IsIniKey p.1) (hvals : ∀ p ∈ pairs, IsIniValue p.2)
    (hfits : ∀ p ∈ pairs, (assignLine p.1 p.2).length + 1 < ASCIILINESZ)
    (hnodup : (pairs.map Prod.fst).Nodup) :
    ∃ d, iniparserLoad before (some (pairs.flatMap fun p => assignLine p.1 p.2 ++ ['\n']))
        = .dict d ∧
      ∀ p ∈ pairs, ∀ default,
        iniparserGetstring d (':' :: p.1) default = xstrdup (some p.2) := by
  -- no line is joined with the next one
  have hplain : ∀ line ∈ pairs.map fun p => assignLine p.1 p.2, PlainLine line := by
    intro line hline
    obtain ⟨p, hp, rfl⟩ := List.mem_map.mp hline
    exact ⟨hfits p hp, getLast?_assignLine p.1 p.2⟩
  have hnewline : ∀ line ∈ pairs.map fun p => assignLine p.1 p.2, '\n' ∉ line := by
    intro line hline hmem
    obtain ⟨p, hp, rfl⟩ := List.mem_map.mp hline
    simp only [assignLine, List.mem_append, List.mem_cons] at hmem
    rcases hmem with (hmem | hmem | hmem | hmem) | hmem | hmem
    · exact ((hkeys p hp).plain _ hmem).2 rfl
    · exact absurd hmem (by decide)
    · exact absurd hmem (by decide)
    · exact ((hvals p hp).plain _ hmem).2 rfl
    · exact absurd hmem (by decide)
    · exact absurd hmem List.not_mem_nil
  have hlines : logicalLines before (pairs.flatMap fun p => assignLine p.1 p.2 ++ ['\n'])
      = some (pairs.map fun p => assignLine p.1 p.2) := by
    have hpieces := Words.pieces_flatMap_append hnewline []
    rw [List.flatMap_map, List.append_nil, Words.pieces_last List.not_mem_nil] at hpieces
    rw [logicalLines, hpieces]
    exact joinLines_plain hplain
  have hset := assignments_assign hkeys hvals
  -- the keys are the ones of the pairs, behind a colon
  have hnames : ((pairs.map fun p => (':' :: p.1, some p.2)).map Prod.fst).Nodup := by
    rw [List.map_map]
    have hcomp : (Prod.fst ∘ fun p : Str × Str => (':' :: p.1, some p.2))
        = (fun s : Str => ':' :: s) ∘ Prod.fst := rfl
    rw [hcomp, ← List.map_map]
    exact hnodup.map (fun s t h => (List.cons.inj h).2)
  obtain ⟨d, hload⟩ := exists_iniparserLoad hlines
    -- a key and a value that fit in a line fit in `tmp`
    (by
      intro a ha
      rw [hset] at ha
      obtain ⟨p, hp, rfl⟩ := List.mem_map.mp ha
      have hlen := hfits p hp
      rw [assignLine, List.length_append, List.length_append] at hlen
      rw [List.length_cons]
      omega)
    (errorsForgotten_of_ne (by
      intro line hline
      obtain ⟨p, hp, rfl⟩ := List.mem_map.mp hline
      rw [iniparserLine_assign (hkeys p hp) (hvals p hp)]
      simp))
  refine ⟨d, hload, fun p hp default => ?_⟩
  obtain ⟨lines', hlines', -, -, hget⟩ := exists_lines_of_load hload
  obtain rfl := Option.some.inj (hlines.symm.trans hlines')
  -- a key has no capital letter, so that `strlwc` leaves it
  have hlower : strlwc (':' :: p.1) = ':' :: p.1 := by
    apply strlwc_of_lower
    · rw [List.map_cons, (hkeys p hp).lower]
      rfl
    · have hlen := hfits p hp
      rw [assignLine, List.length_append, List.length_append] at hlen
      rw [List.length_cons]
      omega
  rw [hget, hset, hlower,
    lastValue_of_mem hnames (List.mem_map_of_mem (f := fun p => (':' :: p.1, some p.2)) hp)]
  rfl

/-! ## The table that is dumped -/

variable {os : List OptionElement} {ndebug : Bool}

/-- What an option is printed as can be read back. -/
structure Dumpable (o : OptionElement) : Prop where
  value : IsIniValue (o.value.getD nullText)
  length_lt : (assignLine (o.key.drop 1) (o.value.getD nullText)).length + 1 < ASCIILINESZ

instance (o : OptionElement) : Decidable (Dumpable o) :=
  decidable_of_iff (IsIniValue (o.value.getD nullText) ∧
      (assignLine (o.key.drop 1) (o.value.getD nullText)).length + 1 < ASCIILINESZ)
    ⟨fun ⟨hvalue, hlen⟩ => ⟨hvalue, hlen⟩, fun h => ⟨h.value, h.length_lt⟩⟩

/-- The table that `config_load` leaves has the options it had, and no value is the empty text. -/
theorem exists_map_of_configLoad {before : Char} {contents : Str} {php : Php}
    {trap_tokenizer : Option Str}
    (h : configLoad before (some contents) php trap_tokenizer (options ndebug) = .ok os) :
    ∃ g : OptionElement → OptionElement, os = (options ndebug).map g ∧
      (∀ o, (g o).key = o.key) ∧ (∀ o, (g o).mandatory = o.mandatory) ∧
      ∀ o, xstrdup (g o).value = (g o).value := by
  obtain ⟨lines, fields, -, hsource, rfl⟩ := configLoad_options h
  -- a field that `sscanf` has read is not empty
  have hfields : ∀ text ∈ fields, text ≠ [] := by
    cases hsource with
    | file _ => exact fun text htext => absurd htext List.not_mem_nil
    | php => exact fun text htext => Scanf.ne_nil_of_mem_scan htext
  refine ⟨fun o => withTokenizer trap_tokenizer
    (setAll (dbKeys.zip fields) { o with value := fileValue lines o }), ?_, ?_, ?_, ?_⟩
  · rw [loadedOptions, fileOptions, List.map_map]
    rfl
  · intro o
    rw [withTokenizer_key, setAll_key]
  · intro o
    rw [withTokenizer_mandatory, setAll_mandatory]
  · intro o
    have hset : xstrdup (setAll (dbKeys.zip fields) { o with value := fileValue lines o }).value
        = (setAll (dbKeys.zip fields) { o with value := fileValue lines o }).value := by
      rcases setAll_value (dbKeys.zip fields) { o with value := fileValue lines o } with
        ⟨-, hvalue⟩ | ⟨p, hp, -, hvalue⟩
      · rw [hvalue]
        exact xstrdup_xstrdup _
      · rw [hvalue, xstrdup_some_of_ne_nil (hfields _ (List.of_mem_zip hp).2)]
    rw [withTokenizer_value]
    split_ifs
    · cases htokenizer : xstrdup trap_tokenizer with
      | none => exact hset
      | some text =>
          show xstrdup (some text) = some text
          exact xstrdup_some_of_ne_nil (ne_nil_of_xstrdup_eq_some htokenizer)
    · exact hset

/-- The options for the database are left alone when none is missing. -/
theorem configLoadDb_of_file (hos : IsOptions os) (php : Php)
    (h : ∀ o ∈ os, o.key ∈ dbKeys → isEmpty o.value = false) : configLoadDb php os = .ok os := by
  obtain ⟨values, hvalues, hmissing⟩ := mapM_dbKeys hos
  have hany : ¬values.any isEmpty = true := by
    rw [hmissing]
    rintro ⟨o, ho, hkey, hempty⟩
    rw [h o ho hkey] at hempty
    cases hempty
  rw [configLoadDb, hvalues]
  show (if values.any isEmpty = true then _ else _) = _
  rw [if_neg hany]

/-- An option as it comes back from the line that it is dumped as. -/
def reloaded (o : OptionElement) : OptionElement :=
  { o with value := some (o.value.getD nullText) }

/-- The key and the text that an option is dumped with. -/
def dumpPair (o : OptionElement) : Str × Str := (o.key.drop 1, o.value.getD nullText)

theorem configDump_eq (os : List OptionElement) :
    configDump os = (os.map dumpPair).flatMap fun p => assignLine p.1 p.2 ++ ['\n'] := by
  rw [configDump, List.flatMap_map]
  congr 1
  funext o
  simp [assignLine, dumpPair]

/-- The text that an option is dumped with is not empty. -/
theorem getD_nullText_ne_nil {value : Option Str} (h : xstrdup value = value) :
    value.getD nullText ≠ [] := by
  cases value with
  | none => decide
  | some text => exact ne_nil_of_xstrdup_eq_some h

/-- A table with the names of the options, dumped, and loaded key by key. -/
theorem exists_load_dump {g : OptionElement → OptionElement} (hkey : ∀ o, (g o).key = o.key)
    (hdump : ∀ o ∈ (options ndebug).map g, Dumpable o) (before : Char) :
    ∃ ini, iniparserLoad before (some (configDump ((options ndebug).map g))) = .dict ini ∧
      ∀ o ∈ options ndebug, ∀ default, iniparserGetstring ini o.key default
        = xstrdup (some ((g o).value.getD nullText)) := by
  have hpairs : ∀ p ∈ ((options ndebug).map g).map dumpPair, ∃ o ∈ options ndebug,
      p = dumpPair (g o) := by
    intro p hp
    obtain ⟨o', ho', rfl⟩ := List.mem_map.mp hp
    obtain ⟨o, ho, rfl⟩ := List.mem_map.mp ho'
    exact ⟨o, ho, rfl⟩
  have hkeys : ∀ p ∈ ((options ndebug).map g).map dumpPair, IsIniKey p.1 := by
    intro p hp
    obtain ⟨o, ho, rfl⟩ := hpairs p hp
    rw [dumpPair, hkey]
    exact ((options_checked ndebug).2.1 o ho).2.2.2
  have hvals : ∀ p ∈ ((options ndebug).map g).map dumpPair, IsIniValue p.2 := by
    intro p hp
    obtain ⟨o, ho, rfl⟩ := hpairs p hp
    exact (hdump _ (List.mem_map_of_mem ho)).value
  have hfits : ∀ p ∈ ((options ndebug).map g).map dumpPair,
      (assignLine p.1 p.2).length + 1 < ASCIILINESZ := by
    intro p hp
    obtain ⟨o, ho, rfl⟩ := hpairs p hp
    exact (hdump _ (List.mem_map_of_mem ho)).length_lt
  -- the keys are printed without their colon, and differ all the same
  have hnodup : ((((options ndebug).map g).map dumpPair).map Prod.fst).Nodup := by
    have hcolon : ((((options ndebug).map g).map dumpPair).map Prod.fst).map (fun s => ':' :: s)
        = (options ndebug).map OptionElement.key := by
      rw [List.map_map, List.map_map, List.map_map]
      apply List.map_congr_left
      intro o ho
      show ':' :: (g o).key.drop 1 = o.key
      rw [hkey, ← ((options_checked ndebug).2.1 o ho).2.2.1]
    have hkeys := (options_checked ndebug).1
    rw [← hcolon] at hkeys
    exact hkeys.of_map _
  obtain ⟨ini, hload, hget⟩ := exists_load_assignLines before hkeys hvals hfits hnodup
  rw [configDump_eq]
  refine ⟨ini, hload, fun o ho default => ?_⟩
  have hmem : dumpPair (g o) ∈ ((options ndebug).map g).map dumpPair :=
    List.mem_map_of_mem (List.mem_map_of_mem ho)
  have hvalue := hget _ hmem default
  rw [dumpPair, hkey, ← ((options_checked ndebug).2.1 o ho).2.2.1] at hvalue
  exact hvalue

/-- **The dumped configuration is loaded again**: what `config_dump` prints of the options that
`config_load` has left is a configuration file, from which `config_load` has the same options
again, without any help of PHP.  Only an option that is `NULL` comes back as a text. -/
theorem config_dump_load {before : Char} {contents : Str} {php : Php}
    {trap_tokenizer : Option Str}
    (h : configLoad before (some contents) php trap_tokenizer (options ndebug) = .ok os)
    (hdump : ∀ o ∈ os, Dumpable o) (before' : Char) (php' : Php) :
    configLoad before' (some (configDump os)) php' none (options ndebug)
      = .ok (os.map reloaded) := by
  obtain ⟨g, rfl, hkey, hmandatory, hdup⟩ := exists_map_of_configLoad h
  obtain ⟨ini, hload, hget⟩ := exists_load_dump hkey hdump before'
  have hne : ∀ o, (g o).value.getD nullText ≠ [] := fun o => getD_nullText_ne_nil (hdup o)
  have htable : (options ndebug).map (fileOption ini)
      = ((options ndebug).map g).map reloaded := by
    rw [List.map_map]
    apply List.map_congr_left
    intro o ho
    rw [fileOption, hget o ho, xstrdup_some_of_ne_nil (hne o), xstrdup_some_of_ne_nil (hne o),
      Function.comp_apply, reloaded, hkey, hmandatory]
  -- so PHP is not asked
  have hfilled : ∀ o ∈ ((options ndebug).map g).map reloaded, isEmpty o.value = false := by
    intro o ho
    obtain ⟨o₁, ho₁, rfl⟩ := List.mem_map.mp ho
    obtain ⟨o₂, ho₂, rfl⟩ := List.mem_map.mp ho₁
    simpa [reloaded, isEmpty] using hne o₂
  have hos : IsOptions (((options ndebug).map g).map reloaded) := by
    rw [← htable]
    exact (isOptions_options ndebug).map (g := fileOption ini) (fun _ => rfl) fun _ => rfl
  unfold configLoad
  rw [hload]
  show (orExit (parseFile ini (options ndebug)) >>= fun os =>
    configLoadDb php' os >>= fun os => .ok os) = _
  rw [parseFile_eq (isOptions_options ndebug).mandatory ini, htable]
  show (configLoadDb php' _ >>= fun os => .ok os) = _
  rw [configLoadDb_of_file hos php' fun o ho _ => hfilled o ho]
  rfl

/-- The options that are loaded from `shortConfig`. -/
def shortOptions : List OptionElement :=
  (configLoad ' ' (some shortConfig) (fun _ _ _ => none) none (options true)).toOption.getD []

/-- The pipe of Nagios, which the file sets to nothing, comes back as a text. -/
theorem config_dump_load_short :
    (configLoad ' ' (some (configDump shortOptions)) (fun _ _ _ => none) none (options true)
      = .ok (shortOptions.map reloaded)) ∧
    (∃ o ∈ shortOptions, o.value = none) := by
  have hload : configLoad ' ' (some shortConfig) (fun _ _ _ => none) none (options true)
      = .ok shortOptions := by decide +kernel
  exact ⟨config_dump_load hload (by decide +kernel) ' ' fun _ _ _ => none, by decide +kernel⟩

end Trapd
