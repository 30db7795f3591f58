/-
# Expansion of command texts (`command.c`)

`expand_command_internal` copies a command and replaces what stands between two
dollar signs by what a hook makes of it.  The three public functions differ in
the hook only: user-defined resources, the addresses of a trap, and the address
and arguments of a host or service.  The buffers are taken as large as needed.
-/
import NagiosTrapd.Util

namespace Trapd

/-! ## The copying loop -/

/-- `expand_hook_t`: the value of a `$`-delimited text, `none` when it has none. -/
abbrev ExpandHook := Str → Option Str

/-- The two states of the loop. -/
inductive ExpandStatus
  | normal | possible
  deriving DecidableEq, Repr

/-- The local variables of the loop: `buffer` up to `i`, `macrobuffer` up to `j`. -/
structure ExpandState where
  status : ExpandStatus
  buffer : Str
  macrobuffer : Str
  deriving DecidableEq, Repr

/-- The variables before the first character. -/
def ExpandState.init : ExpandState := ⟨.normal, [], []⟩

/-- One iteration of the loop. -/
def expandStep (expand_hook : ExpandHook) (s : ExpandState) (c : Char) : ExpandState :=
  match s.status with
  | .normal =>
      if c = '$' then { s with status := .possible, macrobuffer := [c] }
      else { s with buffer := s.buffer ++ [c] }
  | .possible =>
      if c = '$' then
        -- the text is complete, with both dollar signs
        match expand_hook (s.macrobuffer ++ [c]) with
        | some macrovalue => { s with status := .normal, buffer := s.buffer ++ macrovalue }
        | none => { s with status := .normal, buffer := s.buffer ++ (s.macrobuffer ++ [c]) }
      else { s with macrobuffer := s.macrobuffer ++ [c] }

/-- A dollar sign without partner is copied with what follows it. -/
def ExpandState.finish (s : ExpandState) : Str :=
  match s.status with
  | .normal => s.buffer
  | .possible => s.buffer ++ s.macrobuffer

/-- `expand_command_internal`. -/
def expandCommandInternal (expand_hook : ExpandHook) (command : Option Str) : Option Str :=
  command.map fun text => (text.foldl (expandStep expand_hook) .init).finish

/-! ## The three hooks -/

/-- `UNKNOWN_ADDRESS`. -/
def UNKNOWN_ADDRESS : Str := "UNKNOWN".toList

/-- The text that stands for the address of a host. -/
def hostAddressName : Str := "$HOSTADDRESS$".toList

/-- The text that stands for the address of the sender. -/
def senderAddressName : Str := "$SENDERADDRESS$".toList

/-- How the text for an argument begins. -/
def argPrefix : Str := "$ARG".toList

/-- `_expand_hook_1`: user-defined resources. -/
def expandHook1 (db_lookup_resource : ExpandHook) : ExpandHook := db_lookup_resource

/-- `_expand_hook_2`: the addresses, `UNKNOWN` where one is missing. -/
def expandHook2 (host_address sender_address : Option Str) : ExpandHook := fun name =>
  if name = hostAddressName then
    if isEmpty host_address then xstrdup (some UNKNOWN_ADDRESS) else xstrdup host_address
  else if name = senderAddressName then
    if isEmpty sender_address then xstrdup (some UNKNOWN_ADDRESS) else xstrdup sender_address
  else none

/-- `_expand_hook_3`: the address of a host and the arguments of its command. -/
def expandHook3 (host_address : Option Str) (args : Option (List (Option Str))) (args_no : ℕ) :
    ExpandHook := fun name =>
  if name = hostAddressName then xstrdup host_address
  else if name = senderAddressName then xstrdup (some UNKNOWN_ADDRESS)
  else if name.take 4 ≠ argPrefix then none
  else match args with
    | none => none
    | some args =>
        -- between the prefix and the closing dollar sign
        let n_buffer := (name.drop 4).take (name.length - 5)
        let arg_index := atoi n_buffer
        if arg_index < 1 ∨ arg_index > args_no then none
        else xstrdup (args[(arg_index - 1).toNat]?.getD none)

/-- `command_expand_1`. -/
def commandExpand1 (db_lookup_resource : ExpandHook) (command : Option Str) : Option Str :=
  expandCommandInternal (expandHook1 db_lookup_resource) command

/-- `command_expand_2`. -/
def commandExpand2 (command host_address sender_address : Option Str) : Option Str :=
  expandCommandInternal (expandHook2 host_address sender_address) command

/-- `command_expand_3`; the name of the host or service is not used. -/
def commandExpand3 (command host_address : Option Str) (args : Option (List (Option Str)))
    (args_no : ℕ) : Option Str :=
  expandCommandInternal (expandHook3 host_address args args_no) command

example : commandExpand2 (some "ping $HOSTADDRESS$ $X".toList) (some "h".toList) none
    = some "ping h $X".toList := by decide

/-! ## Texts and macros -/

theorem expandCommandInternal_some (expand_hook : ExpandHook) (text : Str) :
    expandCommandInternal expand_hook (some text)
      = some (text.foldl (expandStep expand_hook) ⟨.normal, [], []⟩).finish := rfl

/-- Without a dollar sign everything is copied. -/
theorem foldl_expandStep_copy (expand_hook : ExpandHook) {text : Str} (h : '$' ∉ text)
    (b m : Str) :
    text.foldl (expandStep expand_hook) ⟨.normal, b, m⟩ = ⟨.normal, b ++ text, m⟩ := by
  induction text generalizing b with
  | nil => simp
  | cons c text ih =>
      have hc : c ≠ '$' := fun hc => h (hc ▸ List.mem_cons_self)
      rw [List.foldl_cons]
      have hstep : expandStep expand_hook ⟨.normal, b, m⟩ c = ⟨.normal, b ++ [c], m⟩ := by
        simp [expandStep, hc]
      rw [hstep, ih fun hmem => h (List.mem_cons_of_mem _ hmem), List.append_assoc]
      rfl

/-- Behind a dollar sign everything is collected. -/
theorem foldl_expandStep_collect (expand_hook : ExpandHook) {text : Str} (h : '$' ∉ text)
    (b m : Str) :
    text.foldl (expandStep expand_hook) ⟨.possible, b, m⟩ = ⟨.possible, b, m ++ text⟩ := by
  induction text generalizing m with
  | nil => simp
  | cons c text ih =>
      have hc : c ≠ '$' := fun hc => h (hc ▸ List.mem_cons_self)
      rw [List.foldl_cons]
      have hstep : expandStep expand_hook ⟨.possible, b, m⟩ c = ⟨.possible, b, m ++ [c]⟩ := by
        simp [expandStep, hc]
      rw [hstep, ih fun hmem => h (List.mem_cons_of_mem _ hmem), List.append_assoc]
      rfl

/-- What stands between two dollar signs, with them, is replaced by what the hook gives, and
copied when it gives nothing. -/
theorem foldl_expandStep_pair (expand_hook : ExpandHook) {name : Str} (h : '$' ∉ name)
    (b m : Str) :
    ('$' :: name ++ ['$']).foldl (expandStep expand_hook) ⟨.normal, b, m⟩
      = ⟨.normal, b ++ (expand_hook ('$' :: name ++ ['$'])).getD ('$' :: name ++ ['$']),
          '$' :: name⟩ := by
  have hopen : expandStep expand_hook ⟨.normal, b, m⟩ '$' = ⟨.possible, b, ['$']⟩ := by
    simp [expandStep]
  rw [List.cons_append, List.foldl_cons, hopen, List.foldl_append,
    foldl_expandStep_collect expand_hook h, List.foldl_cons, List.foldl_nil]
  unfold expandStep
  simp only [List.cons_append, List.nil_append, if_true]
  cases expand_hook ('$' :: (name ++ ['$'])) <;> rfl

/-- A macro is replaced by its value. -/
theorem foldl_expandStep_macro {expand_hook : ExpandHook} {name value : Str} (h : '$' ∉ name)
    (hvalue : expand_hook ('$' :: name ++ ['$']) = some value) (b m : Str) :
    ('$' :: name ++ ['$']).foldl (expandStep expand_hook) ⟨.normal, b, m⟩
      = ⟨.normal, b ++ value, '$' :: name⟩ := by
  rw [foldl_expandStep_pair expand_hook h, hvalue, Option.getD_some]

/-- **The address of the sender in a command** without other dollar signs. -/
theorem commandExpand2_sender {host_address : Option Str} {before address behind : Str}
    (hbefore : '$' ∉ before) (hbehind : '$' ∉ behind) (haddress : address ≠ []) :
    commandExpand2 (some (before ++ (senderAddressName ++ behind))) host_address (some address)
      = some (before ++ (address ++ behind)) := by
  have hname : '$' ∉ "SENDERADDRESS".toList := by decide
  have hvalue : expandHook2 host_address (some address) ('$' :: "SENDERADDRESS".toList ++ ['$'])
      = some address := by
    have hnot : senderAddressName ≠ hostAddressName := by decide
    show expandHook2 host_address (some address) senderAddressName = some address
    rw [expandHook2, if_neg hnot, if_pos rfl, if_neg (by simp [haddress]),
      xstrdup_some_of_ne_nil haddress]
  have hsplit : senderAddressName = '$' :: "SENDERADDRESS".toList ++ ['$'] := by decide
  rw [commandExpand2, expandCommandInternal_some, List.foldl_append, List.foldl_append,
    foldl_expandStep_copy _ hbefore, List.nil_append, hsplit,
    foldl_expandStep_macro hname hvalue, foldl_expandStep_copy _ hbehind, List.append_assoc]
  rfl

/-- A command without dollar sign is not changed. -/
theorem commandExpand2_copy {host_address sender_address : Option Str} {text : Str}
    (h : '$' ∉ text) : commandExpand2 (some text) host_address sender_address = some text := by
  rw [commandExpand2, expandCommandInternal_some, foldl_expandStep_copy _ h]
  rfl

/-! ## Expansions are never empty -/

/-- A hook whose values are not empty. -/
def ExpandHook.Nonempty (expand_hook : ExpandHook) : Prop :=
  ∀ name value, expand_hook name = some value → value ≠ []

/-- Something has been read: it stands in one of the two buffers. -/
def ExpandState.HasText (s : ExpandState) : Prop :=
  s.buffer ≠ [] ∨ (s.status = .possible ∧ s.macrobuffer ≠ [])

/-- What has been read is not empty when the loop ends. -/
theorem ExpandState.HasText.finish_ne_nil {s : ExpandState} (h : s.HasText) : s.finish ≠ [] := by
  obtain ⟨status, buffer, macrobuffer⟩ := s
  rcases h with h | ⟨rfl, h⟩
  · have hbuffer : buffer ≠ [] := h
    cases status <;> simp [ExpandState.finish, hbuffer]
  · have hmacro : macrobuffer ≠ [] := h
    simp [ExpandState.finish, hmacro]

/-- Every character leaves something in the buffers. -/
theorem hasText_expandStep {expand_hook : ExpandHook} (hh : expand_hook.Nonempty)
    (s : ExpandState) (c : Char) (hs : s.status = .normal ∨ s.HasText) :
    (expandStep expand_hook s c).HasText := by
  obtain ⟨status, buffer, macrobuffer⟩ := s
  cases status with
  | normal =>
      unfold expandStep
      by_cases hc : c = '$'
      · right
        simp [hc]
      · left
        simp [hc]
  | possible =>
      have htext : buffer ≠ [] ∨ macrobuffer ≠ [] := by
        rcases hs with hs | hs | hs
        · exact absurd hs (by simp)
        · exact Or.inl hs
        · exact Or.inr hs.2
      unfold expandStep
      by_cases hc : c = '$'
      · subst hc
        left
        cases hv : expand_hook (macrobuffer ++ ['$']) with
        | none => simp
        | some value => simp [hh _ _ hv]
      · right
        simp [hc]

/-- The buffers stay filled over the rest of a command. -/
theorem hasText_foldl {expand_hook : ExpandHook} (hh : expand_hook.Nonempty) (text : Str) :
    ∀ s : ExpandState, s.HasText → (text.foldl (expandStep expand_hook) s).HasText := by
  induction text with
  | nil => exact fun s hs => hs
  | cons c text ih => exact fun s hs => ih _ (hasText_expandStep hh s c (Or.inr hs))

/-- **A command that is not empty expands to a text that is not empty**, when the
values of the hook are not empty. -/
theorem expandCommandInternal_ne_nil {expand_hook : ExpandHook} (hh : expand_hook.Nonempty)
    {text : Str} (htext : text ≠ []) :
    ∃ t, expandCommandInternal expand_hook (some text) = some t ∧ t ≠ [] := by
  obtain ⟨c, rest, rfl⟩ := List.exists_cons_of_ne_nil htext
  refine ⟨_, rfl, ?_⟩
  have h : ((c :: rest).foldl (expandStep expand_hook) .init).HasText := by
    rw [List.foldl_cons]
    exact hasText_foldl hh rest _ (hasText_expandStep hh .init c (Or.inl rfl))
  exact h.finish_ne_nil

theorem expandHook3_nonempty (host_address : Option Str) (args : Option (List (Option Str)))
    (args_no : ℕ) : (expandHook3 host_address args args_no).Nonempty := by
  intro name value h
  unfold expandHook3 at h
  cases args with
  | none => split_ifs at h <;> exact ne_nil_of_xstrdup_eq_some h
  | some args =>
      simp only at h
      split_ifs at h <;> exact ne_nil_of_xstrdup_eq_some h

end Trapd
