/-
# Macros in command texts

`expand_command_internal` is the filling of a text with names between dollar signs
(`Template.fill`).  From this the three functions are read off.

* `expandCommandInternal_fills`: the loop with its two buffers is `fill`.
* `stages_one_pass`: expanding resources first and host macros afterwards is one pass
  with both, as long as the values of the resources are inert for the second pass.
* `recognised_exactly_iff`: which texts `command_expand_3` takes for an argument.
-/
import NagiosTrapd.Db
import NagiosTrapd.Template
import Mathlib.Data.Set.Finite.Basic

namespace Trapd

open Template

/-! ## The loop is a filling -/

/-- The hook as a function of the name without its dollar signs. -/
def ExpandHook.value (expand_hook : ExpandHook) : Str → Option Str :=
  fun m => expand_hook (delimited '$' m)

/-- What the loop adds to the buffer over a text that begins outside a pair. -/
theorem finish_foldl_expandStep (expand_hook : ExpandHook) (text : Str) :
    ∀ b m : Str, (text.foldl (expandStep expand_hook) ⟨.normal, b, m⟩).finish
      = b ++ fill '$' expand_hook.value text := by
  induction text using pairs_induction '$' with
  | plain p hp =>
      intro b m
      rw [foldl_expandStep_copy _ hp, fill_plain _ hp]
      rfl
  | unpaired p q hp hq =>
      intro b m
      have hopen : expandStep expand_hook ⟨.normal, b ++ p, m⟩ '$'
          = ⟨.possible, b ++ p, ['$']⟩ := by
        simp [expandStep]
      rw [List.foldl_append, foldl_expandStep_copy _ hp, List.foldl_cons, hopen,
        foldl_expandStep_collect _ hq, fill_unpaired _ hp hq]
      simp [ExpandState.finish]
  | pair p name s hp hname ih =>
      intro b m
      have hsplit : p ++ '$' :: (name ++ '$' :: s) = p ++ (('$' :: name ++ ['$']) ++ s) := by
        simp
      rw [fill_pair _ hp hname, hsplit, List.foldl_append, foldl_expandStep_copy _ hp,
        List.foldl_append, foldl_expandStep_pair _ hname, ih, List.append_assoc,
        List.append_assoc]
      rfl

theorem expandCommandInternal_eq (expand_hook : ExpandHook) (text : Str) :
    expandCommandInternal expand_hook (some text) = some (fill '$' expand_hook.value text) := by
  rw [expandCommandInternal_some, finish_foldl_expandStep, List.nil_append]

/-- **The expansion meets its specification**: the texts between paired dollar signs are
replaced by what the hook gives for them, and everything else is kept. -/
theorem expandCommandInternal_fills (expand_hook : ExpandHook) (text : Str) :
    expandCommandInternal expand_hook (some text) = some (fill '$' expand_hook.value text) ∧
      expandCommandInternal (fun _ => none) (some text) = some text := by
  refine ⟨expandCommandInternal_eq expand_hook text, ?_⟩
  have hnone : ∀ m ∈ names '$' text, ExpandHook.value (fun _ => none) m = none := fun _ _ => rfl
  rw [expandCommandInternal_eq, fill_of_forall_none hnone]

/-! ## Resources first, host macros afterwards -/

/-- The value of the first hook, or else that of the second. -/
def combinedHook (first second : ExpandHook) : ExpandHook := fun name =>
  (first name).or (second name)

section Stages

variable (resources : HashTable Str Resource) (host_address : Option Str)
  (args : Option (List (Option Str))) (args_no : ℕ)

/-- What `fetch_commands` and `fetch_hosts` make of a command line together. -/
def twoStages (text : Str) : Option Str :=
  commandExpand3 (commandExpand1 (dbLookupResource resources) (some text)) host_address args
    args_no

/-- One pass with the hooks of both stages. -/
def onePass (text : Str) : Option Str :=
  expandCommandInternal
    (combinedHook (expandHook1 (dbLookupResource resources))
      (expandHook3 host_address args args_no)) (some text)

theorem twoStages_eq (text : Str) :
    twoStages resources host_address args args_no text
      = some (fill '$' (expandHook3 host_address args args_no).value
          (fill '$' (ExpandHook.value (dbLookupResource resources)) text)) := by
  unfold twoStages commandExpand1 commandExpand3 expandHook1
  rw [expandCommandInternal_eq, expandCommandInternal_eq]

theorem onePass_eq (text : Str) :
    onePass resources host_address args args_no text
      = some (fill '$' (fun m => (ExpandHook.value (dbLookupResource resources) m).or
          ((expandHook3 host_address args args_no).value m)) text) := by
  unfold onePass
  rw [expandCommandInternal_eq]
  rfl

end Stages

/-! ## The values of host macros -/

/-- The argument with a number, as `_expand_hook_3` takes it from the list. -/
def argument (args : Option (List (Option Str))) (args_no : ℕ) (n : ℤ) : Option Str :=
  args.bind fun args =>
    if n < 1 ∨ n > args_no then none else xstrdup (args[(n - 1).toNat]?.getD none)

theorem ne_hostAddressName_of_arg {name : Str} (h : name.take 4 = argPrefix) :
    name ≠ hostAddressName := by
  rintro rfl
  exact absurd h (by decide)

theorem ne_senderAddressName_of_arg {name : Str} (h : name.take 4 = argPrefix) :
    name ≠ senderAddressName := by
  rintro rfl
  exact absurd h (by decide)

/-- The comparison of four bytes finds the names that begin with `ARG`. -/
theorem take_delimited_eq_iff {m : Str} :
    (delimited '$' m).take 4 = argPrefix ↔ "ARG".toList <+: m := by
  constructor
  · intro h
    rcases m with _ | ⟨a, _ | ⟨b, _ | ⟨c, m⟩⟩⟩ <;>
      simp_all [delimited, argPrefix, List.cons_prefix_cons]
  · rintro ⟨r, rfl⟩
    rfl

section Values

variable (host_address : Option Str) (args : Option (List (Option Str))) (args_no : ℕ)

theorem value_hostAddress :
    (expandHook3 host_address args args_no).value "HOSTADDRESS".toList = xstrdup host_address := by
  have hname : delimited '$' "HOSTADDRESS".toList = hostAddressName := by decide
  unfold ExpandHook.value expandHook3
  rw [hname, if_pos rfl]

theorem value_senderAddress :
    (expandHook3 host_address args args_no).value "SENDERADDRESS".toList
      = some UNKNOWN_ADDRESS := by
  have hname : delimited '$' "SENDERADDRESS".toList = senderAddressName := by decide
  have hnot : senderAddressName ≠ hostAddressName := by decide
  unfold ExpandHook.value expandHook3
  rw [hname, if_neg hnot, if_pos rfl]
  rfl

/-- Behind `ARG` the number is read by `atoi`, whatever follows. -/
theorem value_arg (r : Str) :
    (expandHook3 host_address args args_no).value ("ARG".toList ++ r)
      = argument args args_no (atoi r) := by
  have harg : (delimited '$' ("ARG".toList ++ r)).take 4 = argPrefix := rfl
  have hdrop : (delimited '$' ("ARG".toList ++ r)).drop 4 = r ++ ['$'] := rfl
  have hlen : (delimited '$' ("ARG".toList ++ r)).length - 5 = r.length := by
    simp [delimited]
  unfold ExpandHook.value expandHook3
  rw [if_neg (ne_hostAddressName_of_arg harg), if_neg (ne_senderAddressName_of_arg harg),
    if_neg (not_not.mpr harg)]
  cases args with
  | none => rfl
  | some args => simp only [hdrop, hlen, List.take_left, argument, Option.bind_some]

/-- A name that is no address and does not begin with `ARG` has no value. -/
theorem value_other {m : Str} (hhost : m ≠ "HOSTADDRESS".toList)
    (hsender : m ≠ "SENDERADDRESS".toList) (harg : ¬ "ARG".toList <+: m) :
    (expandHook3 host_address args args_no).value m = none := by
  have hhost' : delimited '$' m ≠ hostAddressName := fun h =>
    hhost (delimited_injective '$' (h.trans (by decide)))
  have hsender' : delimited '$' m ≠ senderAddressName := fun h =>
    hsender (delimited_injective '$' (h.trans (by decide)))
  have hprefix : (delimited '$' m).take 4 ≠ argPrefix := mt take_delimited_eq_iff.mp harg
  unfold ExpandHook.value expandHook3
  rw [if_neg hhost', if_neg hsender', if_pos hprefix]

end Values

/-! ## What a value of a resource must not do -/

/-- A table that has been loaded holds finitely many resources. -/
theorem finite_of_fetchResources {rows : List Str} :
    ∀ {t resources : HashTable Str Resource}, {k | t k ≠ none}.Finite →
      rows.foldlM storeResource t = some resources → {k | resources k ≠ none}.Finite := by
  induction rows with
  | nil =>
      intro t resources ht h
      obtain rfl : t = resources := by simpa using h
      exact ht
  | cons row rows ih =>
      intro t resources ht h
      rw [List.foldlM_cons] at h
      obtain ⟨t', hstore, hrest⟩ := Option.bind_eq_some_iff.mp h
      refine ih ?_ hrest
      simp only [storeResource] at hstore
      cases hname : xstrdup (Words.words '=' row)[0]? with
      | none => simp [hname] at hstore
      | some name =>
          rw [hname] at hstore
          obtain rfl := Option.some.inj hstore
          refine (ht.insert name).subset fun k hk => ?_
          by_cases hkn : k = name
          · exact Or.inl hkn
          · refine Or.inr ?_
            rwa [Set.mem_ofPred_eq, HashTable.insert, Function.update_of_ne hkn] at hk

/-- Some name is unknown to the resources and is no host macro. -/
theorem exists_unknown {rows : List Str} {resources : HashTable Str Resource}
    (h : fetchResources rows = some resources) (host_address : Option Str)
    (args : Option (List (Option Str))) (args_no : ℕ) :
    ∃ a : Str, '$' ∉ a ∧ ExpandHook.value (dbLookupResource resources) a = none ∧
      (expandHook3 host_address args args_no).value a = none := by
  let f : ℕ → Str := fun n => delimited '$' ('x' :: List.replicate n 'x')
  have hinj : Function.Injective f := by
    intro n k hnk
    have hlen : (f n).length = (f k).length := congrArg List.length hnk
    simpa [f, delimited] using hlen
  have hempty : {k | (HashTable.empty : HashTable Str Resource) k ≠ none}.Finite := by
    simp [HashTable.empty]
  have hfin := finite_of_fetchResources hempty h
  obtain ⟨n, hn⟩ := (hfin.preimage hinj.injOn).exists_notMem
  have hnone : resources (f n) = none := by simpa using hn
  refine ⟨'x' :: List.replicate n 'x', by simp, ?_, ?_⟩
  · show dbLookupResource resources (f n) = none
    simp [dbLookupResource, HashTable.lookup, hnone]
  · exact value_other _ _ _ (by simp) (by simp) (by simp [List.cons_prefix_cons])

/-- An inert value makes no difference between two stages and one pass. -/
theorem twoStages_eq_onePass {resources : HashTable Str Resource} {host_address : Option Str}
    {args : Option (List (Option Str))} {args_no : ℕ} {text : Str}
    (h : ∀ m ∈ names '$' text, ∀ v, dbLookupResource resources (delimited '$' m) = some v →
      Inert '$' (expandHook3 host_address args args_no).value v) :
    twoStages resources host_address args args_no text
      = onePass resources host_address args args_no text := by
  rw [twoStages_eq, onePass_eq]
  exact congrArg some (fill_fill h)

/-- The sender's address as it stands between two unknown names. -/
def senderBetween (a : Str) : Str :=
  delimited '$' a ++ ("SENDERADDRESS".toList ++ delimited '$' a)

/-- Unknown names are left in place. -/
theorem fill_senderBetween {a : Str} (ha : '$' ∉ a) {value : Str → Option Str}
    (h : value a = none) : fill '$' value (senderBetween a) = senderBetween a := by
  have hlast : fill '$' value (delimited '$' a) = delimited '$' a := by
    rw [← List.append_nil (delimited '$' a), fill_delimited_append _ ha, h,
      fill_plain _ List.not_mem_nil, Option.getD_none]
  rw [senderBetween, fill_delimited_append _ ha, fill_plain_append _ (by decide), h, hlast,
    Option.getD_none]

/-- Behind a dollar sign without partner the pairs are other ones, and the sender's address
is between the two of a pair. -/
theorem fill_turned {host_address : Option Str} {args : Option (List (Option Str))} {args_no : ℕ}
    {e q a : Str} (hq : '$' ∉ q) (ha : '$' ∉ a) (he : Even (e.count '$'))
    (hrest : fill '$' (expandHook3 host_address args args_no).value e = e) :
    fill '$' (expandHook3 host_address args args_no).value ((e ++ '$' :: q) ++ senderBetween a)
      = e ++ (((expandHook3 host_address args args_no).value q).getD (delimited '$' q)
          ++ (a ++ (UNKNOWN_ADDRESS ++ (a ++ ['$'])))) := by
  have htext : (e ++ '$' :: q) ++ senderBetween a
      = e ++ (delimited '$' q ++
          (a ++ (delimited '$' "SENDERADDRESS".toList ++ (a ++ ['$'])))) := by
    simp [senderBetween, delimited]
  rw [htext, fill_append _ he, hrest, fill_delimited_append _ hq, fill_plain_append _ ha,
    fill_delimited_append _ (by decide), value_senderAddress, Option.getD_some,
    fill_unpaired _ ha List.not_mem_nil]

/-- Without the last `a$`, one of the texts ends in `UNKNOWN` and the other in a dollar sign. -/
theorem turned_ne (x e f a : Str) :
    e ++ (x ++ (a ++ (UNKNOWN_ADDRESS ++ (a ++ ['$'])))) ≠ f ++ senderBetween a := by
  intro h
  have hleft : e ++ (x ++ (a ++ (UNKNOWN_ADDRESS ++ (a ++ ['$']))))
      = ((e ++ (x ++ (a ++ "UNKNOW".toList))) ++ ['N']) ++ (a ++ ['$']) := by
    rw [show UNKNOWN_ADDRESS = "UNKNOW".toList ++ ['N'] from rfl]
    simp only [List.append_assoc]
  have hright : f ++ senderBetween a
      = ((f ++ (delimited '$' a ++ "SENDERADDRESS".toList)) ++ ['$']) ++ (a ++ ['$']) := by
    simp [senderBetween, delimited]
  rw [hleft, hright] at h
  have hlast := congrArg List.getLast? (List.append_cancel_right h)
  rw [List.getLast?_concat, List.getLast?_concat] at hlast
  exact absurd hlast (by decide)

/-- A value that is not inert does in some text: alone, if the second stage changes it,
and otherwise in front of `$a$SENDERADDRESS$a$`, where it turns the pairs around. -/
theorem exists_twoStages_ne {rows : List Str} {resources : HashTable Str Resource}
    (h : fetchResources rows = some resources) (host_address : Option Str)
    (args : Option (List (Option Str))) (args_no : ℕ) {m v : Str} (hm : '$' ∉ m)
    (hv : dbLookupResource resources (delimited '$' m) = some v)
    (hinert : ¬ Inert '$' (expandHook3 host_address args args_no).value v) :
    ∃ text, twoStages resources host_address args args_no text
      ≠ onePass resources host_address args args_no text := by
  have hfirst : ExpandHook.value (dbLookupResource resources) m = some v := hv
  have hone : ∀ s, onePass resources host_address args args_no (delimited '$' m ++ s)
      = some (v ++ fill '$' (fun m => (ExpandHook.value (dbLookupResource resources) m).or
          ((expandHook3 host_address args args_no).value m)) s) := by
    intro s
    rw [onePass_eq, fill_delimited_append _ hm, hfirst]
    rfl
  have htwo : ∀ s, twoStages resources host_address args args_no (delimited '$' m ++ s)
      = some (fill '$' (expandHook3 host_address args args_no).value
          (v ++ fill '$' (ExpandHook.value (dbLookupResource resources)) s)) := by
    intro s
    rw [twoStages_eq, fill_delimited_append _ hm, hfirst]
    rfl
  -- the value ends inside a macro, or a macro in it is filled in the second stage
  by_cases hfill : fill '$' (expandHook3 host_address args args_no).value v = v
  · have hodd : ¬ Even (v.count '$') := fun heven => hinert ⟨heven, hfill⟩
    obtain ⟨e, q, rfl, he, hq⟩ := exists_unpaired hodd
    obtain ⟨a, ha, hfirst', hsecond⟩ := exists_unknown h host_address args args_no
    have hrest : fill '$' (expandHook3 host_address args args_no).value e = e := by
      rw [fill_append _ he, show '$' :: q = [] ++ '$' :: q from rfl,
        fill_unpaired _ List.not_mem_nil hq] at hfill
      exact List.append_cancel_right hfill
    refine ⟨delimited '$' m ++ senderBetween a, ?_⟩
    rw [htwo, hone, fill_senderBetween ha hfirst',
      fill_senderBetween ha (by rw [hfirst', hsecond]; rfl), fill_turned hq ha he hrest]
    intro heq
    exact turned_ne _ e _ a (Option.some.inj heq)
  · refine ⟨delimited '$' m ++ [], ?_⟩
    rw [htwo, hone]
    intro heq
    apply hfill
    simpa [fill_plain] using heq

/-- **The two stages are one pass** over every text in which only inert values of resources
are put in; a value that is not inert makes a difference in some text. -/
theorem stages_one_pass {rows : List Str} {resources : HashTable Str Resource}
    (h : fetchResources rows = some resources) (host_address : Option Str)
    (args : Option (List (Option Str))) (args_no : ℕ) :
    (∀ text, (∀ m ∈ names '$' text, ∀ v, dbLookupResource resources (delimited '$' m) = some v →
        Inert '$' (expandHook3 host_address args args_no).value v) →
      twoStages resources host_address args args_no text
        = onePass resources host_address args args_no text) ∧
    (∀ m v, '$' ∉ m → dbLookupResource resources (delimited '$' m) = some v →
        ¬ Inert '$' (expandHook3 host_address args args_no).value v →
      ∃ text, twoStages resources host_address args args_no text
        ≠ onePass resources host_address args args_no text) :=
  ⟨fun _ htext => twoStages_eq_onePass htext,
    fun _ _ hm hv hinert => exists_twoStages_ne h host_address args args_no hm hv hinert⟩

/-- A table with one password. -/
def passwordTable (password : Text) : HashTable Str Resource :=
  HashTable.empty.insert "$USER1$".toList ⟨"$USER1$".toList, some password.1⟩

theorem stages_one_pass_password :
    twoStages (passwordTable ⟨"abc".toList, by decide⟩) (some "h".toList) none 0
        "$USER1$ $HOSTADDRESS$".toList
      = onePass (passwordTable ⟨"abc".toList, by decide⟩) (some "h".toList) none 0
        "$USER1$ $HOSTADDRESS$".toList := by
  have hrows : fetchResources ["$USER1$=abc".toList]
      = some (passwordTable ⟨"abc".toList, by decide⟩) := rfl
  refine (stages_one_pass hrows (some "h".toList) none 0).1 _ fun m hm v hv => ?_
  have hnames : names '$' "$USER1$ $HOSTADDRESS$".toList
      = ["USER1".toList, "HOSTADDRESS".toList] := by decide
  rw [hnames] at hm
  have hone : dbLookupResource (passwordTable ⟨"abc".toList, by decide⟩)
      (delimited '$' "USER1".toList) = some "abc".toList := by decide
  have htwo : dbLookupResource (passwordTable ⟨"abc".toList, by decide⟩)
      (delimited '$' "HOSTADDRESS".toList) = none := by decide
  rcases List.mem_cons.mp hm with rfl | hm
  · rw [hone] at hv
    obtain rfl := Option.some.inj hv
    exact inert_plain _ (by decide)
  · rw [List.mem_singleton.mp hm, htwo] at hv
    exact absurd hv (by simp)

/-- A password with a dollar sign hides the address behind it. -/
theorem not_stages_one_pass :
    ¬ ∀ (rows : List Str) (resources : HashTable Str Resource) (host_address : Option Str)
        (args : Option (List (Option Str))) (args_no : ℕ) (text : Str),
      fetchResources rows = some resources →
        twoStages resources host_address args args_no text
          = onePass resources host_address args args_no text := by
  intro h
  have hrows : fetchResources ["$USER1$=a$c".toList]
      = some (passwordTable ⟨"a$c".toList, by decide⟩) := rfl
  exact absurd (h _ _ (some "h".toList) none 0 "$USER1$ $HOSTADDRESS$".toList hrows) (by decide)

/-! ## Argument macros -/

/-- An argument list as `split_args` leaves it: NULL, or arguments that are not empty. -/
def argv (args : Option (List Text)) : Option (List (Option Str)) :=
  args.map fun as => as.map fun a => some a.1

/-- The number of arguments. -/
def argc (args : Option (List Text)) : ℕ := (args.getD []).length

/-- The arguments that `split_args` finds in a string. -/
theorem splitArgs_some (s : Str) :
    ∃ as : List Text, splitArgs (some s) = (argv (some as), argc (some as)) ∧
      as.map (·.1) = (Words.words '!' s).take MAX_ARGS_NO := by
  have hne : ∀ token ∈ (Words.words '!' s).take MAX_ARGS_NO, token ≠ [] := fun token ht =>
    Words.ne_nil_of_mem_words (List.mem_of_mem_take ht)
  obtain ⟨as, has⟩ : ∃ as : List Text, as.map (·.1) = (Words.words '!' s).take MAX_ARGS_NO :=
    ⟨((Words.words '!' s).take MAX_ARGS_NO).pmap Subtype.mk hne, by simp [List.map_pmap]⟩
  refine ⟨as, ?_, has⟩
  simp only [splitArgs, ← has, List.map_map, List.length_map, argv, argc, Option.map_some,
    Option.getD_some]
  exact congrArg (fun l => (some l, as.length)) (List.map_congr_left fun a _ => xstrdup_text a)

/-- Every argument list that `split_args` makes is of this kind. -/
theorem splitArgs_eq_argv (string : Option Str) :
    ∃ args, splitArgs string = (argv args, argc args) := by
  cases string with
  | none => exact ⟨none, rfl⟩
  | some s =>
      obtain ⟨as, has, -⟩ := splitArgs_some s
      exact ⟨some as, has⟩

theorem argument_succ (args : Option (List Text)) (n : ℕ) :
    argument (argv args) (argc args) (n + 1) = ((args.getD [])[n]?).map (·.1) := by
  cases args with
  | none => rfl
  | some as =>
      show (if ((n : ℤ) + 1 < 1 ∨ _) then none else _) = (as[n]?).map (·.1)
      by_cases hn : n < as.length
      · rw [if_neg (by simp [argc]; omega)]
        simp [hn, xstrdup_text]
      · rw [if_pos (Or.inr (by simp [argc]; omega))]
        simp [hn]

theorem argument_nonpos (args : Option (List Text)) {n : ℤ} (hn : n < 1) :
    argument (argv args) (argc args) n = none := by
  cases args with
  | none => rfl
  | some as => exact if_pos (Or.inl hn)

/-- A number that fits into an `int` is read back. -/
theorem atoi_decimal_succ {n : ℕ} (hn : n + 1 < 2 ^ 31) : atoi (decimal (n + 1)) = n + 1 :=
  atoi_decimal (by omega) (by omega)

/-- What a name stands for: the address of the host, that of the sender, which is not known
yet, or an argument, whose number is written behind `ARG`. -/
inductive Stands (address : Text) (args : Option (List Text)) : Str → Str → Prop
  | host : Stands address args "HOSTADDRESS".toList address.1
  | sender : Stands address args "SENDERADDRESS".toList UNKNOWN_ADDRESS
  | arg (n : ℕ) (a : Text) (ha : (args.getD [])[n]? = some a) :
      Stands address args ("ARG".toList ++ decimal (n + 1)) a.1

/-- The command of a host or service. -/
def hostText (address : Text) (args : Option (List Text)) (command : Str) : Str :=
  (commandExpand3 (some command) (some address.1) (argv args) (argc args)).getD []

/-- A name is recognised exactly: between two dollar signs that are a pair it is replaced by
what it stands for, and left alone when it stands for nothing. -/
structure Recognised (address : Text) (args : Option (List Text)) (m : Str) : Prop where
  replaced : ∀ before after v, Even (before.count '$') → Stands address args m v →
    hostText address args (before ++ (delimited '$' m ++ after))
      = hostText address args before ++ (v ++ hostText address args after)
  unchanged : ∀ before after, Even (before.count '$') → (∀ v, ¬ Stands address args m v) →
    hostText address args (before ++ (delimited '$' m ++ after))
      = hostText address args before ++ (delimited '$' m ++ hostText address args after)

/-- What `atoi` takes for the number of an argument is the plain numeral of it, or else the
argument is the text of the macro itself. -/
def ReadPlainly (args : Option (List Text)) (m : Str) : Prop :=
  ∀ (r : Str) (n : ℕ) (a : Text), m = "ARG".toList ++ r → atoi r = n + 1 →
    (args.getD [])[n]? = some a → r = decimal (n + 1) ∨ a.1 = delimited '$' m

section

variable {address : Text} {args : Option (List Text)} {m : Str}

theorem hostText_eq (command : Str) :
    hostText address args command
      = fill '$' (expandHook3 (some address.1) (argv args) (argc args)).value command := by
  rw [hostText, commandExpand3, expandCommandInternal_eq, Option.getD_some]

/-- Behind paired dollar signs a pair is replaced by the value of its name. -/
theorem hostText_pair (hm : '$' ∉ m) {before : Str} (hbefore : Even (before.count '$'))
    (after : Str) :
    hostText address args (before ++ (delimited '$' m ++ after))
      = hostText address args before ++
        (((expandHook3 (some address.1) (argv args) (argc args)).value m).getD (delimited '$' m)
          ++ hostText address args after) := by
  rw [hostText_eq, hostText_eq, hostText_eq, fill_append _ hbefore, fill_delimited_append _ hm]

/-- The hook gives what a name stands for. -/
theorem value_of_stands (hk : argc args < 2 ^ 31) {v : Str} (h : Stands address args m v) :
    (expandHook3 (some address.1) (argv args) (argc args)).value m = some v := by
  cases h with
  | host => rw [value_hostAddress, xstrdup_text]
  | sender => exact value_senderAddress _ _ _
  | arg n a ha =>
      have hn : n < (args.getD []).length := (List.getElem?_eq_some_iff.mp ha).1
      have hread : atoi (decimal (n + 1)) = n + 1 := atoi_decimal_succ (by
        unfold argc at hk
        omega)
      rw [value_arg, hread, argument_succ, ha, Option.map_some]

/-- The number behind `ARG` in a name that stands for something. -/
theorem stands_arg {r v : Str} (h : Stands address args ("ARG".toList ++ r) v) :
    ∃ (n : ℕ) (a : Text), r = decimal (n + 1) ∧ (args.getD [])[n]? = some a ∧ v = a.1 := by
  generalize hm : "ARG".toList ++ r = m at h
  cases h with
  | host => exact absurd (congrArg List.head? hm) (by decide : some 'A' ≠ some 'H')
  | sender => exact absurd (congrArg List.head? hm) (by decide : some 'A' ≠ some 'S')
  | arg n a ha => exact ⟨n, a, List.append_cancel_left hm, ha, rfl⟩

/-- A name without value, or whose value is its own text, is left alone. -/
theorem value_of_not_stands (hm : ∀ v, ¬ Stands address args m v) (hplain : ReadPlainly args m) :
    ((expandHook3 (some address.1) (argv args) (argc args)).value m).getD (delimited '$' m)
      = delimited '$' m := by
  by_cases harg : "ARG".toList <+: m
  · obtain ⟨r, rfl⟩ := harg
    rw [value_arg]
    by_cases hpos : atoi r < 1
    · rw [argument_nonpos args hpos, Option.getD_none]
    · obtain ⟨n, hn⟩ := Int.eq_ofNat_of_zero_le (show 0 ≤ atoi r - 1 by omega)
      have hr : atoi r = n + 1 := by omega
      rw [hr, argument_succ]
      cases ha : (args.getD [])[n]? with
      | none => rfl
      | some a =>
          rcases hplain r n a rfl hr ha with rfl | hself
          · exact absurd (Stands.arg n a ha) (hm _)
          · exact hself
  · have hhost : m ≠ "HOSTADDRESS".toList := fun h => hm _ (h ▸ Stands.host)
    have hsender : m ≠ "SENDERADDRESS".toList := fun h => hm _ (h ▸ Stands.sender)
    rw [value_other _ _ _ hhost hsender harg, Option.getD_none]

end

/-- **A name is recognised exactly** if and only if, when it begins with `ARG` and `atoi`
makes the number of an argument of the rest, the rest is the plain numeral.  Stores outside the
buffers, that of the number among them, are left to `expansion_inBounds_iff`. -/
theorem recognised_iff (address : Text) {args : Option (List Text)} (hk : argc args < 2 ^ 31)
    {m : Str} (hm : '$' ∉ m) : Recognised address args m ↔ ReadPlainly args m := by
  constructor
  · intro h r n a hr hn ha
    by_cases hstands : ∃ v, Stands address args m v
    · left
      obtain ⟨v, hv⟩ := hstands
      subst hr
      obtain ⟨k, b, rfl, hb, -⟩ := stands_arg hv
      have hlt : k < (args.getD []).length := (List.getElem?_eq_some_iff.mp hb).1
      have hread : atoi (decimal (k + 1)) = k + 1 := atoi_decimal_succ (by
        unfold argc at hk
        omega)
      obtain rfl : k = n := by omega
      rfl
    · right
      have hnone : ∀ v, ¬ Stands address args m v := fun v hv => hstands ⟨v, hv⟩
      have hleft := h.unchanged [] [] (by decide) hnone
      rw [hostText_pair hm (by decide), hr, value_arg, hn, argument_succ, ha, ← hr] at hleft
      exact List.append_cancel_right (List.append_cancel_left hleft)
  · intro hplain
    refine ⟨fun before after v hbefore hv => ?_, fun before after hbefore hnone => ?_⟩
    · rw [hostText_pair hm hbefore, value_of_stands hk hv, Option.getD_some]
    · rw [hostText_pair hm hbefore, value_of_not_stands hnone hplain]

theorem recognised_first :
    Recognised ⟨"h".toList, by decide⟩ (some [⟨"a".toList, by decide⟩]) "ARG1".toList := by
  refine (recognised_iff _ (by decide) (by decide)).mpr fun r n a hr hn ha => Or.inl ?_
  have hone : "1".toList = r := @List.append_cancel_left _ "ARG".toList _ _ hr
  have hread : atoi "1".toList = 1 := by decide
  subst hone
  obtain rfl : n = 0 := by omega
  decide

/-- `ARG1x` is taken for the first argument. -/
theorem not_recognised :
    ¬ ∀ (address : Text) (args : Option (List Text)) (m : Str), argc args < 2 ^ 31 → '$' ∉ m →
      Recognised address args m := by
  intro h
  have hrec := h ⟨"h".toList, by decide⟩ (some [⟨"a".toList, by decide⟩]) "ARG1x".toList
    (by decide) (by decide)
  have hnone : ∀ v, ¬ Stands ⟨"h".toList, by decide⟩ (some [⟨"a".toList, by decide⟩])
      ("ARG".toList ++ "1x".toList) v := by
    intro v hv
    obtain ⟨n, a, hr, ha, -⟩ := stands_arg hv
    obtain rfl : n = 0 := by simpa using (List.getElem?_eq_some_iff.mp ha).1
    exact absurd hr (by decide)
  exact absurd (hrec.unchanged [] [] (by decide) hnone) (by decide)

end Trapd
