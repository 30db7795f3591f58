/-
# Resources read back (`db.c`)

`fetch_resources` cuts each line at its equality signs, takes the first two pieces for name
and value, and drops the others.

**Main result:** `stored_whole_iff`: every resource is looked up with the whole value of its
last line exactly when none of these values has an equality sign.
-/
import NagiosTrapd.Db

namespace Trapd

open Words

/-! ## Resource lines -/

/-- A line `name=value`. -/
structure ResourceLine where
  name : Str
  value : Str
  name_ne_nil : name ≠ []
  eq_not_mem_name : '=' ∉ name
  value_ne_nil : value ≠ []

/-- The line as it stands in the table of resources. -/
def ResourceLine.text (l : ResourceLine) : Str := l.name ++ '=' :: l.value

/-- The last line with a name. -/
def lastLine (lines : List ResourceLine) (name : Str) : Option ResourceLine :=
  (lines.filter fun l => l.name = name).getLast?

/-- The resources are fetched, and looked up with what their last lines have. -/
def StoredWhole (lines : List ResourceLine) : Prop :=
  ∃ resources, fetchResources (lines.map ResourceLine.text) = some resources ∧
    ∀ name, dbLookupResource resources name = (lastLine lines name).map ResourceLine.value

/-! ## What is stored -/

/-- What `fetch_resources` makes of a line. -/
def ResourceLine.stored (l : ResourceLine) : Resource :=
  ⟨l.name, xstrdup (words '=' l.value)[0]?⟩

/-- **One line** is inserted under its name. -/
theorem storeResource_text (resources : HashTable Str Resource) (l : ResourceLine) :
    storeResource resources l.text = some (resources.insert l.name l.stored) := by
  unfold storeResource ResourceLine.text
  rw [words_append_cons ⟨l.name_ne_nil, l.eq_not_mem_name⟩]
  simp [xstrdup_some_of_ne_nil l.name_ne_nil, ResourceLine.stored]

theorem foldlM_storeResource (lines : List ResourceLine) :
    ∀ resources : HashTable Str Resource,
      (lines.map ResourceLine.text).foldlM storeResource resources
        = some (lines.foldl (fun t l => t.insert l.name l.stored) resources) := by
  induction lines with
  | nil =>
      intro resources
      rfl
  | cons l lines ih =>
      intro resources
      rw [List.map_cons, List.foldlM_cons, storeResource_text]
      exact ih _

/-- **What is looked up**: the value of the last line up to its first equality sign, leading
ones left out. -/
theorem fetchResources_lookup (lines : List ResourceLine) :
    ∃ resources, fetchResources (lines.map ResourceLine.text) = some resources ∧
      ∀ name, dbLookupResource resources name
        = (lastLine lines name).bind fun l => (words '=' l.value)[0]? := by
  refine ⟨_, foldlM_storeResource lines HashTable.empty, fun name => ?_⟩
  unfold dbLookupResource lastLine
  rw [HashTable.lookup_foldl_insert]
  cases (lines.filter fun l => l.name = name).getLast? with
  | none => rfl
  | some l =>
      show xstrdup (xstrdup (words '=' l.value)[0]?) = (words '=' l.value)[0]?
      cases hword : (words '=' l.value)[0]? with
      | none => rfl
      | some w =>
          have hw : w ≠ [] := ne_nil_of_mem_words (List.mem_of_getElem? hword)
          rw [xstrdup_some_of_ne_nil hw, xstrdup_some_of_ne_nil hw]

/-- The first piece is the whole value when there is nothing to cut. -/
theorem words_getElem?_zero_eq {value : Str} (hne : value ≠ []) :
    (words '=' value)[0]? = some value ↔ '=' ∉ value := by
  constructor
  · intro h
    exact (isWord_of_mem_words (List.mem_of_getElem? h)).2
  · intro h
    rw [words_of_isWord ⟨hne, h⟩]
    rfl

/-- **When resources are stored whole**: no line that is the last with its name has an
equality sign in its value. -/
theorem stored_whole_iff (lines : List ResourceLine) :
    StoredWhole lines ↔ ∀ name l, lastLine lines name = some l → '=' ∉ l.value := by
  obtain ⟨resources, hfetch, hlookup⟩ := fetchResources_lookup lines
  constructor
  · rintro ⟨resources', hfetch', hwhole⟩ name l hl
    obtain rfl := Option.some_inj.mp (hfetch.symm.trans hfetch')
    have hvalue := (hlookup name).symm.trans (hwhole name)
    rw [hl] at hvalue
    exact (words_getElem?_zero_eq l.value_ne_nil).mp hvalue
  · intro h
    refine ⟨resources, hfetch, fun name => ?_⟩
    rw [hlookup name]
    cases hl : lastLine lines name with
    | none => rfl
    | some l => exact (words_getElem?_zero_eq l.value_ne_nil).mpr (h name l hl)

/-- A password with an equality sign. -/
def passwordLine : ResourceLine :=
  ⟨"$USER5$".toList, "pa=ss".toList, by decide, by decide, by decide⟩

/-- It is cut. -/
theorem not_stored_whole : ¬ ∀ lines : List ResourceLine, StoredWhole lines := by
  intro h
  obtain ⟨resources, hfetch, hwhole⟩ := h [passwordLine]
  have hcut : dbLookupResource resources "$USER5$".toList = some "pa".toList := by
    obtain rfl := Option.some_inj.mp hfetch
    rfl
  rw [hwhole] at hcut
  exact absurd hcut (by decide)

end Trapd
