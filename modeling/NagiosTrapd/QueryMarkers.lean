/-
# A search for the markers of a query file

What `Pcre.Lawful` asks of PCRE can be done: `markerPcre` tries the two patterns at every
position of a line, from left to right.
-/
import NagiosTrapd.Query

namespace Trapd

/-! ## Searching from left to right -/

/-- The first match of a pattern, tried by `here` at every position; `i` counts them. -/
def search (here : Str → Option Ovector) : ℕ → Str → Option Ovector
  | _, [] => none
  | i, c :: s =>
      match here (c :: s) with
      | some spans => some (spans.map fun span => (i + span.1, i + span.2))
      | none => search here (i + 1) s

/-- A pattern that matches nowhere is not found. -/
theorem search_eq_none {here : Str → Option Ovector} {s : Str}
    (h : ∀ t, t <:+ s → here t = none) : ∀ i, search here i s = none := by
  induction s with
  | nil => exact fun _ => rfl
  | cons c s ih =>
      intro i
      have hrest := ih fun t ht => h t (ht.trans (List.suffix_cons c s))
      rw [search, h _ List.suffix_rfl]
      exact hrest (i + 1)

/-- A pattern that matches at the beginning is found there. -/
theorem search_here {here : Str → Option Ovector} {s : Str} {spans : Ovector} (hs : s ≠ [])
    (h : here s = some spans) : search here 0 s = some spans := by
  obtain ⟨c, t, rfl⟩ := List.exists_cons_of_ne_nil hs
  rw [search, h]
  simp

/-! ## The two patterns -/

/-- The begin marker at the beginning of a text. -/
def beginHere (s : Str) : Option Ovector :=
  let name := (s.drop beginFront.length).takeWhile isNameChar
  if name ≠ [] ∧ beginMarker name <+: s then
    some [(0, (beginMarker name).length), (beginFront.length, beginFront.length + name.length)]
  else none

/-- The end marker at the beginning of a text. -/
def endHere (s : Str) : Option Ovector :=
  if queryEndMarker <+: s then some [(0, queryEndMarker.length)] else none

/-- PCRE on the two patterns. -/
def markerPcre : Pcre where
  pcre_exec pattern subject :=
    if pattern = queryBeginMarker then search beginHere 0 subject
    else if pattern = queryEndMarker then search endHere 0 subject
    else none
  pcre_copy_substring subject ovector k size :=
    match ovector[k]? with
    | none => none
    | some (start, stop) =>
        if stop - start < size then some ((subject.drop start).take (stop - start)) else none

/-- The name is what stands in front of the blank. -/
theorem takeWhile_isNameChar {name : Str} (h : ∀ c ∈ name, isNameChar c = true) :
    (name ++ " --".toList).takeWhile isNameChar = name := by
  have hname : name.takeWhile isNameChar = name := List.takeWhile_eq_self_iff.mpr h
  rw [List.takeWhile_append, hname, if_pos rfl]
  show name ++ " --".toList.takeWhile isNameChar = name
  rw [show " --".toList.takeWhile isNameChar = [] by decide, List.append_nil]

theorem beginHere_beginMarker {name : Str} (h : IsQueryName name) :
    beginHere (beginMarker name)
      = some [(0, (beginMarker name).length),
          (beginFront.length, beginFront.length + name.length)] := by
  have hname : ((beginMarker name).drop beginFront.length).takeWhile isNameChar = name := by
    rw [beginMarker, List.drop_left, takeWhile_isNameChar h.chars]
  unfold beginHere
  rw [hname]
  exact if_pos ⟨h.ne_nil, List.prefix_rfl⟩

/-- Where the begin marker matches there is one. -/
theorem beginHere_eq_none {s : Str} (h : ¬ HasBeginMarker s) {t : Str} (ht : t <:+ s) :
    beginHere t = none := by
  unfold beginHere
  refine if_neg ?_
  rintro ⟨hne, hmarker⟩
  refine h ⟨_, hne, fun c hc => List.mem_takeWhile_imp hc, hmarker.isInfix.trans ht.isInfix⟩

theorem markerPcre_end (line : Str) :
    markerPcre.pcre_exec queryEndMarker line = search endHere 0 line := by
  have hne : queryEndMarker ≠ queryBeginMarker := by decide
  simp only [markerPcre, if_neg hne, if_true]

/-- **The search is lawful.** -/
theorem markerPcre_lawful : markerPcre.Lawful where
  begin_match h :=
    search_here (List.append_ne_nil_of_left_ne_nil (by decide) _) (beginHere_beginMarker h)
  begin_none h := search_eq_none (fun _ ht => beginHere_eq_none h ht) 0
  end_match := by
    have hend : search endHere 0 queryEndMarker = some [(0, queryEndMarker.length)] :=
      search_here (by decide) (if_pos List.prefix_rfl)
    rw [markerPcre_end, hend]
    rfl
  end_none {line} h := by
    rw [markerPcre_end]
    apply search_eq_none
    intro t ht
    exact if_neg fun hmarker => h (hmarker.isInfix.trans ht.isInfix)
  copy hspan hsize := by
    simp only [markerPcre, hspan, if_pos hsize]

end Trapd
