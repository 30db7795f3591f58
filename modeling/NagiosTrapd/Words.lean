/-
# Words of a list: splitting on a separator, and texts spaced by separators

A small library about lists over an arbitrary alphabet.  `words sep s` is the
list of maximal separator-free nonempty runs of `s` (what repeated calls of
`strtok` with one delimiter return), and `Spaced sep ws s` says that `s` is the
words `ws` with at least one separator between any two neighbours.  The two
meet in `words_of_spaced`: every spacing of a word list reads back as that list.
-/
import Mathlib.Algebra.GroupWithZero.Nat
import Mathlib.Data.List.Basic
import Mathlib.Data.List.TakeWhile

namespace Words

variable {α : Type*}

/-- A word: nonempty and free of the separator. -/
def IsWord (sep : α) (w : List α) : Prop := w ≠ [] ∧ sep ∉ w

/-- `Spaced sep ws s`: the text `s` is the word list `ws`, any two neighbours
kept apart by one or more separators. -/
inductive Spaced (sep : α) : List (List α) → List α → Prop
  | single (w : List α) : Spaced sep [w] w
  | cons (w : List α) (gap : ℕ) {ws : List (List α)} {s : List α} :
      Spaced sep ws s → Spaced sep (w :: ws) (w ++ List.replicate (gap + 1) sep ++ s)

/-! ## What a spacing is made of -/

/-- Every symbol of a spaced text is the separator or stands in a word. -/
theorem mem_of_mem_spaced {sep : α} {ws : List (List α)} {s : List α}
    (hs : Spaced sep ws s) {c : α} (hc : c ∈ s) : c = sep ∨ ∃ w ∈ ws, c ∈ w := by
  induction hs with
  | single w => exact Or.inr ⟨w, List.mem_cons_self, hc⟩
  | @cons w gap ws s _ ih =>
      rw [List.append_assoc, List.mem_append, List.mem_append] at hc
      rcases hc with hw | hgap | hrest
      · exact Or.inr ⟨w, List.mem_cons_self, hw⟩
      · exact Or.inl (List.eq_of_mem_replicate hgap)
      · rcases ih hrest with h | ⟨v, hv, hcv⟩
        · exact Or.inl h
        · exact Or.inr ⟨v, List.mem_cons_of_mem _ hv, hcv⟩

/-- Every symbol of a word stands in the text. -/
theorem mem_spaced_of_mem {sep : α} {ws : List (List α)} {s : List α}
    (hs : Spaced sep ws s) {w : List α} (hw : w ∈ ws) {c : α} (hc : c ∈ w) : c ∈ s := by
  induction hs with
  | single v =>
      rw [List.mem_singleton.mp hw] at hc
      exact hc
  | cons v gap _ ih =>
      rw [List.append_assoc, List.mem_append, List.mem_append]
      rcases List.mem_cons.mp hw with rfl | hrest
      · exact Or.inl hc
      · exact Or.inr (Or.inr (ih hrest))

/-- A spacing of a list with a nonempty first word is nonempty. -/
theorem spaced_ne_nil {sep : α} {w : List α} {ws : List (List α)} {s : List α}
    (hs : Spaced sep (w :: ws) s) (hw : w ≠ []) : s ≠ [] := by
  cases hs with
  | single => exact hw
  | cons => simp [hw]

/-- Joining words by single separators is one of their spacings. -/
theorem spaced_intercalate (sep : α) {ws : List (List α)} (hne : ws ≠ []) :
    Spaced sep ws ([sep].intercalate ws) := by
  induction ws with
  | nil => exact absurd rfl hne
  | cons w ws ih =>
      cases ws with
      | nil =>
          rw [List.intercalate_singleton]
          exact Spaced.single w
      | cons v vs =>
          have h := Spaced.cons w 0 (ih (List.cons_ne_nil v vs))
          rw [List.intercalate_cons_cons]
          simpa using h

/-- Two spaced texts with separators between them. -/
theorem Spaced.append {sep : α} {us vs : List (List α)} {s u : List α} (hs : Spaced sep us s)
    (gap : ℕ) (hu : Spaced sep vs u) :
    Spaced sep (us ++ vs) (s ++ List.replicate (gap + 1) sep ++ u) := by
  induction hs with
  | single w => exact Spaced.cons w gap hu
  | cons w n _ ih =>
      have h := Spaced.cons w n ih
      simpa [List.append_assoc] using h

/-- Every word takes its length and a separator, the last one lacks the separator. -/
theorem length_intercalate_add_one (sep : α) {ws : List (List α)} (hne : ws ≠ []) :
    ([sep].intercalate ws).length + 1 = (ws.map fun w => w.length + 1).sum := by
  induction ws with
  | nil => exact absurd rfl hne
  | cons w ws ih =>
      cases ws with
      | nil =>
          rw [List.intercalate_singleton, List.map_singleton, List.sum_singleton]
      | cons v vs =>
          rw [List.intercalate_cons_cons, List.map_cons, List.sum_cons,
            ← ih (List.cons_ne_nil v vs)]
          simp only [List.length_append, List.length_singleton]
          omega

/-- A text that goes on as it began, behind `n`, is made of the symbols of `n`. -/
theorem mem_of_isPrefix_append {n : List α} (hn : n ≠ []) (s : List α) (h : s <+: n ++ s) :
    ∀ c ∈ s, c ∈ n := by
  by_cases hle : s.length ≤ n.length
  · have hprefix := List.prefix_of_prefix_length_le h (List.prefix_append n s) hle
    exact fun c hc => hprefix.subset hc
  · obtain ⟨r, rfl⟩ := List.prefix_of_prefix_length_le (List.prefix_append n s) h
      (Nat.le_of_not_le hle)
    rw [List.prefix_append_right_inj] at h
    have hrest := mem_of_isPrefix_append hn r h
    intro c hc
    rcases List.mem_append.mp hc with hc | hc
    · exact hc
    · exact hrest c hc
termination_by s.length
decreasing_by
  subst_vars
  have hpos := List.length_pos_of_ne_nil hn
  rw [List.length_append]
  omega

/-! ## Reading words -/

variable [DecidableEq α]

/-- The nonempty pieces of `s` between separators, in order. -/
def words (sep : α) (s : List α) : List (List α) :=
  (s.splitOn sep).filter (· ≠ [])

/-- A word that is read is not empty. -/
theorem ne_nil_of_mem_words {sep : α} {s w : List α} (hw : w ∈ words sep s) : w ≠ [] := by
  simpa using (List.mem_filter.mp hw).2

/-- The pieces of `s` between separators, the empty ones too. -/
def pieces (sep : α) (s : List α) : List (List α) := s.splitOn sep

theorem words_eq_filter_pieces (sep : α) (s : List α) :
    words sep s = (pieces sep s).filter (· ≠ []) := rfl

theorem pieces_ne_nil (sep : α) (s : List α) : pieces sep s ≠ [] := List.splitOn_ne_nil sep s

/-- A text without separators is one piece. -/
theorem pieces_last {sep : α} {g : List α} (hg : sep ∉ g) : pieces sep g = [g] :=
  List.splitOn_eq_singleton hg

/-- The piece in front of the first separator. -/
theorem pieces_append_cons {sep : α} {g : List α} (hg : sep ∉ g) (s : List α) :
    pieces sep (g ++ sep :: s) = g :: pieces sep s := by
  unfold pieces
  rw [List.splitOn_append_cons_self_of_not_mem hg]

/-- Pieces that are each ended by a separator, and a rest. -/
theorem pieces_flatMap_append {sep : α} {ps : List (List α)} (hps : ∀ p ∈ ps, sep ∉ p)
    (rest : List α) :
    pieces sep ((ps.flatMap fun p => p ++ [sep]) ++ rest) = ps ++ pieces sep rest := by
  induction ps with
  | nil => rfl
  | cons p ps ih =>
      have hrest := ih fun q hq => hps q (List.mem_cons_of_mem p hq)
      rw [List.flatMap_cons, List.append_assoc, List.append_assoc, List.singleton_append,
        pieces_append_cons (hps p List.mem_cons_self), hrest, List.cons_append]

/-- What is shown of a text without separators, and of a piece in front of a text of which
it is shown already, is shown of every text. -/
theorem pieces_induction {motive : List α → Prop} (sep : α)
    (last : ∀ g, sep ∉ g → motive g)
    (piece : ∀ g s, sep ∉ g → motive s → motive (g ++ sep :: s)) (s : List α) : motive s := by
  by_cases hmem : sep ∈ s
  · obtain ⟨g, rest, rfl, hg⟩ := List.eq_append_cons_of_mem hmem
    exact piece g rest hg (pieces_induction sep last piece rest)
  · exact last s hmem
termination_by s.length
decreasing_by subst_vars; simp; omega

/-- No piece holds a separator. -/
theorem not_mem_of_mem_pieces {sep : α} {s : List α} :
    ∀ {w : List α}, w ∈ pieces sep s → sep ∉ w := by
  induction s using pieces_induction sep with
  | last g hg =>
      intro w hw
      rw [pieces_last hg, List.mem_singleton] at hw
      rw [hw]
      exact hg
  | piece g s hg ih =>
      intro w hw
      rw [pieces_append_cons hg, List.mem_cons] at hw
      rcases hw with rfl | hw
      · exact hg
      · exact ih hw

/-- The symbols of a piece stand in the text. -/
theorem mem_of_mem_pieces {sep : α} {s w : List α} (hw : w ∈ pieces sep s) {c : α} (hc : c ∈ w) :
    c ∈ s := by
  induction s using pieces_induction sep with
  | last g hg =>
      rw [pieces_last hg, List.mem_singleton] at hw
      exact hw ▸ hc
  | piece g s hg ih =>
      rw [pieces_append_cons hg, List.mem_cons] at hw
      rcases hw with rfl | hw
      · exact List.mem_append_left _ hc
      · exact List.mem_append_right _ (List.mem_cons_of_mem _ (ih hw))

/-- The text in front of the first separator. -/
def firstPiece (sep : α) (s : List α) : List α := s.takeWhile (· ≠ sep)

theorem firstPiece_append_cons {sep : α} {g : List α} (hg : sep ∉ g) (s : List α) :
    firstPiece sep (g ++ sep :: s) = g := by
  unfold firstPiece
  rw [List.takeWhile_append_of_pos, List.takeWhile_cons_of_neg (by simp), List.append_nil]
  intro c hc
  simpa using ne_of_mem_of_not_mem hc hg

/-- There is one first separator. -/
theorem append_cons_sep_inj {sep : α} {g g' s s' : List α} (hg : sep ∉ g) (hg' : sep ∉ g')
    (h : g ++ sep :: s = g' ++ sep :: s') : g = g' ∧ s = s' := by
  have hfirst := congrArg (firstPiece sep) h
  rw [firstPiece_append_cons hg, firstPiece_append_cons hg'] at hfirst
  subst hfirst
  exact ⟨rfl, (List.cons.inj (List.append_cancel_left h)).2⟩

theorem firstPiece_eq_self_iff {sep : α} {s : List α} : firstPiece sep s = s ↔ sep ∉ s := by
  unfold firstPiece
  rw [List.takeWhile_eq_self_iff]
  constructor
  · intro h hmem
    simpa using h sep hmem
  · intro h c hc
    simpa using ne_of_mem_of_not_mem hc h

/-- What stands behind a separator is not part of it. -/
theorem firstPiece_append_sep (sep : α) (s t : List α) :
    firstPiece sep (s ++ sep :: t) = firstPiece sep s := by
  by_cases hmem : sep ∈ s
  · obtain ⟨g, u, rfl, hg⟩ := List.eq_append_cons_of_mem hmem
    rw [List.append_assoc, List.cons_append, firstPiece_append_cons hg, firstPiece_append_cons hg]
  · rw [firstPiece_append_cons hmem, firstPiece_eq_self_iff.mpr hmem]

theorem mem_of_mem_firstPiece {sep : α} {s : List α} {c : α} (hc : c ∈ firstPiece sep s) :
    c ∈ s := (List.takeWhile_prefix _).subset hc

/-- The text is its first piece, or goes on behind a separator. -/
theorem firstPiece_eq_iff {sep : α} {s g : List α} (hg : sep ∉ g) :
    firstPiece sep s = g ↔ s = g ∨ ∃ t, s = g ++ sep :: t := by
  constructor
  · rintro rfl
    by_cases hmem : sep ∈ s
    · obtain ⟨p, t, hs, hp⟩ := List.eq_append_cons_of_mem hmem
      have hfirst : firstPiece sep s = p := by rw [hs, firstPiece_append_cons hp]
      exact Or.inr ⟨t, by rw [hfirst, hs]⟩
    · exact Or.inl (firstPiece_eq_self_iff.mpr hmem).symm
  · rintro (rfl | ⟨t, rfl⟩)
    · exact firstPiece_eq_self_iff.mpr hg
    · exact firstPiece_append_cons hg t

/-- A first piece is what a separator ends for the first time. -/
theorem isPrefix_iff_firstPiece {sep : α} {s g : List α} :
    sep ∉ g ∧ g ++ [sep] <+: s ↔ sep ∈ s ∧ firstPiece sep s = g := by
  constructor
  · rintro ⟨hg, t, rfl⟩
    rw [List.append_assoc]
    exact ⟨by simp, firstPiece_append_cons hg t⟩
  · rintro ⟨hmem, rfl⟩
    obtain ⟨p, t, rfl, hp⟩ := List.eq_append_cons_of_mem hmem
    rw [firstPiece_append_cons hp]
    exact ⟨hp, t, by rw [List.append_assoc]; rfl⟩

theorem pieces_getD_zero (sep : α) (s : List α) : (pieces sep s).getD 0 [] = firstPiece sep s := by
  induction s using pieces_induction sep with
  | last g hg =>
      rw [pieces_last hg, firstPiece_eq_self_iff.mpr hg]
      rfl
  | piece g s hg _ =>
      rw [pieces_append_cons hg, firstPiece_append_cons hg]
      rfl

/-- The second piece is the first one behind the first separator. -/
theorem pieces_getD_one {sep : α} {g : List α} (hg : sep ∉ g) (s : List α) :
    (pieces sep (g ++ sep :: s)).getD 1 [] = firstPiece sep s := by
  rw [pieces_append_cons hg, List.getD_cons_succ, pieces_getD_zero]

/-- Symbols other than the separator are dropped from each piece. -/
theorem pieces_filter {sep : α} {p : α → Bool} (hp : p sep = true) (s : List α) :
    pieces sep (s.filter p) = (pieces sep s).map (List.filter p) := by
  induction s using pieces_induction sep with
  | last g hg =>
      have hkept : sep ∉ g.filter p := fun hmem => hg (List.mem_of_mem_filter hmem)
      rw [pieces_last hg, pieces_last hkept]
      rfl
  | piece g s hg ih =>
      have hkept : sep ∉ g.filter p := fun hmem => hg (List.mem_of_mem_filter hmem)
      rw [List.filter_append, List.filter_cons_of_pos hp, pieces_append_cons hkept, ih,
        pieces_append_cons hg, List.map_cons]

/-- The pieces up to the one that `stop` stands in, which ends there. -/
def cutPieces (stop : α) : List (List α) → List (List α)
  | [] => []
  | w :: ws => firstPiece stop w :: if stop ∈ w then [] else cutPieces stop ws

/-- The pieces of a text that ends at the first `stop`. -/
theorem pieces_firstPiece {sep stop : α} (hne : stop ≠ sep) (s : List α) :
    pieces sep (firstPiece stop s) = cutPieces stop (pieces sep s) := by
  induction s using pieces_induction sep with
  | last g hg =>
      have hfirst : sep ∉ firstPiece stop g := fun hmem => hg (mem_of_mem_firstPiece hmem)
      rw [pieces_last hg, pieces_last hfirst, cutPieces, cutPieces, ite_self]
  | piece g s hg ih =>
      have hfirst : sep ∉ firstPiece stop g := fun hmem => hg (mem_of_mem_firstPiece hmem)
      rw [pieces_append_cons hg, cutPieces]
      by_cases hstop : stop ∈ g
      · obtain ⟨p, t, rfl, hp⟩ := List.eq_append_cons_of_mem hstop
        rw [List.append_assoc, List.cons_append, firstPiece_append_cons hp] at *
        rw [firstPiece_append_cons hp, pieces_last hfirst, if_pos hstop]
      · rw [if_neg hstop, firstPiece_eq_self_iff.mpr hstop, ← ih, ← pieces_append_cons hg]
        congr 1
        unfold firstPiece
        rw [List.takeWhile_append_of_pos, List.takeWhile_cons_of_pos]
        · simpa using hne.symm
        · intro c hc
          simpa using ne_of_mem_of_not_mem hc hstop

/-- Pieces without `stop` are kept. -/
theorem cutPieces_append {stop : α} {ws : List (List α)} (hws : ∀ w ∈ ws, stop ∉ w)
    (vs : List (List α)) : cutPieces stop (ws ++ vs) = ws ++ cutPieces stop vs := by
  induction ws with
  | nil => rfl
  | cons w ws ih =>
      rw [List.forall_mem_cons] at hws
      rw [List.cons_append, cutPieces, if_neg hws.1, firstPiece_eq_self_iff.mpr hws.1, ih hws.2,
        List.cons_append]

/-- **More than `n` pieces are left** when there are as many and the first `n` are kept. -/
theorem lt_length_cutPieces_iff {stop : α} (n : ℕ) (ws : List (List α)) :
    n < (cutPieces stop ws).length ↔ n < ws.length ∧ ∀ w ∈ ws.take n, stop ∉ w := by
  induction ws generalizing n with
  | nil => simp [cutPieces]
  | cons w ws ih =>
      cases n with
      | zero => simp [cutPieces]
      | succ n =>
          rw [cutPieces, List.take_succ_cons, List.forall_mem_cons, List.length_cons,
            List.length_cons, Nat.succ_lt_succ_iff, Nat.succ_lt_succ_iff]
          by_cases hstop : stop ∈ w
          · simp [hstop]
          · rw [if_neg hstop, ih]
            simp [hstop]

/-- The symbols of a word stand in the text. -/
theorem mem_of_mem_words {sep : α} {s w : List α} (hw : w ∈ words sep s) {c : α} (hc : c ∈ w) :
    c ∈ s :=
  mem_of_mem_pieces (List.mem_filter.mp hw).1 hc

/-- A word that is read is a word. -/
theorem isWord_of_mem_words {sep : α} {s w : List α} (hw : w ∈ words sep s) : IsWord sep w :=
  ⟨ne_nil_of_mem_words hw, not_mem_of_mem_pieces (List.mem_filter.mp hw).1⟩

/-- A leading separator is skipped. -/
theorem words_cons_sep (sep : α) (s : List α) : words sep (sep :: s) = words sep s := by
  unfold words
  rw [List.splitOn_cons_eq_if_modifyHead, if_pos (beq_self_eq_true sep), List.filter_cons]
  simp

/-- A run of separators in front of a text is skipped. -/
theorem words_replicate_append (sep : α) (n : ℕ) (s : List α) :
    words sep (List.replicate n sep ++ s) = words sep s := by
  induction n with
  | zero => rfl
  | succ n ih => rw [List.replicate_succ, List.cons_append, words_cons_sep, ih]

/-- A text that is one word. -/
theorem words_of_isWord {sep : α} {w : List α} (hw : IsWord sep w) : words sep w = [w] := by
  unfold words
  rw [List.splitOn_eq_singleton hw.2]
  simp [hw.1]

/-- A word, a separator and a rest: the word comes first. -/
theorem words_append_cons {sep : α} {w : List α} (hw : IsWord sep w) (s : List α) :
    words sep (w ++ sep :: s) = w :: words sep s := by
  unfold words
  rw [List.splitOn_append_cons_self_of_not_mem hw.2, List.filter_cons]
  simp [hw.1]

/-- A separator keeps the words on its two sides apart. -/
theorem words_append_sep (sep : α) (s t : List α) :
    words sep (s ++ sep :: t) = words sep s ++ words sep t := by
  unfold words
  rw [List.splitOn_append_cons_self, List.filter_append]

/-- The words fit in the text, with a symbol between any two. -/
theorem sum_words_le (sep : α) (s : List α) :
    ((words sep s).map fun w => w.length + 1).sum ≤ s.length + 1 := by
  induction s using pieces_induction sep with
  | last g hg =>
      by_cases hnil : g = []
      · simp [hnil, words]
      · rw [words_of_isWord ⟨hnil, hg⟩]
        simp
  | piece g s hg ih =>
      by_cases hnil : g = []
      · rw [hnil, List.nil_append, words_cons_sep, List.length_cons]
        omega
      · rw [words_append_cons ⟨hnil, hg⟩, List.map_cons, List.sum_cons, List.length_append,
          List.length_cons]
        omega

/-- Words that are each ended by a separator. -/
theorem words_flatMap_terminated {sep : α} {ws : List (List α)} (hws : ∀ w ∈ ws, IsWord sep w) :
    words sep (ws.flatMap fun w => w ++ [sep]) = ws := by
  induction ws with
  | nil => rfl
  | cons w ws ih =>
      have hrest := ih fun v hv => hws v (List.mem_cons_of_mem w hv)
      rw [List.flatMap_cons, List.append_assoc, List.singleton_append,
        words_append_cons (hws w List.mem_cons_self), hrest]

/-- **Every spacing of a word list reads back as the list.** -/
theorem words_of_spaced {sep : α} {ws : List (List α)} {s : List α}
    (hs : Spaced sep ws s) (hws : ∀ w ∈ ws, IsWord sep w) : words sep s = ws := by
  induction hs with
  | single w => exact words_of_isWord (hws w List.mem_cons_self)
  | @cons w gap ws s _ ih =>
      have hw : IsWord sep w := hws w List.mem_cons_self
      have hrest : words sep s = ws := ih fun v hv => hws v (List.mem_cons_of_mem _ hv)
      rw [List.append_assoc, List.replicate_succ, List.cons_append,
        words_append_cons hw, words_replicate_append, hrest]

/-! ## Positions of words -/

/-- Of the elements that pass, the last stands no earlier than their number says. -/
theorem exists_getElem?_of_filter_ne_nil {β : Type*} {p : β → Bool} {xs : List β}
    (h : xs.filter p ≠ []) :
    ∃ n x, xs[n]? = some x ∧ p x = true ∧ (xs.filter p).length ≤ n + 1 := by
  induction xs with
  | nil => exact absurd rfl h
  | cons y ys ih =>
      by_cases hrest : ys.filter p = []
      · have hy : p y = true := by
          by_contra hy
          exact h (by rw [List.filter_cons_of_neg hy, hrest])
        refine ⟨0, y, rfl, hy, ?_⟩
        rw [List.filter_cons_of_pos hy, hrest]
        rfl
      · obtain ⟨n, x, hx, hpass, hle⟩ := ih hrest
        refine ⟨n + 1, x, hx, hpass, ?_⟩
        rw [List.filter_cons]
        split_ifs
        · exact Nat.succ_le_succ hle
        · exact Nat.le_succ_of_le hle

/-- **The elements that pass keep their positions** exactly when each stands behind others
that pass. -/
theorem filter_getElem?_iff {β : Type*} (p : β → Bool) (xs : List β) :
    (∀ (n : ℕ) x, xs[n]? = some x → p x = true → (xs.filter p)[n]? = some x)
      ↔ xs.Pairwise fun x y => p y = true → p x = true := by
  induction xs with
  | nil => simp
  | cons x xs ih =>
      rw [List.pairwise_cons, ← ih]
      by_cases hx : p x = true
      · rw [List.filter_cons_of_pos hx]
        constructor
        · exact fun h => ⟨fun _ _ _ => hx, fun n y hy hpass => h (n + 1) y hy hpass⟩
        · rintro ⟨-, h⟩ n y hy hpass
          cases n with
          | zero => exact hy
          | succ n => exact h n y hy hpass
      · rw [List.filter_cons_of_neg hx]
        constructor
        · intro h
          -- the last element that passes has moved
          have hnil : xs.filter p = [] := by
            by_contra hne
            obtain ⟨n, y, hy, hpass, hle⟩ := exists_getElem?_of_filter_ne_nil hne
            have hlt := (List.getElem?_eq_some_iff.mp (h (n + 1) y hy hpass)).1
            omega
          rw [List.filter_eq_nil_iff] at hnil
          refine ⟨fun y hy hpass => absurd hpass (hnil y hy), fun n y hy hpass => ?_⟩
          exact absurd hpass (hnil y (List.mem_of_getElem? hy))
        · rintro ⟨h, -⟩ n y hy hpass
          rcases List.mem_cons.mp (List.mem_of_getElem? hy) with rfl | hmem
          · exact absurd hpass hx
          · exact absurd (h y hmem hpass) hx

/-- **Words keep the positions of their pieces** exactly when no empty piece stands in front
of another. -/
theorem words_getElem?_iff (sep : α) (s : List α) :
    (∀ (n : ℕ) w, (pieces sep s)[n]? = some w → w ≠ [] → (words sep s)[n]? = some w)
      ↔ (pieces sep s).Pairwise fun v w => w ≠ [] → v ≠ [] := by
  have h := filter_getElem?_iff (fun w : List α => decide (w ≠ [])) (pieces sep s)
  simp only [decide_eq_true_eq] at h
  exact h

/-! ## Cutting at the first separators -/

/-- The pieces of `s` before its first `n` separators, and then the rest as it is. -/
def cuts (sep : α) : ℕ → List α → List (List α)
  | 0, s => [s]
  | n + 1, s =>
      if sep ∈ s then
        s.takeWhile (· ≠ sep) :: cuts sep n ((s.dropWhile (· ≠ sep)).drop 1)
      else [s]

/-- A piece in front of a separator is cut off. -/
theorem cuts_append_cons {sep : α} {p : List α} (hp : sep ∉ p) (n : ℕ) (s : List α) :
    cuts sep (n + 1) (p ++ sep :: s) = p :: cuts sep n s := by
  have hall : ∀ c ∈ p, decide (c ≠ sep) = true := by
    intro c hc
    rw [decide_eq_true_iff]
    rintro rfl
    exact hp hc
  rw [cuts, if_pos (by simp), List.takeWhile_append_of_pos hall, List.dropWhile_append_of_pos hall,
    List.takeWhile_cons_of_neg (by simp), List.dropWhile_cons_of_neg (by simp)]
  simp

/-- All the pieces that are cut off, and the rest, make up the text. -/
theorem eq_flatMap_append_of_cuts {sep : α} {n : ℕ} :
    ∀ {s r : List α} {ps : List (List α)}, ps.length = n → cuts sep n s = ps ++ [r] →
      s = (ps.flatMap fun p => p ++ [sep]) ++ r ∧ ∀ p ∈ ps, sep ∉ p := by
  induction n with
  | zero =>
      intro s r ps hlength h
      obtain rfl := List.length_eq_zero_iff.mp hlength
      rw [cuts, List.nil_append] at h
      exact ⟨(List.cons.inj h).1, by simp⟩
  | succ n ih =>
      intro s r ps hlength h
      obtain ⟨p, ps, rfl⟩ := List.exists_cons_of_length_eq_add_one hlength
      by_cases hsep : sep ∈ s
      · obtain ⟨g, t, rfl, hg⟩ := List.eq_append_cons_of_mem hsep
        rw [cuts_append_cons hg, List.cons_append] at h
        obtain ⟨rfl, hrest⟩ := List.cons.inj h
        obtain ⟨htext, hps⟩ := ih (Nat.succ.inj hlength) hrest
        refine ⟨?_, List.forall_mem_cons.mpr ⟨hg, hps⟩⟩
        rw [List.flatMap_cons, List.append_assoc, ← htext, List.append_assoc]
        rfl
      · rw [cuts, if_neg hsep] at h
        simp at h

/-- Behind more separators than are cut at, the rest begins in front of one. -/
theorem exists_append_of_cuts {sep : α} {n : ℕ} {s t r : List α} (ps : List (List α))
    (hlength : ps.length = n) (h : cuts sep n (s ++ t) = ps ++ [r]) (hcount : n < s.count sep) :
    ∃ u, sep ∈ u ∧ r = u ++ t := by
  obtain ⟨htext, hps⟩ := eq_flatMap_append_of_cuts hlength h
  have hfront : (ps.flatMap fun p => p ++ [sep]).count sep = n := by
    rw [← hlength]
    clear h hlength htext
    induction ps with
    | nil => rfl
    | cons p ps ih =>
        rw [List.forall_mem_cons] at hps
        rw [List.flatMap_cons, List.count_append, List.count_append, ih hps.2,
          List.count_eq_zero_of_not_mem hps.1, List.count_singleton_self, List.length_cons]
        omega
  rcases List.prefix_or_prefix_of_prefix ⟨t, rfl⟩ ⟨r, htext.symm⟩ with hle | ⟨u, hu⟩
  · have hcounts := hle.sublist.count_le sep
    omega
  · refine ⟨u, ?_, ?_⟩
    · rw [← hu, List.count_append, hfront] at hcount
      exact List.count_pos_iff.mp (by omega)
    · rw [← hu, List.append_assoc] at htext
      exact (List.append_cancel_left htext).symm

end Words
