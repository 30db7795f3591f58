/-
# The shape of a shell command text

The shape of a text is the order in which words begin and active characters stand in it,
and whether it ends outside quotes.  What a character adds to it depends on the scanner's
mode alone, so a text acts on the seven modes; command substitutions are not entered.

`ActAlike` texts may replace each other in any text.  `actAlike_of_shape` is the converse:
texts that may replace each other, in front of a fixed end and behind any beginning, act
alike, since every two modes are told apart by one of six short texts.
-/
import Mathlib.Data.List.Basic
import Mathlib.Tactic.Common
import NagiosTrapd.ShellWords

namespace ShellWords

/-! ## Modes and marks -/

/-- What makes up a shape. -/
inductive Mark
  | word
  | active (c : Char)
  deriving DecidableEq, Repr

/-- The character of a mark, if it has one. -/
def Mark.char : Mark → Option Char
  | .word => none
  | .active c => some c

namespace Mode

/-- The scanner in a mode, with nothing read. -/
def scanner (m : Mode) : Scan := ⟨m, [], [], []⟩

/-- The mode behind a character. -/
def next (m : Mode) (c : Char) : Mode := (step m.scanner c).mode

/-- The mode behind a text. -/
def after (m : Mode) (t : List Char) : Mode := t.foldl next m

/-- A word is being read. -/
def inWord : Mode → Bool
  | blank | comment => false
  | _ => true

/-- A text may end here. -/
def closed : Mode → Bool
  | blank | bare | comment => true
  | _ => false

/-- What a character adds to the shape: a word that it begins, and itself if it is active. -/
def marks (m : Mode) (c : Char) : List Mark :=
  (if m = .blank ∧ (m.next c).inWord then [.word] else [])
    ++ (step m.scanner c).active.map .active

/-- What a text adds to the shape. -/
def shape (m : Mode) : List Char → List Mark
  | [] => []
  | c :: t => m.marks c ++ (m.next c).shape t

/-- The empty text leads nowhere. -/
@[simp] theorem after_nil (m : Mode) : m.after [] = m := rfl

/-- A text leads on from its first character. -/
theorem after_cons (m : Mode) (c : Char) (t : List Char) : m.after (c :: t) = (m.next c).after t :=
  rfl

/-- Two texts lead on one behind the other. -/
theorem after_append (m : Mode) (t u : List Char) : m.after (t ++ u) = (m.after t).after u :=
  List.foldl_append

/-- The empty text has no marks. -/
@[simp] theorem shape_nil (m : Mode) : m.shape [] = [] := rfl

/-- A text has the marks of its first character in front. -/
theorem shape_cons (m : Mode) (c : Char) (t : List Char) :
    m.shape (c :: t) = m.marks c ++ (m.next c).shape t := rfl

/-- Two texts have the marks of both. -/
theorem shape_append (m : Mode) (t u : List Char) :
    m.shape (t ++ u) = m.shape t ++ (m.after t).shape u := by
  induction t generalizing m with
  | nil => rfl
  | cons c t ih => rw [List.cons_append, shape_cons, ih, shape_cons, after_cons, List.append_assoc]

end Mode

/-! ## Shapes and words -/

/-- The shape of a text: its marks, and whether it ends outside quotes. -/
def shapeOf (t : List Char) : List Mark × Bool :=
  (Mode.shape .blank t, (Mode.after .blank t).closed)

/-- The number of words begun. -/
def Scan.begun (s : Scan) : ℕ := s.words.length + if s.mode.inWord then 1 else 0

/-- A character that continues or starts a word leaves the scanner in it. -/
theorem unquoted_scanner (s : Scan) (c : Char) :
    (s.unquoted c).mode = (s.mode.scanner.unquoted c).mode ∧
      (s.unquoted c).active = s.active ++ (s.mode.scanner.unquoted c).active ∧
      (s.unquoted c).words = s.words ∧ (s.unquoted c).mode.inWord = true := by
  unfold Scan.unquoted
  split_ifs <;> simp [Scan.put, Scan.activate, Mode.scanner, Mode.inWord]

/-- What a step does is settled by the mode and the character. -/
theorem step_scanner (s : Scan) (c : Char) :
    (step s c).mode = (step s.mode.scanner c).mode ∧
      (step s c).active = s.active ++ (step s.mode.scanner c).active ∧
      (step s c).words.length = s.words.length + (step s.mode.scanner c).words.length := by
  obtain ⟨hmode, hactive, hwords, -⟩ := unquoted_scanner s c
  have hnone := (unquoted_scanner s.mode.scanner c).2.2.1
  obtain ⟨m, word, words, active⟩ := s
  have hunquoted : (Scan.unquoted ⟨m, word, words, active⟩ c).words.length
      = words.length + (m.scanner.unquoted c).words.length := by
    rw [hwords, hnone]
    rfl
  cases m with
  | bareEscape | doubleEscape => simp [step, Mode.scanner, Scan.put]
  | blank =>
      simp only [step, Mode.scanner]
      split_ifs
      · simp
      · simp [Scan.activate]
      · simp
      · simp [Scan.activate, Scan.put]
      · exact ⟨hmode, hactive, hunquoted⟩
  | bare =>
      simp only [step, Mode.scanner]
      split_ifs
      · simp [Scan.finish]
      · simp [Scan.finish, Scan.activate]
      · exact ⟨hmode, hactive, hunquoted⟩
  | double | single | comment =>
      simp only [step, Mode.scanner]
      split_ifs <;> simp [Scan.put, Scan.activate]

/-- A word that is being read goes on or is finished. -/
theorem begun_of_inWord {m : Mode} (hm : m.inWord) (c : Char) : (step m.scanner c).begun = 1 := by
  cases m with
  | blank | comment => exact absurd hm (by decide)
  | bareEscape | doubleEscape => rfl
  | bare =>
      obtain ⟨-, -, hwords, hword⟩ := unquoted_scanner (Mode.scanner .bare) c
      simp only [step, Mode.scanner]
      split_ifs
      · rfl
      · rfl
      · show (Scan.unquoted (Mode.scanner .bare) c).begun = 1
        rw [Scan.begun, if_pos hword, hwords]
        rfl
  | double | single =>
      simp only [step, Mode.scanner]
      split_ifs <;> rfl

/-- Between words none is finished. -/
theorem words_of_not_inWord {m : Mode} (hm : m.inWord = false) (c : Char) :
    (step m.scanner c).words = [] := by
  cases m with
  | blank =>
      have hwords := (unquoted_scanner (Mode.scanner .blank) c).2.2.1
      simp only [step, Mode.scanner]
      split_ifs
      · rfl
      · rfl
      · rfl
      · rfl
      · exact hwords
  | comment =>
      simp only [step, Mode.scanner]
      split_ifs <;> rfl
  | _ => exact absurd hm (by decide)

/-- In a comment no word is read. -/
theorem inWord_next_comment (c : Char) : (Mode.next .comment c).inWord = false := by
  simp only [Mode.next, step, Mode.scanner]
  split_ifs <;> rfl

/-- The words begun are the word marks. -/
theorem begun_scanner (m : Mode) (c : Char) :
    (step m.scanner c).begun = m.scanner.begun + (m.marks c).count .word := by
  have hmarks : (m.marks c).count .word = if m = .blank ∧ (m.next c).inWord then 1 else 0 := by
    have hactive : ((step m.scanner c).active.map Mark.active).count .word = 0 := by
      apply List.count_eq_zero_of_not_mem
      simp
    rw [Mode.marks, List.count_append, hactive]
    split_ifs <;> rfl
  rw [hmarks]
  cases hm : m.inWord with
  | true =>
      have hblank : m ≠ .blank := by
        rintro rfl
        exact absurd hm (by decide)
      have hbegun : m.scanner.begun = 1 := by simp [Scan.begun, Mode.scanner, hm]
      rw [begun_of_inWord hm, hbegun, if_neg fun h => hblank h.1]
  | false =>
      have hbegun : m.scanner.begun = 0 := by simp [Scan.begun, Mode.scanner, hm]
      rw [hbegun, Scan.begun, words_of_not_inWord hm]
      cases m with
      | blank => simp [Mode.next]
      | comment =>
          have hnext := inWord_next_comment c
          unfold Mode.next at hnext
          simp [hnext]
      | _ => exact absurd hm (by decide)

/-- The next mode depends on the mode alone. -/
theorem mode_step (s : Scan) (c : Char) : (step s c).mode = s.mode.next c := (step_scanner s c).1

/-- So do the characters that become active. -/
theorem active_step (s : Scan) (c : Char) :
    (step s c).active = s.active ++ (s.mode.marks c).filterMap Mark.char := by
  have hchar : ∀ l : List Char, (l.map Mark.active).filterMap Mark.char = l := by
    intro l
    rw [List.filterMap_map]
    exact List.filterMap_some
  have hword : (s.mode.marks c).filterMap Mark.char = (step s.mode.scanner c).active := by
    unfold Mode.marks
    rw [List.filterMap_append, hchar]
    split_ifs <;> rfl
  rw [hword]
  exact (step_scanner s c).2.1

/-- So does the number of words that begin. -/
theorem begun_step (s : Scan) (c : Char) :
    (step s c).begun = s.begun + (s.mode.marks c).count .word := by
  obtain ⟨hmode, -, hwords⟩ := step_scanner s c
  have hscanner := begun_scanner s.mode c
  unfold Scan.begun at hscanner ⊢
  rw [hmode, hwords]
  have hnone : s.mode.scanner.words.length = 0 := rfl
  have hsame : s.mode.scanner.mode = s.mode := rfl
  rw [hsame] at hscanner
  omega

/-- **The scanner reads a text by its mode and shape.** -/
theorem scan_shape (s : Scan) (t : List Char) :
    (scan s t).mode = s.mode.after t ∧
      (scan s t).active = s.active ++ (s.mode.shape t).filterMap Mark.char ∧
      (scan s t).begun = s.begun + (s.mode.shape t).count .word := by
  induction t generalizing s with
  | nil => simp
  | cons c t ih =>
      obtain ⟨hmode, hactive, hbegun⟩ := ih (step s c)
      rw [mode_step] at hmode hactive hbegun
      rw [scan_cons, hmode, hactive, hbegun, active_step, begun_step, Mode.after_cons,
        Mode.shape_cons, List.filterMap_append, List.count_append, List.append_assoc, Nat.add_assoc]
      exact ⟨rfl, rfl, rfl⟩

/-- The number of words of a text. -/
theorem length_allWords (s : Scan) :
    s.allWords.map List.length = if s.mode.closed then some s.begun else none := by
  unfold Scan.allWords Scan.begun
  cases s.mode <;> simp [Mode.closed, Mode.inWord]

/-- **Texts of one shape** have as many words and the same active characters, in the same
order. -/
theorem words_of_shapeOf {t u : List Char} (h : shapeOf t = shapeOf u) :
    (scan .start t).allWords.map List.length = (scan .start u).allWords.map List.length ∧
      (scan .start t).active = (scan .start u).active := by
  obtain ⟨hmarks, hclosed⟩ := Prod.mk.inj h
  obtain ⟨htmode, htactive, htbegun⟩ := scan_shape .start t
  obtain ⟨humode, huactive, hubegun⟩ := scan_shape .start u
  have hstart : Scan.start.mode = .blank := rfl
  rw [hstart] at htmode htactive htbegun humode huactive hubegun
  rw [length_allWords, length_allWords, htmode, humode, hclosed, htbegun, hubegun, htactive,
    huactive, hmarks]
  exact ⟨rfl, rfl⟩

/-! ## Texts that act alike -/

/-- Two texts leave every mode in the same mode, with the same marks. -/
def ActAlike (t u : List Char) : Prop := ∀ m : Mode, m.shape t = m.shape u ∧ m.after t = m.after u

/-- A text acts like itself. -/
theorem ActAlike.refl (t : List Char) : ActAlike t t := fun _ => ⟨rfl, rfl⟩

/-- Texts that act alike do so one behind the other. -/
theorem ActAlike.append {t u t' u' : List Char} (h : ActAlike t u) (h' : ActAlike t' u') :
    ActAlike (t ++ t') (u ++ u') := by
  intro m
  rw [Mode.shape_append, Mode.shape_append, Mode.after_append, Mode.after_append, (h m).1, (h m).2,
    (h' _).1, (h' _).2]
  exact ⟨rfl, rfl⟩

/-- Two texts have the same marks in every mode, and both or neither may be the end. -/
def EndAlike (t u : List Char) : Prop :=
  ∀ m : Mode, m.shape t = m.shape u ∧ (m.after t).closed = (m.after u).closed

/-- They are alike at the end too. -/
theorem ActAlike.endAlike {t u : List Char} (h : ActAlike t u) : EndAlike t u :=
  fun m => ⟨(h m).1, by rw [(h m).2]⟩

/-- **Texts that act alike replace each other** in front of ends that are alike. -/
theorem ActAlike.shapeOf_append {t u c d : List Char} (h : ActAlike t u) (hend : EndAlike c d) :
    shapeOf (t ++ c) = shapeOf (u ++ d) := by
  obtain ⟨hshape, hafter⟩ := h .blank
  obtain ⟨hmarks, hclosed⟩ := hend (Mode.after .blank u)
  unfold shapeOf
  rw [Mode.shape_append, Mode.shape_append, Mode.after_append, Mode.after_append, hshape, hafter,
    hmarks, hclosed]

/-- Ordinary characters act alike. -/
theorem step_scanner_ordinary {c : Char} (hc : isOrdinary c) (m : Mode) :
    m.next c = m.next 'a' ∧ m.marks c = m.marks 'a' := by
  have hstep : m.next c = m.next 'a' ∧
      (step m.scanner c).active = (step m.scanner 'a').active := by
    cases m with
    | blank | bare =>
        unfold Mode.next
        rw [step_ordinary (by simp [Mode.scanner]) hc, step_ordinary (by simp [Mode.scanner]) rfl]
        exact ⟨rfl, rfl⟩
    | bareEscape | doubleEscape => exact ⟨rfl, rfl⟩
    | double | single | comment =>
        simp only [isOrdinary, isOperator, isExpansion, Bool.not_eq_true', Bool.or_eq_false_iff,
          decide_eq_false_iff_not, List.mem_cons, List.not_mem_nil, or_false, not_or] at hc
        simp [Mode.next, Mode.scanner, step, hc, Scan.put]
  rw [Mode.marks, Mode.marks, hstep.1, hstep.2]
  exact ⟨rfl, rfl⟩

/-- A second ordinary character adds nothing. -/
theorem next_next_ordinary (m : Mode) :
    (m.next 'a').next 'a' = m.next 'a' ∧ (m.next 'a').marks 'a' = [] := by
  cases m <;> decide

/-- Ordinary characters, at least one of them, act like a single one. -/
theorem actAlike_ordinary_cons {c : Char} {t : List Char} (h : ∀ d ∈ c :: t, isOrdinary d) :
    ActAlike (c :: t) ['a'] := by
  intro m
  obtain ⟨hnext, hmarks⟩ := step_scanner_ordinary (h c List.mem_cons_self) m
  rw [Mode.shape_cons, Mode.shape_cons, Mode.after_cons, Mode.after_cons, hnext, hmarks]
  have hrest : (m.next 'a').shape t = [] ∧ (m.next 'a').after t = m.next 'a' := by
    have ht : ∀ d ∈ t, isOrdinary d := fun d hd => h d (List.mem_cons_of_mem _ hd)
    clear h hnext hmarks
    induction t with
    | nil => exact ⟨rfl, rfl⟩
    | cons d t ih =>
        obtain ⟨hnext, hmarks⟩ := step_scanner_ordinary (ht d List.mem_cons_self) (m.next 'a')
        obtain ⟨hsame, hnone⟩ := next_next_ordinary m
        rw [Mode.shape_cons, Mode.after_cons, hnext, hmarks, hsame, hnone]
        exact ih fun e he => ht e (List.mem_cons_of_mem _ he)
  rw [hrest.1, hrest.2]
  exact ⟨rfl, rfl⟩

/-- Ordinary texts act alike. -/
theorem actAlike_ordinary {t u : List Char} (ht : t ≠ []) (hu : u ≠ [])
    (hto : ∀ c ∈ t, isOrdinary c) (huo : ∀ c ∈ u, isOrdinary c) : ActAlike t u := by
  obtain ⟨c, t, rfl⟩ := List.exists_cons_of_ne_nil ht
  obtain ⟨d, u, rfl⟩ := List.exists_cons_of_ne_nil hu
  intro m
  obtain ⟨hshape, hafter⟩ := actAlike_ordinary_cons hto m
  obtain ⟨hshape', hafter'⟩ := actAlike_ordinary_cons huo m
  exact ⟨hshape.trans hshape'.symm, hafter.trans hafter'.symm⟩

/-! ## Telling modes apart -/

/-- A text that leads to a mode. -/
def Mode.opening : Mode → List Char
  | .blank => " ".toList
  | .bare => "a".toList
  | .bareEscape => "\\".toList
  | .double => "\"".toList
  | .doubleEscape => "\"\\".toList
  | .single => "'".toList
  | .comment => "#".toList

/-- A shell reads it so. -/
theorem after_opening (m : Mode) : Mode.after .blank m.opening = m := by
  cases m <;> decide

/-- Behind the same beginning, texts of one shape are alike in the mode that it leads to. -/
theorem shape_of_beginning {b t u : List Char} (h : shapeOf (b ++ t) = shapeOf (b ++ u)) :
    (Mode.after .blank b).shape t = (Mode.after .blank b).shape u ∧
      ((Mode.after .blank b).after t).closed = ((Mode.after .blank b).after u).closed := by
  obtain ⟨hmarks, hclosed⟩ := Prod.mk.inj h
  rw [Mode.shape_append, Mode.shape_append] at hmarks
  rw [Mode.after_append, Mode.after_append] at hclosed
  exact ⟨List.append_cancel_left hmarks, hclosed⟩

/-- Texts behind which the modes that they tell apart are those behind `a`. -/
def probes : List (List Char) :=
  ["a*".toList, "a`".toList, "*".toList, "`".toList, " a".toList, "'*'".toList]

/-- **Every two modes are told apart** by how many marks a probe adds more than `a`. -/
theorem exists_probe {m n : Mode} (h : m ≠ n) : ∃ p ∈ probes,
    m.after p = m.after ['a'] ∧ n.after p = n.after ['a'] ∧
      (m.shape p).length + (n.shape ['a']).length
        ≠ (n.shape p).length + (m.shape ['a']).length := by
  revert h
  cases m <;> cases n <;> decide

/-- **Texts that may replace each other act alike**, when the ends behind them have the same
marks in every mode. -/
theorem actAlike_of_shape {t u c d : List Char} (hend : ∀ m : Mode, m.shape c = m.shape d)
    (h : ∀ m : Mode, ∀ p ∈ ['a'] :: probes,
      m.shape (t ++ (p ++ c)) = m.shape (u ++ (p ++ d))) : ActAlike t u := by
  intro m
  have hsplit : ∀ p ∈ ['a'] :: probes,
      m.shape t ++ ((m.after t).shape p ++ ((m.after t).after p).shape c)
        = m.shape u ++ ((m.after u).shape p ++ ((m.after u).after p).shape c) := by
    intro p hp
    have hp' := h m p hp
    rw [Mode.shape_append, Mode.shape_append, Mode.shape_append, Mode.shape_append] at hp'
    rwa [hend ((m.after u).after p)]
  have ha := hsplit ['a'] List.mem_cons_self
  have hafter : m.after t = m.after u := by
    by_contra hne
    obtain ⟨p, hp, ht, hu, hlength⟩ := exists_probe hne
    have hprobe := hsplit p (List.mem_cons_of_mem _ hp)
    rw [ht, hu] at hprobe
    have hla := congrArg List.length ha
    have hlp := congrArg List.length hprobe
    simp only [List.length_append] at hla hlp
    omega
  rw [hafter] at ha
  exact ⟨List.append_cancel_right ha, hafter⟩

end ShellWords
