/-
# The file name of a command (`util.c`)

`extract_filename` counts characters up to a blank.  Where it leaves the loop at a blank the
counter is taken back by one, so that it is the index of the last character of the name; at
the end of the command it is the length of the name.  The copy is of one byte more in both
cases, which is the terminator of the command in the second.

**Main result:** `filename_iff`: the name is extracted exactly when it is not a single
character with a blank behind it, and its length fits into the `int`s of the function.
-/
import NagiosTrapd.Blocks
import NagiosTrapd.Util

namespace Trapd

open Blocks

/-! ## The function, byte by byte -/

/-- A sum of `int`s that is not undefined. -/
def intAdd (a b : ℤ) : Option ℤ := if a + b ≤ INT_MAX then some (a + b) else none

/-- The characters that end a file name. -/
def filenameEnds : Str := [' ', '\t', '\n']

/-- The loop of `extract_filename`: the counter behind it. -/
def filenameLoop : ℤ → Str → Option ℤ
  | i, [] => some i
  | i, c :: s =>
      if c ∈ filenameEnds then intAdd i (-1)
      else (intAdd i 1).bind fun i => filenameLoop i s

/-- The copy that is returned, and how many bytes of the command have been read for it. -/
structure FilenameCopy where
  filename : Block Char
  copied : ℕ
  deriving DecidableEq, Repr

/-- The copy for a counter: `i + 1` bytes of the command, and a terminator. -/
def copyFilename (command : Str) (i : ℤ) : Option FilenameCopy :=
  (intAdd i 2).map fun size =>
    let copied := (i + 1).toNat
    let filename := (Block.alloc size.toNat).store 0 ((command ++ ['\x00']).take copied)
    ⟨filename.put copied '\x00', copied⟩

/-- `extract_filename`: `none` is undefined behaviour of the arithmetic, `some none` NULL. -/
def extractFilenameCopy (command : Option Str) : Option (Option FilenameCopy) :=
  match command with
  | none => some none
  | some s =>
      if s.length = 0 then some none
      else (filenameLoop 0 s).bind fun i =>
        if i ≤ 0 then some none else (copyFilename s i).map some

/-! ## The longest prefix without blanks -/

/-- The longest prefix without space, tab and newline. -/
def plainPrefix (s : Str) : Str := s.takeWhile (· ∉ filenameEnds)

section

variable {p : Str} (hp : ∀ c ∈ p, c ∉ filenameEnds)
include hp

theorem plainPrefix_end : plainPrefix p = p := by
  unfold plainPrefix
  rw [List.takeWhile_eq_self_iff]
  simpa using hp

theorem plainPrefix_blank {c : Char} (hc : c ∈ filenameEnds) (s : Str) :
    plainPrefix (p ++ c :: s) = p := by
  unfold plainPrefix
  rw [List.takeWhile_append_of_pos (by simpa using hp),
    List.takeWhile_cons_of_neg (by simpa using hc), List.append_nil]

/-- The loop counts the characters of the name. -/
theorem filenameLoop_append (s : Str) :
    ∀ i : ℤ, i ≤ INT_MAX → filenameLoop i (p ++ s)
      = if i + p.length ≤ INT_MAX then filenameLoop (i + p.length) s else none := by
  induction p with
  | nil =>
      intro i hi
      simp [hi]
  | cons c p ih =>
      intro i hi
      have hc : c ∉ filenameEnds := hp c List.mem_cons_self
      have hrest := ih (fun d hd => hp d (List.mem_cons_of_mem c hd))
      have hlen : i + ((c :: p).length : ℤ) = i + 1 + p.length := by
        rw [List.length_cons]
        omega
      rw [List.cons_append, filenameLoop, if_neg hc, intAdd, hlen]
      by_cases hnext : i + 1 ≤ INT_MAX
      · rw [if_pos hnext, Option.bind_some, hrest (i + 1) hnext]
      · rw [if_neg hnext, if_neg (by omega), Option.bind_none]

/-- A command that is a name. -/
theorem filenameLoop_end :
    filenameLoop 0 p = if (p.length : ℤ) ≤ INT_MAX then some (p.length : ℤ) else none := by
  have h := filenameLoop_append hp [] 0 (by decide)
  rw [List.append_nil, zero_add] at h
  exact h

/-- A name with a blank behind it. -/
theorem filenameLoop_blank {c : Char} (hc : c ∈ filenameEnds) (s : Str) :
    filenameLoop 0 (p ++ c :: s)
      = if (p.length : ℤ) ≤ INT_MAX then some ((p.length : ℤ) - 1) else none := by
  rw [filenameLoop_append hp (c :: s) 0 (by decide), zero_add]
  split_ifs with hlen
  · rw [filenameLoop, if_pos hc, intAdd, if_pos (by omega), Int.sub_eq_add_neg]
  · rfl

end

/-- A command ends with its name, or has a blank behind it. -/
theorem command_cases (s : Str) :
    ∃ p, (∀ c ∈ p, c ∉ filenameEnds) ∧ (s = p ∨ ∃ c ∈ filenameEnds, ∃ t, s = p ++ c :: t) := by
  induction s with
  | nil => exact ⟨[], by simp, Or.inl rfl⟩
  | cons c s ih =>
      by_cases hc : c ∈ filenameEnds
      · exact ⟨[], by simp, Or.inr ⟨c, hc, s, rfl⟩⟩
      · obtain ⟨p, hp, hs⟩ := ih
        refine ⟨c :: p, fun d hd => ?_, ?_⟩
        · rcases List.mem_cons.mp hd with rfl | hd
          · exact hc
          · exact hp d hd
        · rcases hs with rfl | ⟨d, hd, t, rfl⟩
          · exact Or.inl rfl
          · exact Or.inr ⟨d, hd, t, rfl⟩

/-! ## The copy -/

/-- The bytes that are copied, and the terminator. -/
theorem copyFilename_eq_some {s text : Str} {i : ℤ} (hi : 0 ≤ i) (hsize : i + 2 ≤ INT_MAX)
    (hlength : (text.length : ℤ) = i + 1) (htext : text <+: s ++ ['\x00']) :
    ∃ copy, copyFilename s i = some copy ∧ Holds copy.filename (text ++ ['\x00']) ∧
      copy.copied ≤ s.length + 1 := by
  have hcopied : (i + 1).toNat = text.length := by omega
  have htake : (s ++ ['\x00']).take text.length = text := (List.prefix_iff_eq_take.mp htext).symm
  have hstored : Holds ((Block.alloc (i + 2).toNat).store 0 text) text := by
    have halloc : Holds (Block.alloc (i + 2).toNat : Block Char) [] := Holds.alloc _
    apply halloc.store
    rw [Block.size_alloc, List.length_nil]
    omega
  refine ⟨_, by rw [copyFilename, intAdd, if_pos hsize, Option.map_some], ?_, ?_⟩
  · dsimp only
    rw [hcopied, htake]
    apply hstored.put
    rw [Block.size_store, Block.size_alloc]
    omega
  · dsimp only
    have hle := htext.length_le
    rw [List.length_append, List.length_singleton] at hle
    omega

/-- A counter for which there is no `int` that is the size of the copy. -/
theorem copyFilename_eq_none {s : Str} {i : ℤ} (hsize : ¬ i + 2 ≤ INT_MAX) :
    copyFilename s i = none := by
  rw [copyFilename, intAdd, if_neg hsize, Option.map_none]

/-! ## The two exits of the loop -/

/-- A command that is a name: the counter is its length. -/
theorem extractFilenameCopy_end {p : Str} (hp : ∀ c ∈ p, c ∉ filenameEnds) (hne : p ≠ []) :
    extractFilenameCopy (some p) = (copyFilename p p.length).map some := by
  have hpos := List.length_pos_of_ne_nil hne
  simp only [extractFilenameCopy, if_neg (Nat.ne_of_gt hpos), filenameLoop_end hp]
  split_ifs with hlen
  · rw [Option.bind_some, if_neg (by omega)]
  · rw [Option.bind_none, copyFilename_eq_none (by omega), Option.map_none]

/-- A name with a blank behind it: the counter is its length less one, and NULL is returned
for a single character. -/
theorem extractFilenameCopy_blank {p : Str} (hp : ∀ c ∈ p, c ∉ filenameEnds) {c : Char}
    (hc : c ∈ filenameEnds) (t : Str) :
    extractFilenameCopy (some (p ++ c :: t))
      = if p.length ≤ 1 then some none
        else (copyFilename (p ++ c :: t) (p.length - 1)).map some := by
  have hlength : ¬ (p ++ c :: t).length = 0 := by simp
  have hmax : 1 ≤ INT_MAX := by decide
  simp only [extractFilenameCopy, if_neg hlength, filenameLoop_blank hp hc]
  by_cases hlen : (p.length : ℤ) ≤ INT_MAX
  · rw [if_pos hlen, Option.bind_some]
    by_cases hone : p.length ≤ 1
    · rw [if_pos hone, if_pos (by omega)]
    · rw [if_neg hone, if_neg (by omega)]
  · rw [if_neg hlen, if_neg (by omega), Option.bind_none, copyFilename_eq_none (by omega),
      Option.map_none]

/-- The copy of a command that is a name; its terminator is copied along. -/
theorem copyFilename_end {p : Str} (hsize : (p.length : ℤ) + 2 ≤ INT_MAX) :
    ∃ copy, copyFilename p p.length = some copy ∧ Holds copy.filename (p ++ ['\x00']) ∧
      copy.copied ≤ p.length + 1 := by
  have hlength : ((p ++ ['\x00']).length : ℤ) = (p.length : ℤ) + 1 := by simp
  obtain ⟨copy, hcopy, hholds, hread⟩ :=
    copyFilename_eq_some (by omega) hsize hlength (List.prefix_refl _)
  exact ⟨copy, hcopy, hholds.left, hread⟩

/-- The copy of a name with something behind it. -/
theorem copyFilename_blank {p : Str} (hne : p ≠ []) (hsize : (p.length : ℤ) + 1 ≤ INT_MAX)
    (t : Str) :
    ∃ copy, copyFilename (p ++ t) (p.length - 1) = some copy ∧
      Holds copy.filename (p ++ ['\x00']) ∧ copy.copied ≤ (p ++ t).length + 1 := by
  have hpos := List.length_pos_of_ne_nil hne
  have hcount : (p.length : ℤ) = (p.length : ℤ) - 1 + 1 := by omega
  have hprefix : p <+: p ++ t ++ ['\x00'] := by
    rw [List.append_assoc]
    exact List.prefix_append p _
  exact copyFilename_eq_some (by omega) (by omega) hcount hprefix

/-! ## The result -/

/-- The name is the longest prefix without blanks, NULL if it is empty; it is extracted
without undefined arithmetic and without access outside the command and the copy. -/
def FilenameExtracted (s : Str) : Prop :=
  ∃ result, extractFilenameCopy (some s) = some result ∧
    if plainPrefix s = [] then result = none
    else ∃ copy, result = some copy ∧ Holds copy.filename (plainPrefix s ++ ['\x00']) ∧
      copy.copied ≤ s.length + 1

/-- The name is no single character with a blank behind it, and its length fits into the
`int`s of the function. -/
def FilenameFits (s : Str) : Prop :=
  let name := plainPrefix s
  if name.length = s.length then (name.length : ℤ) + 2 ≤ INT_MAX
  else name.length ≠ 1 ∧ (name.length : ℤ) + 1 ≤ INT_MAX

theorem filenameExtracted_end {p : Str} (hp : ∀ c ∈ p, c ∉ filenameEnds) :
    FilenameExtracted p ↔ (p.length : ℤ) + 2 ≤ INT_MAX := by
  unfold FilenameExtracted
  rw [plainPrefix_end hp]
  by_cases hnil : p = []
  · subst hnil
    exact iff_of_true ⟨none, rfl, by simp⟩ (by decide)
  · rw [extractFilenameCopy_end hp hnil]
    simp only [if_neg hnil]
    by_cases hsize : (p.length : ℤ) + 2 ≤ INT_MAX
    · obtain ⟨copy, hcopy, hholds, hread⟩ := copyFilename_end hsize
      rw [hcopy]
      exact iff_of_true ⟨some copy, rfl, copy, rfl, hholds, hread⟩ hsize
    · rw [copyFilename_eq_none hsize]
      exact iff_of_false (by simp) hsize

theorem filenameExtracted_blank {p : Str} (hp : ∀ c ∈ p, c ∉ filenameEnds) {c : Char}
    (hc : c ∈ filenameEnds) (t : Str) :
    FilenameExtracted (p ++ c :: t) ↔ p.length ≠ 1 ∧ (p.length : ℤ) + 1 ≤ INT_MAX := by
  unfold FilenameExtracted
  rw [plainPrefix_blank hp hc, extractFilenameCopy_blank hp hc]
  by_cases hnil : p = []
  · subst hnil
    exact iff_of_true ⟨none, rfl, by simp⟩ (by decide)
  · have hpos := List.length_pos_of_ne_nil hnil
    simp only [if_neg hnil]
    by_cases hone : p.length ≤ 1
    · rw [if_pos hone]
      exact iff_of_false (by simp) fun h => h.1 (by omega)
    · rw [if_neg hone]
      by_cases hsize : (p.length : ℤ) + 1 ≤ INT_MAX
      · obtain ⟨copy, hcopy, hholds, hread⟩ := copyFilename_blank hnil hsize (c :: t)
        rw [hcopy]
        exact iff_of_true ⟨some copy, rfl, copy, rfl, hholds, hread⟩ ⟨by omega, hsize⟩
      · rw [copyFilename_eq_none (by omega)]
        exact iff_of_false (by simp) fun h => hsize h.2

/-- **When the file name of a command is extracted**: when it is no single character with a
blank behind it, and short enough for the `int`s of the function. -/
theorem filename_iff (s : Str) : FilenameExtracted s ↔ FilenameFits s := by
  obtain ⟨p, hp, rfl | ⟨c, hc, t, rfl⟩⟩ := command_cases s
  · rw [filenameExtracted_end hp, FilenameFits, plainPrefix_end hp, if_pos rfl]
  · rw [filenameExtracted_blank hp hc, FilenameFits, plainPrefix_blank hp hc, if_neg (by simp)]

/-- A name of one character with an argument behind it is not extracted. -/
theorem not_filename : ¬ ∀ s : Str, FilenameExtracted s := by
  intro h
  have hname : ∀ c ∈ ['p'], c ∉ filenameEnds := by simp [filenameEnds]
  have hblank : ' ' ∈ filenameEnds := by decide
  exact ((filenameExtracted_blank hname hblank ['x']).mp (h _)).1 rfl

/-! ## The name as a string -/

/-- `extractFilename` of a command that is a name. -/
theorem extractFilename_end {p : Str} (hp : ∀ c ∈ p, c ∉ filenameEnds) (hne : p ≠ []) :
    extractFilename (some p) = some p := by
  have hpos := List.length_pos_of_ne_nil hne
  have hstop : p.findIdx (· ∈ [' ', '\t', '\n']) = p.length :=
    List.findIdx_eq_length_of_false fun c hc => decide_eq_false (hp c hc)
  simp only [extractFilename, if_neg (Nat.ne_of_gt hpos), hstop, lt_irrefl, if_false]
  rw [if_neg (by omega), List.take_of_length_le (by simp)]

/-- `extractFilename` of a name with a blank behind it. -/
theorem extractFilename_blank {p : Str} (hp : ∀ c ∈ p, c ∉ filenameEnds) {c : Char}
    (hc : c ∈ filenameEnds) (t : Str) :
    extractFilename (some (p ++ c :: t)) = if p.length ≤ 1 then none else some p := by
  have hlength : ¬ (p ++ c :: t).length = 0 := by simp
  have hstop : (p ++ c :: t).findIdx (· ∈ [' ', '\t', '\n']) = p.length := by
    have hnone : p.findIdx (· ∈ [' ', '\t', '\n']) = p.length :=
      List.findIdx_eq_length_of_false fun c hc => decide_eq_false (hp c hc)
    have hend : decide (c ∈ [' ', '\t', '\n']) = true := decide_eq_true hc
    rw [List.findIdx_append, hnone, if_neg (lt_irrefl _), List.findIdx_cons, hend, cond_true,
      zero_add]
  have hlt : p.length < (p ++ c :: t).length := by simp
  simp only [extractFilename, if_neg hlength, hstop, if_pos hlt]
  by_cases hone : p.length ≤ 1
  · rw [if_pos hone, if_pos (by omega)]
  · have htake : ((p.length : ℤ) - 1).toNat + 1 = p.length := by omega
    rw [if_neg hone, if_neg (by omega), htake, List.take_left]

/-- **The copy is the name as a string**, as long as the arithmetic is defined. -/
theorem extractFilename_copy {s : Str} {result : Option FilenameCopy}
    (h : extractFilenameCopy (some s) = some result) :
    (extractFilename (some s) = none ∧ result = none) ∨
      ∃ name copy, extractFilename (some s) = some name ∧ result = some copy ∧
        Holds copy.filename (name ++ ['\x00']) := by
  obtain ⟨p, hp, rfl | ⟨c, hc, t, rfl⟩⟩ := command_cases s
  · by_cases hnil : s = []
    · subst hnil
      exact Or.inl ⟨rfl, (Option.some_inj.mp h).symm⟩
    · rw [extractFilenameCopy_end hp hnil] at h
      have hsize : (s.length : ℤ) + 2 ≤ INT_MAX := by
        by_contra hover
        simp [copyFilename_eq_none hover] at h
      obtain ⟨copy, hcopy, hholds, -⟩ := copyFilename_end hsize
      rw [hcopy] at h
      exact Or.inr ⟨s, copy, extractFilename_end hp hnil, (Option.some_inj.mp h).symm, hholds⟩
  · rw [extractFilenameCopy_blank hp hc] at h
    rw [extractFilename_blank hp hc]
    by_cases hone : p.length ≤ 1
    · rw [if_pos hone] at h ⊢
      exact Or.inl ⟨rfl, (Option.some_inj.mp h).symm⟩
    · rw [if_neg hone] at h ⊢
      have hnil : p ≠ [] := by
        rintro rfl
        simp at hone
      have hsize : (p.length : ℤ) + 1 ≤ INT_MAX := by
        by_contra hover
        simp [copyFilename_eq_none (show ¬ (p.length : ℤ) - 1 + 2 ≤ INT_MAX by omega)] at h
      obtain ⟨copy, hcopy, hholds, -⟩ := copyFilename_blank hnil hsize (c :: t)
      rw [hcopy] at h
      exact Or.inr ⟨p, copy, rfl, (Option.some_inj.mp h).symm, hholds⟩

end Trapd
