/-
# Query files read back (`query.c`)

A query file is made of blocks, each a begin marker, lines and an end marker, and of other
lines between them.  `query_parse` sees its lines in chunks, as `fgets` delivers them, and
joins the chunks of a block by blanks.

**Main result:** `query_fetch_iff`: a name is looked up with the lines of its first block
exactly when the block has a line that is not empty, all its lines fit in the buffer, and what
is collected from any block has a length that fits in an `int`.
-/
import NagiosTrapd.QueryLines
import NagiosTrapd.QueryMarkers

namespace Trapd

open Blocks LineBuffer Words

/-! ## The format -/

/-- A text without line ends and NUL. -/
def IsPlain (text : Str) : Prop := ∀ c ∈ text, c ≠ '\n' ∧ c ≠ '\r' ∧ c ≠ '\x00'

/-- A line, and whether it ends in a carriage return and a line feed or in the latter. -/
structure TextLine where
  text : Str
  crlf : Bool
  no_newline : '\n' ∉ text

/-- The line without its line feed. -/
def TextLine.chars (l : TextLine) : Str := l.text ++ if l.crlf then ['\r'] else []

/-- The line without carriage returns, as the patterns are matched with it. -/
def TextLine.shown (l : TextLine) : Str := l.text.filter (· ≠ '\r')

theorem isPlain_of_all {text : Str}
    (h : (text.all fun c => c ≠ '\n' ∧ c ≠ '\r' ∧ c ≠ '\x00') = true) : IsPlain text := by
  intro c hc
  simpa using List.all_eq_true.mp h c hc

theorem isPlain_append {s t : Str} : IsPlain (s ++ t) ↔ IsPlain s ∧ IsPlain t :=
  List.forall_mem_append

theorem isPlain_end : IsPlain queryEndMarker := isPlain_of_all (by decide)

/-- The characters of a name are none of the excluded ones. -/
theorem IsQueryName.isPlain {name : Str} (h : IsQueryName name) : IsPlain name := by
  intro c hc
  have hchar := h.chars c hc
  refine ⟨?_, ?_, ?_⟩ <;>
    · rintro rfl
      exact absurd hchar (by decide)

theorem IsQueryName.isPlain_begin {name : Str} (h : IsQueryName name) :
    IsPlain (beginMarker name) := by
  unfold beginMarker
  rw [isPlain_append, isPlain_append]
  exact ⟨isPlain_of_all (by decide), h.isPlain, isPlain_of_all (by decide)⟩

theorem IsPlain.no_newline {text : Str} (h : IsPlain text) : '\n' ∉ text :=
  fun hmem => (h _ hmem).1 rfl

/-- A block of a query file. -/
structure QueryBlock where
  name : Str
  isName : IsQueryName name
  begin_crlf : Bool
  lines : List TextLine
  lines_ne_nil : lines ≠ []
  no_end : ∀ l ∈ lines, ¬ queryEndMarker <:+: l.shown
  end_crlf : Bool

/-- A block, or a line between blocks. -/
inductive QueryItem
  | block (b : QueryBlock)
  | other (l : TextLine) (no_begin : ¬ HasBeginMarker l.shown)
      (no_end : ¬ queryEndMarker <:+: l.shown)

/-- The lines of an item. -/
def QueryItem.lines : QueryItem → List TextLine
  | block b =>
      ⟨beginMarker b.name, b.begin_crlf, b.isName.isPlain_begin.no_newline⟩
        :: (b.lines ++ [⟨queryEndMarker, b.end_crlf, isPlain_end.no_newline⟩])
  | other l _ _ => [l]

/-- A query file; the line feed at its end may be missing. -/
structure QueryFile where
  items : List QueryItem
  closed : Bool

/-- The lines, each with its line end. -/
def linesText (lines : List TextLine) : Str := lines.flatMap fun l => l.chars ++ ['\n']

/-- The contents of a query file. -/
def QueryFile.contents (file : QueryFile) : Str :=
  let text := linesText (file.items.flatMap QueryItem.lines)
  if file.closed then text else text.dropLast

/-- The blocks of a query file, in order. -/
def blocksOf : List QueryItem → List QueryBlock
  | [] => []
  | .block b :: items => b :: blocksOf items
  | .other _ _ _ :: items => blocksOf items

/-- The first block with a name. -/
def QueryFile.firstBlock (file : QueryFile) (name : Str) : Option QueryBlock :=
  (blocksOf file.items).find? fun b => b.name = name

/-- The lines that are not empty. -/
def withText (lines : List TextLine) : List Str := (lines.map TextLine.text).filter (· ≠ [])

/-- What a query is to be looked up with: the lines that are not empty joined by blanks, and
blanks for tabs. -/
def QueryBlock.body (b : QueryBlock) : Str :=
  (joinSp (withText b.lines)).map fun c => if c = '\t' then ' ' else c

/-- The condition on a block: one line has text, all fit in the buffer, and none has a
carriage return or NUL in its text. -/
structure QueryBlock.Readable (b : QueryBlock) : Prop where
  text : ∃ l ∈ b.lines, l.text ≠ []
  fits : ∀ l ∈ b.lines, l.text.length < TMPBUFLEN
  plain : ∀ l ∈ b.lines, IsPlain l.text

/-! ## The lines that are handled -/

/-- A line end at the end of a buffer is dropped. -/
theorem bufferLine_concat {c : Char} (hc : c = '\n' ∨ c = '\r') (buffer : Str) :
    bufferLine (buffer ++ [c]) = bufferLine buffer := by
  have hnul : c ≠ '\x00' := by rcases hc with rfl | rfl <;> decide
  have hdrop : [c].filter (· ∉ ['\n', '\r']) = [] := by rcases hc with rfl | rfl <;> decide
  unfold bufferLine removeChars
  rw [List.takeWhile_append]
  split_ifs with hall
  · rw [List.IsPrefix.eq_of_length (List.takeWhile_prefix _) hall]
    simp only [List.takeWhile_cons, decide_eq_true hnul, List.takeWhile_nil, if_true,
      List.filter_append, hdrop, List.append_nil]
  · rfl

theorem bufferLine_plain {text : Str} (hne : text ≠ []) (h : IsPlain text) :
    bufferLine text = some text := by
  have hnul : text.takeWhile (· ≠ '\x00') = text :=
    List.takeWhile_eq_self_iff.mpr fun c hc => by simpa using (h c hc).2.2
  unfold bufferLine
  rw [hnul]
  refine removeChars_of_forall_notMem hne fun c hc => ?_
  simpa using ⟨(h c hc).1, (h c hc).2.1⟩

theorem IsPlain.isInfix {text part : Str} (h : IsPlain text) (hpart : part <:+: text) :
    IsPlain part := fun c hc => h c (hpart.subset hc)

/-- The line that a buffer has. -/
theorem bufferLine_eq_some {buffer line : Str} (h : bufferLine buffer = some line) :
    line ≠ [] ∧ IsPlain line ∧ line <:+: buffer.filter (· ∉ ['\n', '\r']) := by
  unfold bufferLine removeChars at h
  simp only [Option.ite_none_left_eq_some, Option.some_inj, List.length_eq_zero_iff] at h
  obtain ⟨hne, rfl⟩ := h
  refine ⟨hne, ?_, ?_⟩
  · intro c hc
    obtain ⟨hmem, hend⟩ := List.mem_filter.mp hc
    have hnul := List.mem_takeWhile_imp hmem
    simp only [List.mem_cons, List.not_mem_nil, or_false, not_or, decide_eq_true_eq] at hend hnul
    exact ⟨hend.1, hend.2, hnul⟩
  · exact ((List.takeWhile_prefix _).isInfix).filter _

/-- The parts of a line that are handled one by one. -/
def TextLine.parts (l : TextLine) : List Str :=
  (LineBuffer.chunks (TMPBUFLEN - 1) l.text).filterMap bufferLine

/-- A part is text of its line. -/
theorem TextLine.mem_parts {l : TextLine} {part : Str} (h : part ∈ l.parts) :
    part ≠ [] ∧ IsPlain part ∧ part <:+: l.shown := by
  obtain ⟨chunk, hchunk, hpart⟩ := List.mem_filterMap.mp h
  obtain ⟨hne, hplain, hinfix⟩ := bufferLine_eq_some hpart
  have hshown : l.text.filter (· ∉ ['\n', '\r']) = l.shown := by
    apply List.filter_congr
    intro c hc
    have hnewline : c ≠ '\n' := fun heq => l.no_newline (heq ▸ hc)
    simp [hnewline]
  refine ⟨hne, hplain, hinfix.trans ?_⟩
  rw [← hshown]
  exact (LineBuffer.mem_chunks (by decide) chunk hchunk).2.filter _

/-- A part fits in the buffer. -/
theorem TextLine.length_lt_of_mem_parts {l : TextLine} {part : Str} (h : part ∈ l.parts) :
    part.length < TMPBUFLEN := by
  obtain ⟨chunk, hchunk, hpart⟩ := List.mem_filterMap.mp h
  have hle := (bufferLine_eq_some hpart).2.2.length_le
  have hfilter := List.length_filter_le (fun c => c ∉ ['\n', '\r']) chunk
  have hroom := LineBuffer.length_le_of_mem_chunks (by decide) chunk hchunk
  exact Nat.lt_of_le_of_lt (hle.trans (hfilter.trans hroom)) (by decide)

/-- The parts of a line without carriage returns and NUL are its chunks. -/
theorem TextLine.parts_of_plain {l : TextLine} (h : IsPlain l.text) :
    l.parts = LineBuffer.chunks (TMPBUFLEN - 1) l.text := by
  unfold TextLine.parts
  rw [List.filterMap_congr (g := some), List.filterMap_some]
  intro chunk hchunk
  obtain ⟨hne, hinfix⟩ := LineBuffer.mem_chunks (by decide) chunk hchunk
  exact bufferLine_plain hne (h.isInfix hinfix)

/-- What is seen of a line. -/
theorem filterMap_bufferLine_chars (l : TextLine) :
    (LineBuffer.chunks (TMPBUFLEN - 1) l.chars).filterMap bufferLine = l.parts := by
  unfold TextLine.chars
  split_ifs
  · rw [filterMap_chunks_concat (by decide) rfl (bufferLine_concat (.inr rfl))]
    rfl
  · rw [List.append_nil]
    rfl

theorem newline_not_mem_chars (l : TextLine) : '\n' ∉ l.chars := by
  have htext := l.no_newline
  unfold TextLine.chars
  split_ifs <;> simp [htext]

/-- What is seen of a text, by its pieces. -/
theorem filterMap_queryBuffers (contents : Str) :
    (queryBuffers contents).filterMap bufferLine
      = (pieces '\n' contents).flatMap fun line =>
          (LineBuffer.chunks (TMPBUFLEN - 1) line).filterMap bufferLine :=
  filterMap_buffers (by decide) rfl (bufferLine_concat (.inl rfl)) _ _ le_rfl

/-- The pieces of lines and a rest. -/
theorem pieces_linesText (lines : List TextLine) (rest : Str) :
    pieces '\n' (linesText lines ++ rest) = lines.map TextLine.chars ++ pieces '\n' rest := by
  have hlines : ∀ p ∈ lines.map TextLine.chars, '\n' ∉ p := by
    intro p hp
    obtain ⟨l, -, rfl⟩ := List.mem_map.mp hp
    exact newline_not_mem_chars l
  rw [← pieces_flatMap_append hlines, List.flatMap_map]
  rfl

/-- **What is seen of a file**: the parts of its lines. -/
theorem queryBuffers_contents (file : QueryFile) :
    (queryBuffers file.contents).filterMap bufferLine
      = (file.items.flatMap QueryItem.lines).flatMap TextLine.parts := by
  have hnil : (LineBuffer.chunks (TMPBUFLEN - 1) ([] : Str)).filterMap bufferLine = [] := by
    rw [chunks_nil, List.filterMap_nil]
  rw [filterMap_queryBuffers]
  unfold QueryFile.contents
  generalize file.items.flatMap QueryItem.lines = lines
  rcases lines.eq_nil_or_concat' with rfl | ⟨front, last, rfl⟩
  · -- no lines at all
    have hempty : (if file.closed then linesText [] else (linesText []).dropLast) = [] := by
      split_ifs <;> rfl
    rw [hempty, pieces_last List.not_mem_nil]
    simp [hnil]
  · have htext : linesText (front ++ [last]) = linesText front ++ last.chars ++ ['\n'] := by
      unfold linesText
      rw [List.flatMap_append, List.flatMap_singleton, List.append_assoc]
    have hpieces : pieces '\n' (linesText front ++ last.chars)
        = (front ++ [last]).map TextLine.chars := by
      rw [pieces_linesText, pieces_last (newline_not_mem_chars last), List.map_append]
      rfl
    simp only
    split_ifs
    · rw [← List.append_nil (linesText (front ++ [last])), pieces_linesText,
        pieces_last List.not_mem_nil, List.flatMap_append, List.flatMap_singleton, hnil,
        List.append_nil, List.flatMap_map]
      simp only [filterMap_bufferLine_chars]
    · rw [htext, List.dropLast_concat, hpieces, List.flatMap_map]
      simp only [filterMap_bufferLine_chars]

/-- A line without a begin marker has none in its parts. -/
theorem TextLine.no_begin_parts {l : TextLine} (h : ¬ HasBeginMarker l.shown) :
    ∀ part ∈ l.parts, ¬ HasBeginMarker part := by
  rintro part hpart ⟨name, hne, hchars, hmarker⟩
  exact h ⟨name, hne, hchars, hmarker.trans (TextLine.mem_parts hpart).2.2⟩

/-! ## The table -/

/-- The parts of the lines of a block. -/
def QueryBlock.parts (b : QueryBlock) : List Str := b.lines.flatMap TextLine.parts

/-- None has an end marker. -/
theorem QueryBlock.mem_parts {b : QueryBlock} {part : Str} (h : part ∈ b.parts) :
    part ≠ [] ∧ IsPlain part ∧ ¬ queryEndMarker <:+: part ∧ part.length < TMPBUFLEN := by
  obtain ⟨l, hl, hpart⟩ := List.mem_flatMap.mp h
  obtain ⟨hne, hplain, hshown⟩ := TextLine.mem_parts hpart
  exact ⟨hne, hplain, fun hmarker => b.no_end l hl (hmarker.trans hshown),
    TextLine.length_lt_of_mem_parts hpart⟩

/-- They are lines of a body. -/
theorem QueryBlock.bodyLines_parts (b : QueryBlock) : BodyLines b.parts := by
  intro part hpart
  obtain ⟨hne, hplain, -⟩ := QueryBlock.mem_parts hpart
  exact ⟨hne, fun hnul => (hplain _ hnul).2.2 rfl⟩

/-- A line that fits in the buffer is its only part. -/
theorem TextLine.parts_of_fits {l : TextLine} (hplain : IsPlain l.text) (hne : l.text ≠ [])
    (hfits : l.text.length < TMPBUFLEN) : l.parts = [l.text] := by
  have hle : l.text.length ≤ TMPBUFLEN - 1 := Nat.le_sub_one_of_lt hfits
  rw [TextLine.parts_of_plain hplain, chunks_of_length_le hne hle]

/-- A begin marker fits in the buffer. -/
theorem length_beginMarker {name : Str} (h : IsQueryName name) :
    (beginMarker name).length < TMPBUFLEN := by
  have hfits : name.length < 256 := h.fits
  have hlength : (beginMarker name).length = 15 + (name.length + 3) := by
    rw [beginMarker, List.length_append, List.length_append]
    rfl
  rw [hlength]
  show 15 + (name.length + 3) < 1024
  omega

/-- The lines of a block, as they are handled. -/
theorem QueryItem.parts_block (b : QueryBlock) :
    (QueryItem.block b).lines.flatMap TextLine.parts
      = beginMarker b.name :: (b.parts ++ [queryEndMarker]) := by
  have hbegin := TextLine.parts_of_fits
    (l := ⟨beginMarker b.name, b.begin_crlf, b.isName.isPlain_begin.no_newline⟩)
    b.isName.isPlain_begin (List.append_ne_nil_of_left_ne_nil (by decide) _)
    (length_beginMarker b.isName)
  have hlength : queryEndMarker ≠ [] ∧ queryEndMarker.length < TMPBUFLEN := by decide
  have hend := TextLine.parts_of_fits
    (l := ⟨queryEndMarker, b.end_crlf, isPlain_end.no_newline⟩) isPlain_end hlength.1 hlength.2
  rw [QueryItem.lines, List.flatMap_cons, List.flatMap_append, List.flatMap_singleton, hbegin,
    hend]
  rfl

/-- What is collected from a block has a length that fits in an `int`. -/
def QueryBlock.Counted (b : QueryBlock) : Prop := ((joinSp b.parts).length : ℤ) ≤ INT_MAX

/-- **The items of a file**: each block is stored in its turn. -/
theorem BetweenQueries.items {pcre : Pcre} (hpcre : pcre.Lawful) (items : List QueryItem) :
    ∀ {s : QueryState} {table : List Query}, BetweenQueries s table →
      (∀ b ∈ blocksOf items, b.Counted) →
      BetweenQueries
        (((items.flatMap QueryItem.lines).flatMap TextLine.parts).foldl (queryLine pcre) s)
        (table ++ (blocksOf items).flatMap fun b => storedQuery b.name b.parts) := by
  induction items with
  | nil =>
      intro s table h _
      show BetweenQueries s (table ++ [])
      rwa [List.append_nil]
  | cons item items ih =>
      intro s table h hcounted
      rw [List.flatMap_cons, List.flatMap_append, List.foldl_append]
      cases item with
      | block b =>
          rw [blocksOf, List.forall_mem_cons] at hcounted
          have hquery := h.query hpcre b.isName b.bodyLines_parts
            (fun part hpart => (QueryBlock.mem_parts hpart).2.2.1) hcounted.1
          rw [QueryItem.parts_block, blocksOf, List.flatMap_cons, ← List.append_assoc]
          exact ih hquery hcounted.2
      | other l no_begin no_end =>
          rw [QueryItem.lines, List.flatMap_singleton,
            foldl_queryLine_outside hpcre h.status (TextLine.no_begin_parts no_begin)]
          exact ih h hcounted

/-- A block that cannot be counted ends in undefined behaviour. -/
theorem BetweenQueries.items_overflow {pcre : Pcre} (hpcre : pcre.Lawful)
    (items : List QueryItem) :
    ∀ {s : QueryState} {table : List Query}, BetweenQueries s table →
      (∃ b ∈ blocksOf items, ¬ b.Counted) →
      (((items.flatMap QueryItem.lines).flatMap TextLine.parts).foldl
        (queryLine pcre) s).faults ≠ [] := by
  induction items with
  | nil => exact fun _ ⟨b, hb, _⟩ => absurd hb List.not_mem_nil
  | cons item items ih =>
      intro s table h hlong
      rw [List.flatMap_cons, List.flatMap_append, List.foldl_append]
      cases item with
      | block b =>
          rw [QueryItem.parts_block]
          by_cases hcounted : b.Counted
          · have hrest : ∃ b' ∈ blocksOf items, ¬ b'.Counted := by
              obtain ⟨b', hb', hlong⟩ := hlong
              rcases List.mem_cons.mp hb' with rfl | hb'
              · exact absurd hcounted hlong
              · exact ⟨b', hb', hlong⟩
            exact ih (h.query hpcre b.isName b.bodyLines_parts
              (fun part hpart => (QueryBlock.mem_parts hpart).2.2.1) hcounted) hrest
          · exact faults_foldl_queryLine (h.query_overflow hpcre b.isName b.bodyLines_parts
              (fun part hpart => (QueryBlock.mem_parts hpart).2.2) (not_le.mp hcounted)) _
      | other l no_begin no_end =>
          rw [QueryItem.lines, List.flatMap_singleton,
            foldl_queryLine_outside hpcre h.status (TextLine.no_begin_parts no_begin)]
          exact ih h hlong

/-- **A query file is read**: all blocks with text are stored, in order. -/
theorem queryParse_contents {pcre : Pcre} (hpcre : pcre.Lawful) {file : QueryFile}
    (hcounted : ∀ b ∈ blocksOf file.items, b.Counted) :
    BetweenQueries (queryParse pcre file.contents)
      ((blocksOf file.items).flatMap fun b => storedQuery b.name b.parts) := by
  rw [queryParse_eq, queryBuffers_contents]
  exact BetweenQueries.items hpcre file.items betweenQueries_init hcounted

/-- **It is read without undefined behaviour** exactly when all its blocks can be counted. -/
theorem queryParse_faults_iff {pcre : Pcre} (hpcre : pcre.Lawful) (file : QueryFile) :
    (queryParse pcre file.contents).faults = [] ↔ ∀ b ∈ blocksOf file.items, b.Counted := by
  constructor
  · intro h
    by_contra hlong
    push Not at hlong
    rw [queryParse_eq, queryBuffers_contents] at h
    exact BetweenQueries.items_overflow hpcre file.items betweenQueries_init hlong h
  · exact fun hcounted => (queryParse_contents hpcre hcounted).collected.faultless

/-! ## Looking a name up -/

/-- What a block with text is stored with. -/
def QueryBlock.storedBody (b : QueryBlock) : Str := (joinSp b.parts).map removeSpace

/-- A name is looked up with its first block that has text. -/
theorem queryFetch_blocks (blocks : List QueryBlock) (name : Str) :
    queryFetch (blocks.flatMap fun b => storedQuery b.name b.parts) name
      = (blocks.find? fun b => b.parts ≠ [] ∧ b.name = name).map QueryBlock.storedBody := by
  induction blocks with
  | nil => rfl
  | cons b blocks ih =>
      unfold queryFetch at ih ⊢
      rw [List.flatMap_cons, List.find?_append]
      by_cases hempty : b.parts = []
      · rw [storedQuery, if_pos hempty, List.find?_nil, Option.none_or, ih,
          List.find?_cons_of_neg (by simp [hempty])]
      · by_cases hname : b.name = name
        · rw [storedQuery, if_neg hempty, List.find?_cons_of_pos (by simpa using hname),
            List.find?_cons_of_pos (by simp [hempty, hname])]
          rfl
        · rw [storedQuery, if_neg hempty, List.find?_cons_of_neg (by simpa using hname),
            List.find?_nil, Option.none_or, ih, List.find?_cons_of_neg (by simp [hname])]

/-! ## Lines that fit -/

section Plain

variable {lines : List TextLine}

/-- Lines without text have no parts, others have. -/
theorem flatMap_parts_eq_nil_iff (hplain : ∀ l ∈ lines, IsPlain l.text) :
    lines.flatMap TextLine.parts = [] ↔ ¬ ∃ l ∈ lines, l.text ≠ [] := by
  rw [List.flatMap_eq_nil_iff]
  push Not
  refine forall₂_congr fun l hl => ?_
  rw [TextLine.parts_of_plain (hplain l hl)]
  constructor
  · intro h
    by_contra hne
    rw [chunks_of_ne_nil (by decide) hne] at h
    exact absurd h (List.cons_ne_nil _ _)
  · intro h
    rw [h, chunks_nil]

theorem withText_cons (l : TextLine) (lines : List TextLine) :
    withText (l :: lines) = withText [l] ++ withText lines :=
  List.filter_append [l.text] (lines.map TextLine.text)

theorem withText_empty {l : TextLine} (h : l.text = []) : withText [l] = [] :=
  List.filter_cons_of_neg (by simp [h])

theorem withText_single {l : TextLine} (h : l.text ≠ []) : withText [l] = [l.text] :=
  List.filter_cons_of_pos (by simpa using h)

/-- Lines that fit are handled as they are, but for those without text. -/
theorem flatMap_parts_of_fits (hplain : ∀ l ∈ lines, IsPlain l.text)
    (hfits : ∀ l ∈ lines, l.text.length < TMPBUFLEN) :
    lines.flatMap TextLine.parts = withText lines := by
  induction lines with
  | nil => rfl
  | cons l lines ih =>
      rw [List.forall_mem_cons] at hplain hfits
      rw [List.flatMap_cons, ih hplain.2 hfits.2, withText_cons]
      by_cases hne : l.text = []
      · rw [withText_empty hne, TextLine.parts_of_plain hplain.1, hne, chunks_nil]
      · rw [withText_single hne, TextLine.parts_of_fits hplain.1 hne hfits.1]

/-- The room that lines take in a body: their lengths, and a blank or the terminator each. -/
def room (lines : List Str) : ℕ := (lines.map fun l => l.length + 1).sum

theorem room_append (lines others : List Str) :
    room (lines ++ others) = room lines + room others := by
  unfold room
  rw [List.map_append, List.sum_append]

/-- A line in parts takes no less room, and more when it does not fit. -/
theorem room_parts {l : TextLine} (h : IsPlain l.text) :
    room (withText [l]) ≤ room l.parts
      ∧ (room l.parts = room (withText [l]) → l.text.length < TMPBUFLEN) := by
  rw [TextLine.parts_of_plain h]
  have hroom := sum_chunks (n := TMPBUFLEN - 1) (by decide) l.text
  have hone := (length_chunks_le_one (n := TMPBUFLEN - 1) (by decide) l.text).trans
    (Nat.le_sub_one_iff_lt (by decide))
  by_cases hne : l.text = []
  · rw [withText_empty hne, hne]
    exact ⟨Nat.zero_le _, fun _ => by decide⟩
  · have hsingle : room (withText [l]) = l.text.length + 1 := by
      rw [withText_single hne]
      rfl
    have hpos : 0 < (LineBuffer.chunks (TMPBUFLEN - 1) l.text).length := by
      rw [chunks_of_ne_nil (by decide) hne]
      exact Nat.succ_pos _
    rw [hsingle, room, hroom, ← hone]
    omega

/-- Lines in parts take as much room as lines with text only when all of them fit. -/
theorem room_flatMap_parts (hplain : ∀ l ∈ lines, IsPlain l.text) :
    room (withText lines) ≤ room (lines.flatMap TextLine.parts)
      ∧ (room (lines.flatMap TextLine.parts) = room (withText lines) →
          ∀ l ∈ lines, l.text.length < TMPBUFLEN) := by
  induction lines with
  | nil => exact ⟨le_rfl, fun _ => by simp⟩
  | cons l lines ih =>
      rw [List.forall_mem_cons] at hplain
      obtain ⟨hle, hfits⟩ := room_parts hplain.1
      obtain ⟨hle', hfits'⟩ := ih hplain.2
      rw [List.flatMap_cons, withText_cons, room_append, room_append, List.forall_mem_cons]
      refine ⟨by omega, fun heq => ⟨hfits (by omega), hfits' (by omega)⟩⟩

end Plain

/-- `remove_spaces` changes tabs only. -/
theorem removeSpace_eq : removeSpace = fun c => if c = '\t' then ' ' else c := by
  funext c
  unfold removeSpace
  by_cases hblank : c = ' '
  · simp [hblank]
  · simp [hblank]

/-- **What is stored for a block** of plain lines is its lines exactly when they fit. -/
theorem QueryBlock.storedBody_eq_iff {b : QueryBlock} (hplain : ∀ l ∈ b.lines, IsPlain l.text)
    (hne : b.parts ≠ []) :
    b.storedBody = b.body ↔ ∀ l ∈ b.lines, l.text.length < TMPBUFLEN := by
  unfold QueryBlock.storedBody QueryBlock.body
  rw [removeSpace_eq]
  constructor
  · intro heq
    have hfull : withText b.lines ≠ [] := by
      intro hfull
      rw [hfull] at heq
      exact b.bodyLines_parts.joinSp_ne_nil hne (List.map_eq_nil_iff.mp heq)
    have hlength := congrArg (fun s => s.length + 1) heq
    simp only [List.length_map] at hlength
    unfold joinSp at hlength
    rw [length_intercalate_add_one ' ' hne, length_intercalate_add_one ' ' hfull] at hlength
    exact (room_flatMap_parts hplain).2 hlength
  · intro hfits
    have hparts : b.parts = withText b.lines := flatMap_parts_of_fits hplain hfits
    rw [hparts]

/-! ## The whole file -/

/-- No stored body is empty, and none has a carriage return or NUL. -/
theorem QueryBlock.storedBody_plain {b : QueryBlock} (hne : b.parts ≠ []) :
    b.storedBody ≠ [] ∧ IsPlain b.storedBody := by
  unfold QueryBlock.storedBody
  refine ⟨?_, fun c hc => ?_⟩
  · rw [ne_eq, List.map_eq_nil_iff]
    exact b.bodyLines_parts.joinSp_ne_nil hne
  · rw [removeSpace_eq] at hc
    obtain ⟨c', hc', rfl⟩ := List.mem_map.mp hc
    by_cases htab : c' = '\t'
    · rw [if_pos htab]
      decide
    · rw [if_neg htab]
      rcases mem_of_mem_spaced (spaced_intercalate ' ' hne) hc' with rfl | ⟨part, hpart, hmem⟩
      · decide
      · exact (QueryBlock.mem_parts hpart).2.1 c' hmem

/-- A body that could be stored is that of a block with text and with plain lines. -/
theorem QueryBlock.plain_of_body {b : QueryBlock} (hne : b.body ≠ []) (hplain : IsPlain b.body) :
    (∃ l ∈ b.lines, l.text ≠ []) ∧ ∀ l ∈ b.lines, IsPlain l.text := by
  unfold QueryBlock.body at hne hplain
  have hfull : withText b.lines ≠ [] := by
    intro hfull
    rw [hfull] at hne
    exact hne rfl
  have hmem : ∀ text, text ∈ withText b.lines ↔ (∃ l ∈ b.lines, l.text = text) ∧ text ≠ [] := by
    intro text
    unfold withText
    rw [List.mem_filter, List.mem_map, decide_eq_true_eq]
  constructor
  · obtain ⟨text, htext⟩ := List.exists_mem_of_ne_nil _ hfull
    obtain ⟨⟨l, hl, rfl⟩, hltext⟩ := (hmem text).mp htext
    exact ⟨l, hl, hltext⟩
  · intro l hl c hc
    have htext : l.text ∈ withText b.lines :=
      (hmem l.text).mpr ⟨⟨l, hl, rfl⟩, List.ne_nil_of_mem hc⟩
    have hbody := hplain _ (List.mem_map_of_mem
      (mem_spaced_of_mem (spaced_intercalate ' ' hfull) htext hc))
    by_cases htab : c = '\t'
    · rw [htab]
      decide
    · rwa [if_neg htab] at hbody

/-- The first block with a name is the first of those with text, if it has text. -/
theorem find?_parts_of_find? {blocks : List QueryBlock} {name : Str} {b : QueryBlock}
    (h : blocks.find? (fun b => b.name = name) = some b) (hne : b.parts ≠ []) :
    blocks.find? (fun b => b.parts ≠ [] ∧ b.name = name) = some b := by
  obtain ⟨hname, front, rest, hblocks, hfront⟩ := List.find?_eq_some_iff_append.mp h
  refine List.find?_eq_some_iff_append.mpr ⟨?_, front, rest, hblocks, fun b' hb' => ?_⟩
  · simpa [hne] using hname
  · have hother := hfront b' hb'
    simp only [Bool.not_eq_true', decide_eq_false_iff_not] at hother ⊢
    exact fun h => hother h.2

/-- A name is looked up with the lines of its first block, and NULL where there is none,
without undefined behaviour before. -/
def QueryFile.ReadBack (pcre : Pcre) (file : QueryFile) (name : Str) : Prop :=
  (queryParse pcre file.contents).faults = [] ∧
    queryFetch (queryParse pcre file.contents).query_table name
      = (file.firstBlock name).map QueryBlock.body

/-- In a file that is read, a name is looked up with its first block exactly when this is
readable. -/
theorem queryFetch_iff_readable {pcre : Pcre} (hpcre : pcre.Lawful) {file : QueryFile}
    (hcounted : ∀ b ∈ blocksOf file.items, b.Counted) (name : Str) :
    queryFetch (queryParse pcre file.contents).query_table name
        = (file.firstBlock name).map QueryBlock.body
      ↔ ∀ b, file.firstBlock name = some b → b.Readable := by
  rw [(queryParse_contents hpcre hcounted).table_eq, queryFetch_blocks]
  unfold QueryFile.firstBlock
  cases hfirst : (blocksOf file.items).find? fun b => b.name = name with
  | none =>
      have hnone : ((blocksOf file.items).find? fun b => b.parts ≠ [] ∧ b.name = name) = none := by
        rw [List.find?_eq_none] at hfirst ⊢
        intro b hb hfound
        exact hfirst b hb (by simpa using (of_decide_eq_true hfound).2)
      rw [hnone]
      simp
  | some b =>
      have hreadable : (∀ b', some b = some b' → b'.Readable) ↔ b.Readable := by simp
      rw [hreadable, Option.map_some]
      constructor
      · intro hfetch
        obtain ⟨b', hb', hbody⟩ := Option.map_eq_some_iff.mp hfetch
        have htext := List.find?_some hb'
        rw [decide_eq_true_eq] at htext
        have hstored := QueryBlock.storedBody_plain htext.1
        rw [hbody] at hstored
        obtain ⟨hlines, hplain⟩ := QueryBlock.plain_of_body hstored.1 hstored.2
        have hparts : b.parts ≠ [] := fun h => (flatMap_parts_eq_nil_iff hplain).mp h hlines
        -- so it is this block that was found
        rw [find?_parts_of_find? hfirst hparts, Option.map_some, Option.some_inj] at hfetch
        exact ⟨hlines, (QueryBlock.storedBody_eq_iff hplain hparts).mp hfetch, hplain⟩
      · intro h
        have hparts : b.parts ≠ [] := fun hnil => (flatMap_parts_eq_nil_iff h.plain).mp hnil h.text
        rw [find?_parts_of_find? hfirst hparts, Option.map_some,
          (QueryBlock.storedBody_eq_iff h.plain hparts).mpr h.fits]

/-- **When a query is read back**: exactly when the first block with the name, if there is one,
has text, its lines fit in the buffer and none of them has a carriage return or NUL, and all
blocks can be counted. -/
theorem query_fetch_iff {pcre : Pcre} (hpcre : pcre.Lawful) (file : QueryFile) (name : Str) :
    file.ReadBack pcre name ↔
      (∀ b ∈ blocksOf file.items, b.Counted) ∧
        ∀ b, file.firstBlock name = some b → b.Readable := by
  unfold QueryFile.ReadBack
  rw [queryParse_faults_iff hpcre]
  exact and_congr_right fun hcounted => queryFetch_iff_readable hpcre hcounted name

/-- A line of `n` letters. -/
def letters (n : ℕ) : TextLine :=
  ⟨List.replicate n 'a', false, fun h => absurd (List.eq_of_mem_replicate h) (by decide)⟩

theorem isPlain_letters (n : ℕ) : IsPlain (letters n).text := by
  intro c hc
  rw [List.eq_of_mem_replicate hc]
  decide

/-- A block `Q` with one line of `n` letters. -/
def lettersBlock (n : ℕ) : QueryBlock where
  name := ['Q']
  isName := ⟨by decide, List.all_eq_true.mp (by decide), by decide⟩
  begin_crlf := false
  lines := [letters n]
  lines_ne_nil := List.cons_ne_nil _ _
  no_end := by
    intro l hl hmarker
    obtain rfl := List.mem_singleton.mp hl
    have hdash : '-' ∈ (letters n).text := (List.mem_filter.mp (hmarker.subset (by decide))).1
    exact absurd (List.eq_of_mem_replicate hdash) (by decide)
  end_crlf := false

/-- A file with this block. -/
def lettersFile (n : ℕ) : QueryFile := ⟨[.block (lettersBlock n)], true⟩

/-- A short line. -/
theorem query_fetch_short :
    (lettersFile 3).ReadBack markerPcre ['Q'] ↔
      (∀ b ∈ blocksOf (lettersFile 3).items, b.Counted) ∧
        ∀ b, (lettersFile 3).firstBlock ['Q'] = some b → b.Readable :=
  query_fetch_iff markerPcre_lawful (lettersFile 3) ['Q']

/-- A line of 1024 letters gets a blank in front of the last. -/
theorem not_query_fetch :
    ¬ ∀ pcre : Pcre, pcre.Lawful → ∀ (file : QueryFile) (name : Str),
        file.ReadBack pcre name := by
  intro h
  obtain ⟨hfaults, hfetch⟩ := h markerPcre markerPcre_lawful (lettersFile 1024) ['Q']
  have hcounted := (queryParse_faults_iff markerPcre_lawful _).mp hfaults
  have hplain : ∀ l ∈ (lettersBlock 1024).lines, IsPlain l.text := by
    intro l hl
    rw [List.mem_singleton.mp hl]
    exact isPlain_letters 1024
  have htext : (lettersBlock 1024).parts ≠ [] := by
    intro hnil
    exact (flatMap_parts_eq_nil_iff hplain).mp hnil
      ⟨letters 1024, List.mem_singleton_self _, List.cons_ne_nil _ _⟩
  have hfirst : (lettersFile 1024).firstBlock ['Q'] = some (lettersBlock 1024) := rfl
  rw [(queryParse_contents markerPcre_lawful hcounted).table_eq, queryFetch_blocks,
    find?_parts_of_find? hfirst htext, hfirst] at hfetch
  have hlong := (QueryBlock.storedBody_eq_iff hplain htext).mp (Option.some_inj.mp hfetch)
    (letters 1024) (List.mem_singleton_self _)
  have hlength : (letters 1024).text.length = 1024 := List.length_replicate
  rw [hlength] at hlong
  exact Nat.lt_irrefl 1024 hlong

end Trapd
