/-
# The text of a trap, byte by byte

`trap_get_contents` grows one buffer for all objects of a trap.  `oldlen` runs one ahead of
the text: the last cell is left for a terminator, and becomes the separator when another
object follows.  Here the loop is followed on the memory it stores to.

**Main result:** `trapContentsBlock_exact`: the buffer ends up holding the texts of the
objects, joined by single spaces, and the terminator, with no cell left over.
-/
import NagiosTrapd.Blocks
import NagiosTrapd.TrapParse

namespace Trapd

open Blocks

/-! ## The loop -/

/-- The local variables of `trap_get_contents`. -/
structure ContentsState where
  buffer : Option (Block Char)
  oldlen : ℕ
  deriving DecidableEq, Repr

/-- The variables before the first object. -/
def ContentsState.init : ContentsState := ⟨none, 0⟩

/-- One turn of the loop, for an object with these fields. -/
def contentsTurn (s : ContentsState) (oid quoted_value : Str) : ContentsState :=
  let oid_len := oid.length
  let value_len := quoted_value.length
  let len := oid_len + value_len + 1
  let buffer :=
    match s.buffer with
    | none => Block.alloc (len + 1)
    -- the room for the terminator is used before there is more
    | some buffer => (buffer.put (s.oldlen - 1) ' ').resize (s.oldlen + len + 1)
  let buffer := buffer.store s.oldlen oid
  let buffer := buffer.put (s.oldlen + oid_len) '='
  let buffer := buffer.store (s.oldlen + oid_len + 1) quoted_value
  { buffer := some buffer, oldlen := s.oldlen + (len + 1) }

/-- The `while` loop; `none` where it takes the length of NULL or of an unset field. -/
def contentsTurns : ContentsState → List MibObject → Option ContentsState
  | s, [] => some s
  | s, o :: os =>
      match o.oid, o.quoted_value with
      | some oid, .set (some quoted_value) => contentsTurns (contentsTurn s oid quoted_value) os
      | _, _ => none

/-- The buffer of `trap_get_contents`, its terminator stored; `none` is undefined behaviour,
`some none` the NULL it returns for a trap without objects. -/
def trapContentsBlock (trap : Trap) : Option (Option (Block Char)) :=
  (contentsTurns .init trap.objects).map fun s =>
    s.buffer.map fun buffer => buffer.put (s.oldlen - 1) '\x00'

/-! ## What a turn leaves -/

/-- The texts of the objects so far fill the buffer but for its last cell. -/
structure Assembled (texts : List Str) (s : ContentsState) (buffer : Block Char) : Prop where
  buffer_eq : s.buffer = some buffer
  holds : Holds buffer (joinSp texts)
  oldlen : s.oldlen = (joinSp texts).length + 1
  size : buffer.size = s.oldlen

/-- The three stores of a turn are one. -/
theorem store_object (buffer : Block Char) (i : ℕ) (oid quoted_value : Str) :
    ((buffer.store i oid).put (i + oid.length) '=').store (i + oid.length + 1) quoted_value
      = buffer.store i (oid ++ '=' :: quoted_value) := by
  rw [Block.store_append]
  rfl

/-- The first object. -/
theorem assembled_first (oid quoted_value : Str) :
    ∃ buffer, Assembled [oid ++ '=' :: quoted_value] (contentsTurn .init oid quoted_value)
      buffer := by
  have hroom : ([] : Str).length + (oid ++ '=' :: quoted_value).length
      ≤ (Block.alloc (oid.length + quoted_value.length + 1 + 1) : Block Char).size := by
    rw [Block.size_alloc]
    simp
    omega
  have hholds := (Holds.alloc (α := Char) _).store _ hroom
  refine ⟨_, rfl, ?_, ?_, ?_⟩
  · simp only [ContentsState.init, store_object, joinSp_singleton]
    exact hholds
  · simp only [contentsTurn, ContentsState.init, joinSp_singleton, List.length_append,
      List.length_cons]
    omega
  · simp only [contentsTurn, ContentsState.init, Block.size_store, Block.size_put,
      Block.size_alloc]
    omega

/-- One more object. -/
theorem Assembled.turn {texts : List Str} {s : ContentsState} {buffer : Block Char}
    (h : Assembled texts s buffer) (hne : texts ≠ []) (oid quoted_value : Str) :
    ∃ buffer', Assembled (texts ++ [oid ++ '=' :: quoted_value])
      (contentsTurn s oid quoted_value) buffer' := by
  have hjoin := joinSp_append_singleton hne (oid ++ '=' :: quoted_value)
  -- the terminator's cell becomes the separator
  have hlast : (joinSp texts).length < buffer.size := by rw [h.size, h.oldlen]; omega
  have hsep := h.holds.put hlast ' '
  have hlen : (joinSp texts ++ [' ']).length = s.oldlen := by rw [h.oldlen]; simp
  have hgrown := hsep.resize (n := s.oldlen + (oid.length + quoted_value.length + 1) + 1)
    (by rw [hlen]; omega)
  have htext := hgrown.store (oid ++ '=' :: quoted_value)
    (by rw [hlen, Block.size_resize]; simp; omega)
  have hindex : s.oldlen - 1 = (joinSp texts).length := by rw [h.oldlen]; rfl
  rw [hlen, ← hindex] at htext
  refine ⟨_, rfl, ?_, ?_, ?_⟩
  · simp only [h.buffer_eq, store_object, hjoin]
    simpa using htext
  · simp only [contentsTurn, hjoin, h.oldlen, List.length_append, List.length_cons]
    omega
  · simp only [contentsTurn, h.buffer_eq, Block.size_store, Block.size_put, Block.size_resize]
    omega

/-! ## The whole loop -/

/-- The fields of an object whose text is known. -/
theorem objectContents_eq_some {o : MibObject} {text : Str} (h : objectContents o = some text) :
    ∃ oid q, o.oid = some oid ∧ o.quoted_value = .set (some q) ∧ text = oid ++ '=' :: q := by
  unfold objectContents at h
  split at h
  · next oid q hoid hq => exact ⟨oid, q, hoid, hq, (Option.some_inj.mp h).symm⟩
  · simp at h

theorem contentsTurns_cons {s : ContentsState} {o : MibObject} {oid q : Str}
    (hoid : o.oid = some oid) (hq : o.quoted_value = .set (some q)) (os : List MibObject) :
    contentsTurns s (o :: os) = contentsTurns (contentsTurn s oid q) os := by
  simp only [contentsTurns, hoid, hq]

/-- The loop goes on from what is assembled. -/
theorem Assembled.turns (objects : List MibObject) :
    ∀ {done texts : List Str} {s : ContentsState} {buffer : Block Char}, done ≠ [] →
      Assembled done s buffer → objects.map objectContents = texts.map some →
      ∃ s' buffer', contentsTurns s objects = some s' ∧
        Assembled (done ++ texts) s' buffer' := by
  induction objects with
  | nil =>
      intro done texts s buffer _ h htexts
      obtain rfl : texts = [] := by simpa using htexts.symm
      exact ⟨s, buffer, rfl, by rwa [List.append_nil]⟩
  | cons o os ih =>
      intro done texts s buffer hne h htexts
      cases texts with
      | nil => simp at htexts
      | cons text texts =>
          rw [List.map_cons, List.map_cons, List.cons.injEq] at htexts
          obtain ⟨oid, q, hoid, hq, rfl⟩ := objectContents_eq_some htexts.1
          obtain ⟨buffer', hturn⟩ := h.turn hne oid q
          have hrest := ih (by simp) hturn htexts.2
          rwa [← contentsTurns_cons hoid hq os, List.append_assoc] at hrest

/-- The texts of objects none of whose fields is NULL. -/
theorem exists_texts {objects : List MibObject}
    (h : ∀ o ∈ objects, o.oid ≠ none ∧ ∃ q, o.quoted_value = .set (some q)) :
    objects.map objectContents = (objects.filterMap objectContents).map some := by
  induction objects with
  | nil => rfl
  | cons o os ih =>
      obtain ⟨hoid, q, hq⟩ := h o List.mem_cons_self
      obtain ⟨oid, hoid⟩ := Option.ne_none_iff_exists'.mp hoid
      have ho : objectContents o = some (oid ++ '=' :: q) := by simp only [objectContents, hoid, hq]
      rw [List.map_cons, List.filterMap_cons, ho, ih fun p hp => h p (List.mem_cons_of_mem o hp)]
      rfl

/-- **Contents are assembled exactly.**  For a trap with objects, none of whose fields is
NULL, the buffer holds the texts of the objects in their order, joined by single spaces, and
behind them the terminator in its last cell; nothing is stored outside it on the way. -/
theorem trapContentsBlock_exact (trap : Trap) (hne : trap.objects ≠ [])
    (hfields : ∀ o ∈ trap.objects, o.oid ≠ none ∧ ∃ q, o.quoted_value = .set (some q)) :
    ∃ buffer, trapContentsBlock trap = some (some buffer) ∧ buffer.outside = [] ∧
      buffer.cells
        = (joinSp (trap.objects.filterMap objectContents) ++ ['\x00']).map some := by
  have htexts := exists_texts hfields
  unfold trapContentsBlock
  obtain ⟨o, os, hobjects⟩ := List.exists_cons_of_ne_nil hne
  obtain ⟨text, texts, hcons⟩ := List.exists_cons_of_ne_nil
    (l := trap.objects.filterMap objectContents) (by
      intro hnil
      rw [hnil, hobjects] at htexts
      simp at htexts)
  rw [hcons, hobjects, List.map_cons, List.map_cons, List.cons.injEq] at htexts
  obtain ⟨oid, q, hoid, hq, rfl⟩ := objectContents_eq_some htexts.1
  -- the first turn allocates the block, the others extend it by what they write
  obtain ⟨buffer, hfirst⟩ := assembled_first oid q
  obtain ⟨s, buffer', hturns, hall⟩ := hfirst.turns os (List.cons_ne_nil _ _) htexts.2
  rw [List.singleton_append] at hall
  have hsize := hall.size
  rw [hall.oldlen] at hsize
  -- the terminator takes the place of the last blank
  have hlast := hall.holds.put (by rw [hsize]; omega) '\x00'
  have hindex : s.oldlen - 1 = (joinSp ((oid ++ '=' :: q) :: texts)).length := by
    rw [hall.oldlen]
    rfl
  refine ⟨buffer'.put (s.oldlen - 1) '\x00', ?_, ?_, ?_⟩
  · rw [hobjects, contentsTurns_cons hoid hq, hturns, Option.map_some, hall.buffer_eq,
      Option.map_some]
  · rw [hindex]
    exact hlast.outside
  · rw [hcons, hindex]
    refine hlast.cells_eq ?_
    rw [Block.size_put, hsize]
    simp

/-- Two objects. -/
theorem trapContentsBlock_exact_two :
    ∃ buffer, trapContentsBlock { allocTrap with
        objects := [⟨some ['a'], none, .set (some ['x'])⟩, ⟨some ['b'], none, .set (some ['y'])⟩] }
          = some (some buffer) ∧ buffer.outside = [] ∧
      buffer.cells = (joinSp ["a=x".toList, "b=y".toList] ++ ['\x00']).map some :=
  trapContentsBlock_exact _ (List.cons_ne_nil _ _) (by simp)

/-! ## The text of the buffer -/

/-- The loop of the texts goes on in the same way. -/
theorem contentsLoop_joinSp (objects : List MibObject) :
    ∀ {done texts : List Str}, done ≠ [] → objects.map objectContents = texts.map some →
      contentsLoop (some (joinSp done)) objects = some (some (joinSp (done ++ texts))) := by
  induction objects with
  | nil =>
      intro done texts _ htexts
      obtain rfl : texts = [] := by simpa using htexts.symm
      rw [List.append_nil]
      rfl
  | cons o os ih =>
      intro done texts hne htexts
      cases texts with
      | nil => simp at htexts
      | cons text texts =>
          rw [List.map_cons, List.map_cons, List.cons.injEq] at htexts
          rw [contentsLoop, htexts.1, ← List.singleton_append, ← List.append_assoc]
          simp only
          rw [← joinSp_append_singleton hne text]
          exact ih (by simp) htexts.2

/-- The text that `trap_get_contents` returns. -/
theorem trapGetContents_eq {trap : Trap} (hne : trap.objects ≠ [])
    (hfields : ∀ o ∈ trap.objects, o.oid ≠ none ∧ ∃ q, o.quoted_value = .set (some q)) :
    trapGetContents trap = some (some (joinSp (trap.objects.filterMap objectContents))) := by
  have htexts := exists_texts hfields
  unfold trapGetContents
  obtain ⟨o, os, hobjects⟩ := List.exists_cons_of_ne_nil hne
  rw [hobjects] at htexts ⊢
  cases hcons : (o :: os).filterMap objectContents with
  | nil => simp [hcons] at htexts
  | cons text texts =>
      rw [hcons, List.map_cons, List.map_cons, List.cons.injEq] at htexts
      rw [contentsLoop, htexts.1]
      have hloop := contentsLoop_joinSp os (List.cons_ne_nil text []) htexts.2
      rwa [joinSp_singleton] at hloop

/-- **The buffer is read as that text**, when no field has a NUL in it. -/
theorem readTo_trapContentsBlock {trap : Trap} (hne : trap.objects ≠ [])
    (hfields : ∀ o ∈ trap.objects, o.oid ≠ none ∧ ∃ q, o.quoted_value = .set (some q))
    (hnul : '\x00' ∉ joinSp (trap.objects.filterMap objectContents)) :
    ∃ buffer text, trapContentsBlock trap = some (some buffer) ∧
      trapGetContents trap = some (some text) ∧ readTo '\x00' buffer.cells = some text := by
  obtain ⟨buffer, hbuffer, hout, hcells⟩ := trapContentsBlock_exact trap hne hfields
  have hholds : Holds buffer (joinSp (trap.objects.filterMap objectContents) ++ ['\x00']) :=
    ⟨by rw [hcells], hout⟩
  exact ⟨buffer, _, hbuffer, trapGetContents_eq hne hfields, hholds.readTo hnul⟩

end Trapd
