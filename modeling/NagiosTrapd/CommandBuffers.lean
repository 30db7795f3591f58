/-
# The buffers of `expand_command_internal`

The loop of `command.c` again, with the sizes of its two buffers and every index it
writes.  The counters are taken as large as needed; the sizes are the ones of the code.

* `expandWrites_inBounds_iff`: the only writes that can miss their buffer are the two
  terminators, and a command text says when they do.
* `nBufferWrites_inBounds_iff`: the same for the copy of an argument's number.
-/
import NagiosTrapd.CommandMacros
import NagiosTrapd.Doubling

namespace Trapd

open Doubling Template Words

/-! ## Sizes and writes -/

/-- `TMPBUFLEN_SMALL`. -/
def TMPBUFLEN_SMALL : ℕ := 128

/-- A write of `count` bytes from index `start` on, into a buffer of `size` bytes. -/
structure BufWrite where
  start : ℕ
  count : ℕ
  size : ℕ
  deriving DecidableEq, Repr

/-- Every index written is below the size. -/
def BufWrite.InBounds (w : BufWrite) : Prop :=
  ∀ k, w.start ≤ k → k < w.start + w.count → k < w.size

/-- The growth of a buffer before a character is read. -/
def growFull (len i : ℕ) : ℕ := if i > len - 1 then len * 2 else len

/-- The growth of `buffer` before `n` bytes are copied. -/
def growFor (buflen i n : ℕ) : ℕ := if i + n > buflen - 1 then buflen * 2 + n else buflen

/-- The variables of the loop with the sizes of the buffers; `i` and `j` are the lengths of
`buffer` and `macrobuffer`. -/
structure SizedState extends ExpandState where
  buflen : ℕ
  macrobuflen : ℕ
  writes : List BufWrite
  deriving DecidableEq, Repr

/-- The variables before the first character. -/
def SizedState.init : SizedState := ⟨.init, TMPBUFLEN, TMPBUFLEN_SMALL, []⟩

/-- One iteration of the loop with its writes. -/
def sizedStep (expand_hook : ExpandHook) (s : SizedState) (c : Char) : SizedState :=
  let i := s.buffer.length
  let j := s.macrobuffer.length
  let buflen := growFull s.buflen i
  let macrobuflen := growFull s.macrobuflen j
  let next := expandStep expand_hook s.toExpandState c
  match s.status with
  | .normal =>
      if c = '$' then ⟨next, buflen, macrobuflen, s.writes ++ [⟨0, 1, macrobuflen⟩]⟩
      else ⟨next, buflen, macrobuflen, s.writes ++ [⟨i, 1, buflen⟩]⟩
  | .possible =>
      if c = '$' then
        -- the closing dollar sign and the terminator, then the copy into `buffer`
        let closing := [⟨j, 1, macrobuflen⟩, ⟨j + 1, 1, macrobuflen⟩]
        match expand_hook (s.macrobuffer ++ [c]) with
        | some macrovalue =>
            let macrovaluelen := macrovalue.length
            let buflen := growFor buflen i macrovaluelen
            ⟨next, buflen, macrobuflen, s.writes ++ closing ++ [⟨i, macrovaluelen, buflen⟩]⟩
        | none =>
            -- `j + 1` bytes are copied, room is made for `j`
            let buflen := growFor buflen i j
            ⟨next, buflen, macrobuflen, s.writes ++ closing ++ [⟨i, j + 1, buflen⟩]⟩
      else ⟨next, buflen, macrobuflen, s.writes ++ [⟨j, 1, macrobuflen⟩]⟩

/-- All writes, with those behind the loop. -/
def SizedState.allWrites (s : SizedState) : List BufWrite :=
  let i := s.buffer.length
  let j := s.macrobuffer.length
  match s.status with
  | .normal => s.writes ++ [⟨i, 1, s.buflen⟩]
  | .possible =>
      let buflen := growFor s.buflen i j
      s.writes ++ [⟨i, j, buflen⟩, ⟨i + j, 1, buflen⟩]

/-- The writes of `expand_command_internal` into its buffers. -/
def expandWrites (expand_hook : ExpandHook) (text : Str) : List BufWrite :=
  (text.foldl (sizedStep expand_hook) .init).allWrites

/-- The size of `n_buffer`. -/
def N_BUFFER_LEN : ℕ := 32

/-- The writes of `_expand_hook_3` into `n_buffer`. -/
def nBufferWrites (args : Option (List (Option Str))) (name : Str) : List BufWrite :=
  if name = hostAddressName then []
  else if name = senderAddressName then []
  else if name.take 4 ≠ argPrefix then []
  else match args with
    | none => []
    | some _ => [⟨0, name.length - 5, N_BUFFER_LEN⟩, ⟨name.length - 5, 1, N_BUFFER_LEN⟩]

/-- The sizes make no difference to what is computed. -/
theorem toExpandState_sizedStep (expand_hook : ExpandHook) (s : SizedState) (c : Char) :
    (sizedStep expand_hook s c).toExpandState = expandStep expand_hook s.toExpandState c := by
  unfold sizedStep
  cases s.status with
  | normal => split_ifs <;> rfl
  | possible =>
      simp only
      split_ifs
      · cases expand_hook (s.macrobuffer ++ [c]) <;> rfl
      · rfl

/-- The result is the one of the loop without sizes. -/
theorem finish_foldl_sizedStep (expand_hook : ExpandHook) (text : Str) :
    expandCommandInternal expand_hook (some text)
      = some (text.foldl (sizedStep expand_hook) .init).toExpandState.finish := by
  have h : ∀ s : SizedState, (text.foldl (sizedStep expand_hook) s).toExpandState
      = text.foldl (expandStep expand_hook) s.toExpandState := by
    induction text with
    | nil => exact fun _ => rfl
    | cons c text ih =>
        intro s
        rw [List.foldl_cons, List.foldl_cons, ih, toExpandState_sizedStep]
  rw [h]
  rfl

/-! ## One write -/

theorem inBounds_one {start size : ℕ} : (BufWrite.mk start 1 size).InBounds ↔ start < size := by
  constructor
  · intro h
    exact h start le_rfl (Nat.lt_succ_self start)
  · intro h k hk hk'
    simp only at hk hk' ⊢
    omega

theorem inBounds_of_le {start count size : ℕ} (h : start + count ≤ size) :
    (BufWrite.mk start count size).InBounds := fun _ _ hk' => lt_of_lt_of_le hk' h

theorem growFull_eq_room {len : ℕ} (hlen : 0 < len) (i : ℕ) : growFull len i = room len i := by
  unfold growFull room
  split_ifs <;> omega

theorem growFull_of_lt {len i : ℕ} (h : i < len) : growFull len i = len := by
  unfold growFull
  rw [if_neg]
  omega

theorem growFor_eq {buflen i n : ℕ} (hlen : 0 < buflen) :
    growFor buflen i n = if i + n < buflen then buflen else buflen * 2 + n := by
  unfold growFor
  split_ifs <;> omega

theorem growFor_pos {buflen : ℕ} (hlen : 0 < buflen) (i n : ℕ) : 0 < growFor buflen i n := by
  unfold growFor
  split_ifs <;> omega

/-! ## The loop between two dollar signs -/

/-- A character is put into `buffer`. -/
theorem sizedStep_copy (expand_hook : ExpandHook) {c : Char} (hc : c ≠ '$') {b mac : Str}
    {B M : ℕ} (hB : 0 < B) (hM : mac.length < M) (W : List BufWrite) :
    sizedStep expand_hook ⟨⟨.normal, b, mac⟩, B, M, W⟩ c
      = ⟨⟨.normal, b ++ [c], mac⟩, room B b.length, M,
          W ++ [⟨b.length, 1, room B b.length⟩]⟩ := by
  simp only [sizedStep, expandStep, if_neg hc, growFull_of_lt hM, growFull_eq_room hB]

/-- A dollar sign opens a macro. -/
theorem sizedStep_open (expand_hook : ExpandHook) {b mac : Str} {B M : ℕ} (hB : 0 < B)
    (hM : mac.length < M) (W : List BufWrite) :
    sizedStep expand_hook ⟨⟨.normal, b, mac⟩, B, M, W⟩ '$'
      = ⟨⟨.possible, b, ['$']⟩, room B b.length, M, W ++ [⟨0, 1, M⟩]⟩ := by
  simp only [sizedStep, expandStep, if_true, growFull_of_lt hM, growFull_eq_room hB]

/-- A character is put into `macrobuffer`. -/
theorem sizedStep_collect (expand_hook : ExpandHook) {c : Char} (hc : c ≠ '$') {b mac : Str}
    {B M : ℕ} (hB : b.length < B) (hM : 0 < M) (W : List BufWrite) :
    sizedStep expand_hook ⟨⟨.possible, b, mac⟩, B, M, W⟩ c
      = ⟨⟨.possible, b, mac ++ [c]⟩, B, room M mac.length,
          W ++ [⟨mac.length, 1, room M mac.length⟩]⟩ := by
  simp only [sizedStep, expandStep, if_neg hc, growFull_of_lt hB, growFull_eq_room hM]

/-- A buffer that grows with every character is filled inside its bounds. -/
theorem foldl_sizedStep_fill {expand_hook : ExpandHook}
    {filled : Str → ℕ → List BufWrite → SizedState}
    (hstep : ∀ {c : Char} {t : Str} {S : ℕ} {W : List BufWrite}, c ≠ '$' → 0 < S →
      sizedStep expand_hook (filled t S W) c
        = filled (t ++ [c]) (room S t.length) (W ++ [⟨t.length, 1, room S t.length⟩]))
    {p : Str} (hp : '$' ∉ p) {t : Str} {S : ℕ} (hS : 0 < S) (ht : t.length ≤ S)
    (W : List BufWrite) :
    ∃ S' W', p.foldl (sizedStep expand_hook) (filled t S W) = filled (t ++ p) S' (W ++ W') ∧
      (∀ w ∈ W', w.InBounds) ∧ Filling S (t ++ p).length S' := by
  induction p using List.reverseRecOn with
  | nil => exact ⟨S, [], by simp, by simp, by simpa using Filling.start hS ht⟩
  | append_singleton p c ih =>
      have hc : c ≠ '$' := fun h => hp (by simp [h])
      obtain ⟨S', W', hfold, hW', hfill⟩ := ih fun h => hp (List.mem_append_left _ h)
      refine ⟨room S' (t ++ p).length, W' ++ [⟨(t ++ p).length, 1, room S' (t ++ p).length⟩],
        ?_, ?_, ?_⟩
      · rw [List.foldl_append, hfold, List.foldl_cons, List.foldl_nil, hstep hc (hfill.pos hS)]
        simp only [List.append_assoc]
      · intro w hw
        rcases List.mem_append.mp hw with hw | hw
        · exact hW' w hw
        · rw [List.mem_singleton.mp hw, inBounds_one]
          exact hfill.lt_room hS
      · have hput := hfill.put hS
        rwa [← List.append_assoc, List.length_append, List.length_singleton]

/-- `buffer` is filled character by character. -/
theorem foldl_sizedStep_copy (expand_hook : ExpandHook) {p : Str} (hp : '$' ∉ p) {b mac : Str}
    {B M : ℕ} (hB : 0 < B) (hb : b.length ≤ B) (hM : mac.length < M) (W : List BufWrite) :
    ∃ B' W', p.foldl (sizedStep expand_hook) ⟨⟨.normal, b, mac⟩, B, M, W⟩
        = ⟨⟨.normal, b ++ p, mac⟩, B', M, W ++ W'⟩ ∧
      (∀ w ∈ W', w.InBounds) ∧ Filling B (b ++ p).length B' := by
  apply @foldl_sizedStep_fill expand_hook fun t S W => ⟨⟨.normal, t, mac⟩, S, M, W⟩
  · exact fun hc hS => sizedStep_copy expand_hook hc hS hM _
  · exact hp
  · exact hB
  · exact hb

/-- `macrobuffer` is filled character by character. -/
theorem foldl_sizedStep_collect (expand_hook : ExpandHook) {q : Str} (hq : '$' ∉ q)
    {b mac : Str} {B M : ℕ} (hB : b.length < B) (hM : 0 < M) (hmac : mac.length ≤ M)
    (W : List BufWrite) :
    ∃ M' W', q.foldl (sizedStep expand_hook) ⟨⟨.possible, b, mac⟩, B, M, W⟩
        = ⟨⟨.possible, b, mac ++ q⟩, B, M', W ++ W'⟩ ∧
      (∀ w ∈ W', w.InBounds) ∧ Filling M (mac ++ q).length M' := by
  apply @foldl_sizedStep_fill expand_hook fun t S W => ⟨⟨.possible, b, t⟩, B, S, W⟩
  · exact fun hc hS => sizedStep_collect expand_hook hc hB hS _
  · exact hq
  · exact hM
  · exact hmac

/-- What `buffer` is asked for at the end of a macro: the length of the value, or one less
than that of the text that is copied. -/
def asked (value : Str → Option Str) (m : Str) : ℕ :=
  match value m with
  | some v => v.length
  | none => m.length + 1

/-- The copy behind a macro fits: room is made for what is asked, and `buffer` is not full. -/
theorem length_le_growFor (value : Str → Option Str) {b : Str} {B : ℕ}
    (hB : b.length < B) (name : Str) :
    b.length + ((value name).getD (delimited '$' name)).length
      ≤ growFor B b.length (asked value name) := by
  have hlen : (delimited '$' name).length = name.length + 2 := by simp [delimited]
  rw [growFor_eq (by omega)]
  unfold asked
  cases value name with
  | some v =>
      simp only [Option.getD_some]
      split_ifs <;> omega
  | none =>
      simp only [Option.getD_none, hlen]
      split_ifs <;> omega

/-- A dollar sign closes a macro. -/
theorem sizedStep_close (expand_hook : ExpandHook) {b : Str} {B M : ℕ}
    (hB : b.length < B) (hM : 0 < M) (name : Str) (W : List BufWrite) :
    ∃ W', sizedStep expand_hook ⟨⟨.possible, b, '$' :: name⟩, B, M, W⟩ '$'
        = ⟨⟨.normal, b ++ (expand_hook.value name).getD (delimited '$' name), '$' :: name⟩,
            growFor B b.length (asked expand_hook.value name), room M (name.length + 1),
            W ++ W'⟩ ∧
      ((∀ w ∈ W', w.InBounds) ↔ name.length + 2 < room M (name.length + 1)) := by
  refine ⟨[⟨name.length + 1, 1, room M (name.length + 1)⟩,
    ⟨name.length + 2, 1, room M (name.length + 1)⟩,
    ⟨b.length, ((expand_hook.value name).getD (delimited '$' name)).length,
      growFor B b.length (asked expand_hook.value name)⟩], ?_, ?_⟩
  · have hname : expand_hook ('$' :: (name ++ ['$'])) = expand_hook.value name := rfl
    simp only [sizedStep, expandStep, if_true, growFull_of_lt hB, growFull_eq_room hM,
      List.cons_append, hname, asked, List.length_cons]
    cases expand_hook.value name with
    | some v => simp
    | none => simp [delimited]
  · have hcopy := inBounds_of_le (length_le_growFor expand_hook.value hB name)
    simp only [List.forall_mem_cons, inBounds_one, hcopy]
    simp
    omega

/-! ## The whole loop -/

/-- `macrobuffer` has room for the terminator behind each name, when it starts with `size`
bytes. -/
def NamesFit : ℕ → List Str → Prop
  | _, [] => True
  | size, m :: ms => (∀ k, m.length + 2 ≠ size * 2 ^ k) ∧ NamesFit (grown size (m.length + 1)) ms

/-- `buffer` has room for its terminator, when `i` of its `size` bytes are used and the pieces
of the rest of the command are given. -/
def TextFits (value : Str → Option Str) : ℕ → ℕ → List Str → Prop
  | _, _, [] => True
  | i, size, [p] => ∀ k, i + p.length ≠ size * 2 ^ k
  | _, _, [_, _] => True
  | i, size, p :: m :: r :: ps =>
      let i := i + p.length
      let size := grown size i
      TextFits value (i + ((value m).getD (delimited '$' m)).length)
        (if i + asked value m < size then size else size * 2 + asked value m) (r :: ps)

theorem textFits_pair (value : Str → Option Str) (i : ℕ) {size : ℕ} (hsize : 0 < size)
    {p m : Str} (hp : '$' ∉ p) (hm : '$' ∉ m) (s : Str) :
    TextFits value i size (pieces '$' (p ++ '$' :: (m ++ '$' :: s)))
      ↔ TextFits value (i + p.length + ((value m).getD (delimited '$' m)).length)
          (growFor (grown size (i + p.length)) (i + p.length) (asked value m)) (pieces '$' s) := by
  have hgrown := lt_grown hsize (i + p.length)
  obtain ⟨r, ps, hps⟩ := List.exists_cons_of_ne_nil (pieces_ne_nil '$' s)
  rw [pieces_append_cons hp, pieces_append_cons hm, hps, TextFits, growFor_eq (by omega)]

/-- A part of a command up to an open dollar sign and what follows it. -/
theorem foldl_sizedStep_open (expand_hook : ExpandHook) {p q : Str} (hp : '$' ∉ p)
    (hq : '$' ∉ q) {b mac : Str} {B M : ℕ} (hB : 0 < B) (hb : b.length ≤ B)
    (hM : mac.length < M) (W : List BufWrite) :
    ∃ M' W', (p ++ '$' :: q).foldl (sizedStep expand_hook) ⟨⟨.normal, b, mac⟩, B, M, W⟩
        = ⟨⟨.possible, b ++ p, '$' :: q⟩, grown B (b.length + p.length), M', W ++ W'⟩ ∧
      (∀ w ∈ W', w.InBounds) ∧ Filling M (q.length + 1) M' := by
  obtain ⟨B', W₁, hcopy, hW₁, hfill⟩ := foldl_sizedStep_copy expand_hook hp hB hb hM W
  have hsize : room B' (b ++ p).length = grown B (b.length + p.length) := by
    rw [hfill.room_eq, List.length_append]
  have hlt : (b ++ p).length < grown B (b.length + p.length) := by
    rw [List.length_append]
    exact lt_grown hB _
  obtain ⟨M', W₂, hcollect, hW₂, hfill'⟩ :=
    foldl_sizedStep_collect expand_hook hq hlt (show 0 < M by omega)
      (show ['$'].length ≤ M by rw [List.length_singleton]; omega) (W ++ W₁ ++ [⟨0, 1, M⟩])
  refine ⟨M', W₁ ++ ([⟨0, 1, M⟩] ++ W₂), ?_, ?_, by simpa using hfill'⟩
  · rw [List.foldl_append, hcopy, List.foldl_cons,
      sizedStep_open expand_hook (hfill.pos hB) hM, hsize, hcollect]
    simp only [List.append_assoc, List.singleton_append]
  · simp only [List.forall_mem_append, List.forall_mem_singleton, inBounds_one]
    exact ⟨hW₁, by omega, hW₂⟩

/-- The writes of the loop from between two macros on. -/
theorem foldl_sizedStep_inBounds (expand_hook : ExpandHook) (text : Str) :
    ∀ {b mac : Str} {B M : ℕ}, 0 < B → b.length ≤ B → mac.length < M → ∀ W : List BufWrite,
      ((∀ w ∈ (text.foldl (sizedStep expand_hook) ⟨⟨.normal, b, mac⟩, B, M, W⟩).allWrites,
          w.InBounds) ↔
        (∀ w ∈ W, w.InBounds) ∧ NamesFit M (names '$' text) ∧
          TextFits expand_hook.value b.length B (pieces '$' text)) := by
  induction text using pairs_induction '$' with
  | plain p hp =>
      intro b mac B M hB hb hM W
      obtain ⟨B', W', hfold, hW', hfill⟩ := foldl_sizedStep_copy expand_hook hp hB hb hM W
      rw [List.length_append] at hfill
      rw [hfold, names_plain hp, pieces_last hp]
      simp only [SizedState.allWrites, NamesFit, TextFits, List.forall_mem_append,
        List.forall_mem_singleton, inBounds_one, List.length_append, hfill.lt_iff]
      tauto
  | unpaired p q hp hq =>
      intro b mac B M hB hb hM W
      obtain ⟨M', W', hfold, hW', hfill⟩ := foldl_sizedStep_open expand_hook hp hq hB hb hM W
      -- with the room that is made there is an index left behind the last bytes
      have hlt : (b ++ p).length + ('$' :: q).length
          < growFor (grown B (b.length + p.length)) (b ++ p).length ('$' :: q).length := by
        have hgrown := lt_grown hB (b.length + p.length)
        rw [growFor_eq (by omega), List.length_append]
        split_ifs <;> omega
      rw [hfold, names_unpaired hp hq, pieces_append_cons hp, pieces_last hq]
      simp only [SizedState.allWrites, NamesFit, TextFits, List.forall_mem_append,
        List.forall_mem_cons, inBounds_one, inBounds_of_le hlt.le, hlt]
      simpa using fun _ => hW'
  | pair p m s hp hm ih =>
      intro b mac B M hB hb hM W
      obtain ⟨M', W₁, hopen, hW₁, hfill⟩ := foldl_sizedStep_open expand_hook hp hm hB hb hM W
      have hlt : (b ++ p).length < grown B (b.length + p.length) := by
        rw [List.length_append]
        exact lt_grown hB _
      obtain ⟨W₂, hclose, hW₂⟩ := sizedStep_close expand_hook hlt
        (hfill.pos (show 0 < M by omega)) m (W ++ W₁)
      have hput := (hfill.put (show 0 < M by omega)).lt_iff
      rw [hput] at hW₂
      have hfits := length_le_growFor expand_hook.value hlt m
      have hrest := @ih (b ++ p ++ (expand_hook.value m).getD (delimited '$' m)) ('$' :: m)
        (growFor (grown B (b.length + p.length)) (b ++ p).length (asked expand_hook.value m))
        (grown M (m.length + 1)) (growFor_pos (by omega) _ _)
          (by rw [List.length_append]; exact hfits)
        (lt_grown (by omega) _) (W ++ W₁ ++ W₂)
      rw [show p ++ '$' :: (m ++ '$' :: s) = (p ++ '$' :: m) ++ '$' :: s by simp,
        List.foldl_append, hopen, List.foldl_cons, hclose, hfill.room_eq, hrest]
      rw [show (p ++ '$' :: m) ++ '$' :: s = p ++ '$' :: (m ++ '$' :: s) by simp,
        names_pair hp hm, textFits_pair _ _ hB hp hm]
      simp only [NamesFit, List.forall_mem_append, hW₂, List.length_append]
      tauto

/-- A name for which `macrobuffer` is exactly full comes behind a longer one. -/
def FullNamesFollow (size : ℕ) (ms : List Str) : Prop :=
  ∀ l m r, ms = l ++ m :: r → (∃ k, m.length + 2 = size * 2 ^ k) → ∃ m' ∈ l, m.length < m'.length

/-- The room for the terminators in terms of the lengths alone. -/
theorem namesFit_iff {size : ℕ} (hsize : 0 < size) (ms : List Str) :
    NamesFit size ms ↔ FullNamesFollow size ms := by
  induction ms generalizing size with
  | nil => exact iff_of_true trivial fun l m r h => absurd h (by simp)
  | cons m₀ ms ih =>
      have hgrown : 0 < grown size (m₀.length + 1) := Nat.zero_lt_of_lt (lt_grown hsize _)
      rw [NamesFit, ih hgrown]
      constructor
      · rintro ⟨hfirst, hrest⟩ l m r heq ⟨k, hk⟩
        cases l with
        | nil =>
            obtain rfl : m₀ = m := (List.cons.inj heq).1
            exact absurd hk (hfirst k)
        | cons m₁ l =>
            obtain ⟨rfl, hms⟩ := List.cons.inj heq
            by_cases hlt : m.length < m₀.length
            · exact ⟨m₀, List.mem_cons_self, hlt⟩
            · have hfull := (exists_eq_grown_mul_iff hsize (n := m₀.length + 1)).mpr
                ⟨show m₀.length + 1 < m.length + 2 by omega, k, hk⟩
              obtain ⟨m', hm', hlt'⟩ := hrest l m r hms hfull
              exact ⟨m', List.mem_cons_of_mem m₀ hm', hlt'⟩
      · intro h
        refine ⟨fun k hk => ?_, fun l m r hms hfull => ?_⟩
        · obtain ⟨m', hm', -⟩ := h [] m₀ ms rfl ⟨k, hk⟩
          exact absurd hm' List.not_mem_nil
        · obtain ⟨hlt, hk⟩ := (exists_eq_grown_mul_iff hsize).mp hfull
          obtain ⟨m', hm', hlt'⟩ := h (m₀ :: l) m r (by rw [hms, List.cons_append]) hk
          rcases List.mem_cons.mp hm' with rfl | hm'
          · omega
          · exact ⟨m', hm', hlt'⟩

theorem expandWrites_inBounds_iff (expand_hook : ExpandHook) (text : Str) :
    (∀ w ∈ expandWrites expand_hook text, w.InBounds) ↔
      FullNamesFollow TMPBUFLEN_SMALL (names '$' text) ∧
        TextFits expand_hook.value 0 TMPBUFLEN (pieces '$' text) := by
  rw [← namesFit_iff (by decide)]
  have h := @foldl_sizedStep_inBounds expand_hook text [] [] TMPBUFLEN TMPBUFLEN_SMALL
    (by decide) (by decide) (by decide) []
  rw [expandWrites, SizedState.init, ExpandState.init, h]
  simp

/-- A text without dollar sign must not fill the buffer exactly. -/
theorem expandWrites_plain_inBounds_iff (expand_hook : ExpandHook) {text : Str}
    (h : '$' ∉ text) :
    (∀ w ∈ expandWrites expand_hook text, w.InBounds) ↔ ∀ k, text.length ≠ TMPBUFLEN * 2 ^ k := by
  rw [expandWrites_inBounds_iff, names_plain h, pieces_last h, TextFits, Nat.zero_add]
  simp [FullNamesFollow]

/-- The number of an argument has room for 31 characters. -/
theorem nBufferWrites_inBounds_iff (args : Option (List (Option Str))) (m : Str) :
    (∀ w ∈ nBufferWrites args (delimited '$' m), w.InBounds) ↔
      args = none ∨ ¬ "ARG".toList <+: m ∨ m.length < 35 := by
  by_cases harg : (delimited '$' m).take 4 = argPrefix
  · have hm : "ARG".toList <+: m := take_delimited_eq_iff.mp harg
    have hthree : 3 ≤ m.length := hm.length_le
    have hlen : (delimited '$' m).length - 5 = m.length - 3 := by
      simp [delimited]
    unfold nBufferWrites
    rw [if_neg (ne_hostAddressName_of_arg harg), if_neg (ne_senderAddressName_of_arg harg),
      if_neg (not_not.mpr harg)]
    cases args with
    | none => simp
    | some args =>
        rw [hlen]
        have hcopy : m.length - 3 < N_BUFFER_LEN →
            (BufWrite.mk 0 (m.length - 3) N_BUFFER_LEN).InBounds := fun h =>
          inBounds_of_le (by omega)
        simp only [List.forall_mem_cons, inBounds_one]
        constructor
        · rintro ⟨-, hlt, -⟩
          unfold N_BUFFER_LEN at hlt
          exact Or.inr (Or.inr (by omega))
        · rintro (h | h | h)
          · exact absurd h (by simp)
          · exact absurd hm h
          · have hlt : m.length - 3 < N_BUFFER_LEN := by
              unfold N_BUFFER_LEN
              omega
            exact ⟨hcopy hlt, hlt, by simp⟩
  -- another macro is not copied
  · have hm : ¬ "ARG".toList <+: m := mt take_delimited_eq_iff.mpr harg
    have hnone : nBufferWrites args (delimited '$' m) = [] := by
      unfold nBufferWrites
      rw [if_pos harg]
      split_ifs <;> rfl
    rw [hnone]
    exact iff_of_true (by simp) (Or.inr (Or.inl hm))

/-- **When an expansion stays inside its buffers**: `macrobuffer` by the lengths of the
names, `buffer` by those of the pieces of the command and of the values, and `n_buffer`
by the length of the number. -/
theorem expansion_inBounds_iff (expand_hook : ExpandHook) (text : Str)
    (args : Option (List (Option Str))) (m : Str) :
    ((∀ w ∈ expandWrites expand_hook text, w.InBounds) ↔
      FullNamesFollow TMPBUFLEN_SMALL (names '$' text) ∧
        TextFits expand_hook.value 0 TMPBUFLEN (pieces '$' text)) ∧
    ((∀ w ∈ nBufferWrites args (delimited '$' m), w.InBounds) ↔
      args = none ∨ ¬ "ARG".toList <+: m ∨ m.length < 35) :=
  ⟨expandWrites_inBounds_iff expand_hook text, nBufferWrites_inBounds_iff args m⟩

/-- A command of 1024 characters has no room for its terminator. -/
theorem not_expansion_inBounds :
    ¬ ((∀ (expand_hook : ExpandHook) (text : Str),
        ∀ w ∈ expandWrites expand_hook text, w.InBounds) ∧
      ∀ (args : Option (List (Option Str))) (m : Str),
        ∀ w ∈ nBufferWrites args (delimited '$' m), w.InBounds) := by
  rintro ⟨h, -⟩
  have hplain : '$' ∉ List.replicate 1024 'x' := fun hmem =>
    absurd (List.eq_of_mem_replicate hmem) (by decide)
  exact (expandWrites_plain_inBounds_iff (fun _ => none) hplain).mp (h _ _) 0
    (by rw [List.length_replicate]; rfl)

end Trapd
