/-
# Buffers that double when they are full

A small library on sizes.  Items are put into a buffer one by one; before each of
them the buffer is doubled if no index is left.  `grown size n` is the size such a
buffer has once there is room for an item at index `n`: `size` doubled as often as
needed.  `Filling size n size'` is the invariant between two items; it also says when
the buffer is exactly full, which is when `n` is `size` times a power of two.
-/
import Mathlib.Data.Nat.Size
import Mathlib.Tactic.SplitIfs
import Mathlib.Algebra.Order.Ring.Nat

namespace Doubling

/-- The size after the test that is made before an item is put at index `n`. -/
def room (size n : ℕ) : ℕ := if n < size then size else size * 2

/-- `size` doubled until `n` is an index. -/
def grown (size n : ℕ) : ℕ := size * 2 ^ Nat.size (n / size)

/-- The doubled sizes that have an index `n` are those from `grown size n` on. -/
theorem grown_le_iff {size : ℕ} (hsize : 0 < size) {n k : ℕ} :
    grown size n ≤ size * 2 ^ k ↔ n < size * 2 ^ k := by
  rw [grown, Nat.mul_le_mul_left_iff hsize, Nat.pow_le_pow_iff_right (by omega), Nat.size_le,
    Nat.div_lt_iff_lt_mul hsize, Nat.mul_comm]

/-- A grown size is large enough. -/
theorem lt_grown {size : ℕ} (hsize : 0 < size) (n : ℕ) : n < grown size n :=
  (grown_le_iff hsize).mp le_rfl

/-- It is the size, doubled some number of times. -/
theorem exists_grown (size n : ℕ) : ∃ k, grown size n = size * 2 ^ k := ⟨_, rfl⟩

/-- A size that is large enough is kept. -/
theorem grown_of_lt {size n : ℕ} (h : n < size) : grown size n = size := by
  rw [grown, Nat.div_eq_of_lt h, Nat.size_zero, pow_zero, Nat.mul_one]

/-- For more room there is no smaller size. -/
theorem grown_mono {size : ℕ} (hsize : 0 < size) {n m : ℕ} (h : n ≤ m) :
    grown size n ≤ grown size m :=
  (grown_le_iff hsize).mpr (lt_of_le_of_lt h (lt_grown hsize m))

/-- One more item: the size is doubled if it is reached. -/
theorem grown_succ {size : ℕ} (hsize : 0 < size) (n : ℕ) :
    grown size (n + 1) = room (grown size n) (n + 1) := by
  obtain ⟨k, hk⟩ := exists_grown size n
  have hn : n < grown size n := lt_grown hsize n
  have hmono : grown size n ≤ grown size (n + 1) := grown_mono hsize (Nat.le_succ n)
  unfold room
  split_ifs with hlt
  · apply le_antisymm _ hmono
    rw [hk, grown_le_iff hsize, ← hk]
    exact hlt
  · have hdouble : grown size n * 2 = size * 2 ^ (k + 1) := by rw [hk, pow_succ, Nat.mul_assoc]
    have hle : grown size (n + 1) ≤ grown size n * 2 := by
      rw [hdouble, grown_le_iff hsize, ← hdouble]
      omega
    -- a doubled size above `grown size n` is at least twice as large
    obtain ⟨l, hl⟩ := exists_grown size (n + 1)
    have hgt : size * 2 ^ k < size * 2 ^ l := by
      have hlast := lt_grown hsize (n + 1)
      rw [← hk, ← hl]
      omega
    have hkl : k < l := (Nat.pow_lt_pow_iff_right (by omega)).mp (Nat.lt_of_mul_lt_mul_left hgt)
    have hge : size * 2 ^ (k + 1) ≤ size * 2 ^ l :=
      Nat.mul_le_mul_left size (Nat.pow_le_pow_right (by omega) hkl)
    omega

/-- The doubled sizes above `n` are those of a buffer that has been doubled for `n`. -/
theorem exists_eq_grown_mul_iff {size : ℕ} (hsize : 0 < size) {n x : ℕ} :
    (∃ k, x = grown size n * 2 ^ k) ↔ n < x ∧ ∃ k, x = size * 2 ^ k := by
  obtain ⟨a, ha⟩ := exists_grown size n
  constructor
  · rintro ⟨k, rfl⟩
    refine ⟨?_, a + k, by rw [ha, pow_add, Nat.mul_assoc]⟩
    exact lt_of_lt_of_le (lt_grown hsize n) (Nat.le_mul_of_pos_right _ (Nat.two_pow_pos k))
  · rintro ⟨hlt, k, rfl⟩
    have hle : size * 2 ^ a ≤ size * 2 ^ k := by
      rw [← ha]
      exact (grown_le_iff hsize).mpr hlt
    have hak : a ≤ k :=
      (Nat.pow_le_pow_iff_right (by omega)).mp (Nat.le_of_mul_le_mul_left hle hsize)
    exact ⟨k - a, by rw [ha, Nat.mul_assoc, ← pow_add, Nat.add_sub_cancel' hak]⟩

/-- A buffer that began with `size` has `size'`, when `n` items are in it. -/
structure Filling (size n size' : ℕ) : Prop where
  le : n ≤ size'
  room_eq : room size' n = grown size n
  lt_iff : n < size' ↔ ∀ k, n ≠ size * 2 ^ k

/-- Nothing has been put in yet, or what fitted. -/
theorem Filling.start {size n : ℕ} (hsize : 0 < size) (hn : n ≤ size) : Filling size n size where
  le := hn
  room_eq := by
    unfold room
    split_ifs with hlt
    · exact (grown_of_lt hlt).symm
    · obtain rfl : n = size := by omega
      rw [grown, Nat.div_self hsize, show Nat.size 1 = 1 from Nat.size_one, pow_one]
  lt_iff := by
    constructor
    · intro hlt k hk
      have hge : size ≤ size * 2 ^ k := Nat.le_mul_of_pos_right size (Nat.two_pow_pos k)
      omega
    · intro h
      have hne : n ≠ size := by simpa using h 0
      omega

/-- The room for the next item is there after the test. -/
theorem Filling.lt_room {size n size' : ℕ} (hsize : 0 < size) (h : Filling size n size') :
    n < room size' n := by
  rw [h.room_eq]
  exact lt_grown hsize n

/-- A filled block is not empty. -/
theorem Filling.pos {size n size' : ℕ} (hsize : 0 < size) (h : Filling size n size') :
    0 < size' := by
  have hlt := h.lt_room hsize
  unfold room at hlt
  split_ifs at hlt <;> omega

/-- An item is put in after the test. -/
theorem Filling.put {size n size' : ℕ} (hsize : 0 < size) (h : Filling size n size') :
    Filling size (n + 1) (room size' n) where
  le := h.lt_room hsize
  room_eq := by rw [h.room_eq, grown_succ hsize]
  lt_iff := by
    have hn : n < grown size n := lt_grown hsize n
    rw [h.room_eq]
    constructor
    · intro hlt k hk
      have hle : grown size n ≤ size * 2 ^ k := by
        rw [grown_le_iff hsize]
        omega
      omega
    · intro hne
      obtain ⟨k, hk⟩ := exists_grown size n
      have hk' := hne k
      omega

end Doubling
