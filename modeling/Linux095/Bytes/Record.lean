import Mathlib.Algebra.Group.Nat.Defs

/-!
# `Bytes.Record` — numbers and records in memory

A number of `n` bytes is stored with its lowest byte first, and a record is some numbers, one behind the other.

* `get`, `put` — one number; `putAll` — a record, a list of widths and values;
* `get_put`, `get_putAll` — **what is read back is what has been written**, as far as it fits;
* `put_other`, `putAll_other` — nothing else changes.
-/

namespace Bytes

abbrev Memory : Type := Nat → BitVec 8

/-- The number of `n` bytes at `a`. -/
def get : Nat → Nat → Memory → Nat
  | 0, _, _ => 0
  | n + 1, a, m => (m a).toNat + 256 * get n (a + 1) m

/-- Stores `v` in `n` bytes at `a`. -/
def put (n v a : Nat) (m : Memory) : Memory := fun x =>
  if a ≤ x ∧ x < a + n then BitVec.ofNat 8 (v / 256 ^ (x - a)) else m x

/-- Stores a record at `a`. -/
def putAll : List (Nat × Nat) → Nat → Memory → Memory
  | [], _, m => m
  | (n, v) :: l, a, m => putAll l (a + n) (put n v a m)

/-- The size of a record. -/
def size : List (Nat × Nat) → Nat
  | [] => 0
  | f :: l => f.1 + size l

section

variable {n v a x : Nat} {m m' : Memory} {l : List (Nat × Nat)}

theorem size_append (l l' : List (Nat × Nat)) : size (l ++ l') = size l + size l' := by
  induction l with
  | nil => exact (Nat.zero_add _).symm
  | cons f l ih => rw [List.cons_append, size, size, ih, Nat.add_assoc]

/-- Numbers of the same width. -/
theorem size_map (n k : Nat) (f : Nat → Nat) : size ((List.range k).map fun i => (n, f i)) = n * k := by
  induction k with
  | zero => rfl
  | succ k ih => rw [List.range_succ, List.map_append, size_append, ih, Nat.mul_succ]; rfl

/-! ## One number -/

theorem put_other (h : x < a ∨ a + n ≤ x) : put n v a m x = m x := by
  unfold put
  rw [if_neg]
  omega

/-- Only the bytes of the number count. -/
theorem get_congr (h : ∀ i < n, m' (a + i) = m (a + i)) : get n a m' = get n a m := by
  induction n generalizing a with
  | zero => rfl
  | succ n ih =>
      have hfirst : m' a = m a := h 0 (Nat.zero_lt_succ n)
      have hrest : get n (a + 1) m' = get n (a + 1) m := by
        apply ih
        intro i hi
        have hnext := h (i + 1) (Nat.succ_lt_succ hi)
        rwa [← Nat.add_assoc, Nat.add_right_comm] at hnext
      rw [get, get, hfirst, hrest]

theorem get_lt : get n a m < 256 ^ n := by
  induction n generalizing a with
  | zero => exact Nat.one_pos
  | succ n ih =>
      have hrest := ih (a := a + 1)
      have hbyte := (m a).isLt
      rw [get, Nat.pow_succ]
      omega

/-- **A number is read as it has been written**, as far as it fits. -/
theorem get_put (n v a : Nat) (m : Memory) : get n a (put n v a m) = v % 256 ^ n := by
  induction n generalizing v a with
  | zero => exact (Nat.mod_one v).symm
  | succ n ih =>
      have hfirst : (put (n + 1) v a m a).toNat = v % 256 := by
        unfold put
        rw [if_pos (by omega), Nat.sub_self, Nat.pow_zero, Nat.div_one, BitVec.toNat_ofNat]
      -- The other bytes are those of `v / 256`.
      have hrest : get n (a + 1) (put (n + 1) v a m) = get n (a + 1) (put n (v / 256) (a + 1) m) := by
        apply get_congr
        intro i hi
        have hexp : a + 1 + i - a = i + 1 := by omega
        unfold put
        rw [if_pos (by omega), if_pos (by omega), hexp, Nat.add_sub_cancel_left, Nat.pow_succ', Nat.div_div_eq_div_mul]
      rw [get, hfirst, hrest, ih, Nat.pow_succ', Nat.mod_mul]

/-! ## Records -/

theorem putAll_other (h : x < a ∨ a + size l ≤ x) : putAll l a m x = m x := by
  induction l generalizing a m with
  | nil => rfl
  | cons f l ih =>
      rw [size] at h
      rw [putAll, ih (by omega), put_other (by omega)]

/-- **Each number of a record is read as it has been written.** -/
theorem get_putAll {i : Nat} (h : l[i]? = some (n, v)) :
    get n (a + size (l.take i)) (putAll l a m) = v % 256 ^ n := by
  induction l generalizing a m i with
  | nil => cases h
  | cons f l ih =>
      cases i with
      | zero =>
          cases h
          -- The rest of the record is behind it.
          have hbehind : get n a (putAll l (a + n) (put n v a m)) = get n a (put n v a m) :=
            get_congr fun i hi => putAll_other (.inl (Nat.add_lt_add_left hi a))
          exact hbehind.trans (get_put n v a m)
      | succ i =>
          rw [List.take_succ_cons, size, ← Nat.add_assoc]
          exact ih h

end

end Bytes
