import Mathlib.Algebra.Group.Nat.Defs
import Mathlib.Data.BitVec
import Mathlib.Tactic.Ring

/-!
# `Words.Carry` — numbers of several words

A number is a list of words, the lowest one first. It is added, subtracted and shifted word by word, and what one word
does not hold goes to the next one in the carry flag.

* `value` — the number;
* `add`, `sub`, `shiftRight` — chains of `add`/`adc`, `sub`/`sbb` and `shr`/`rcr`;
* `value_add`, `value_sub`, `value_shiftRight` — **what the chains do to the number**, the carry included;
* `value_or` — setting a bit that is clear.
-/

namespace Words

variable {w : ℕ}

/-! ## Numbers -/

def value : List (BitVec w) → ℕ
  | [] => 0
  | x :: xs => x.toNat + 2 ^ w * value xs

@[simp] theorem value_nil : value ([] : List (BitVec w)) = 0 := rfl

@[simp] theorem value_cons (x : BitVec w) (xs : List (BitVec w)) : value (x :: xs) = x.toNat + 2 ^ w * value xs := rfl

/-- One more word. -/
theorem pow_length (w n : ℕ) : 2 ^ (w * (n + 1)) = 2 ^ w * 2 ^ (w * n) := by
  rw [← Nat.pow_add, Nat.mul_succ, Nat.add_comm]

theorem value_lt (xs : List (BitVec w)) : value xs < 2 ^ (w * xs.length) := by
  induction xs with
  | nil => exact Nat.one_pos
  | cons x xs ih =>
      have hx := x.isLt
      have hmul : 2 ^ w * (value xs + 1) ≤ 2 ^ w * 2 ^ (w * xs.length) := Nat.mul_le_mul_left _ ih
      rw [List.length_cons, pow_length, value_cons]
      rw [Nat.mul_add, Nat.mul_one] at hmul
      omega

/-- A number that is zero has no word that is not. -/
theorem value_eq_zero {xs : List (BitVec w)} : value xs = 0 ↔ ∀ x ∈ xs, x = 0 := by
  induction xs with
  | nil => simp
  | cons x xs ih =>
      have hx : x.toNat = 0 ↔ x = 0 := by
        rw [BitVec.toNat_eq]
        rfl
      have hpos := Nat.two_pow_pos w
      simp only [value_cons, List.mem_cons, forall_eq_or_imp, Nat.add_eq_zero_iff, Nat.mul_eq_zero, hpos.ne', false_or,
        hx, ih]

/-! ## Sums -/

/-- `adc`: the sum, and the carry. -/
def adc (x y : BitVec w) (c : Bool) : BitVec w × Bool :=
  (BitVec.ofNat w (x.toNat + y.toNat + c.toNat), decide (2 ^ w ≤ x.toNat + y.toNat + c.toNat))

/-- `add` for the lowest words, and `adc` for the others. -/
def add : List (BitVec w) → List (BitVec w) → Bool → List (BitVec w) × Bool
  | x :: xs, y :: ys, c =>
      let r := adc x y c
      let s := add xs ys r.2
      (r.1 :: s.1, s.2)
  | _, _, c => ([], c)

theorem value_adc (x y : BitVec w) (c : Bool) :
    (adc x y c).1.toNat + 2 ^ w * (adc x y c).2.toNat = x.toNat + y.toNat + c.toNat := by
  have hx := x.isLt
  have hy := y.isLt
  have hc := c.toNat_le
  unfold adc
  dsimp only
  rw [BitVec.toNat_ofNat]
  by_cases h : 2 ^ w ≤ x.toNat + y.toNat + c.toNat
  · rw [decide_eq_true h, Bool.toNat_true, Nat.mul_one, Nat.mod_eq_sub_mod h, Nat.mod_eq_of_lt (by omega)]
    omega
  · rw [decide_eq_false h, Bool.toNat_false, Nat.mul_zero, Nat.mod_eq_of_lt (by omega), Nat.add_zero]

@[simp] theorem length_add {xs ys : List (BitVec w)} (c : Bool) (h : xs.length = ys.length) :
    (add xs ys c).1.length = xs.length := by
  induction xs generalizing ys c with
  | nil => cases ys <;> rfl
  | cons x xs ih =>
      cases ys with
      | nil => cases h
      | cons y ys =>
          unfold add
          simp only [List.length_cons, ih _ (Nat.succ.inj h)]

/-- **A sum, with its carry.** -/
theorem value_add (xs ys : List (BitVec w)) (c : Bool) (h : xs.length = ys.length) :
    value (add xs ys c).1 + 2 ^ (w * xs.length) * (add xs ys c).2.toNat = value xs + value ys + c.toNat := by
  induction xs generalizing ys c with
  | nil =>
      cases ys with
      | nil => simp [add]
      | cons y ys => cases h
  | cons x xs ih =>
      cases ys with
      | nil => cases h
      | cons y ys =>
          have hlow := value_adc x y c
          have hhigh := ih ys (adc x y c).2 (Nat.succ.inj h)
          unfold add
          simp only [value_cons, List.length_cons, pow_length]
          generalize (adc x y c).1.toNat = r at *
          generalize (adc x y c).2 = c' at *
          have hscaled := congrArg (2 ^ w * ·) hhigh
          simp only [Nat.mul_add] at hscaled
          rw [Nat.mul_assoc]
          omega

/-! ## Differences -/

/-- `sbb`: the difference, and the borrow. -/
def sbb (x y : BitVec w) (c : Bool) : BitVec w × Bool :=
  (BitVec.ofNat w (x.toNat + 2 ^ w - (y.toNat + c.toNat)), decide (x.toNat < y.toNat + c.toNat))

/-- `sub` for the lowest words, and `sbb` for the others. -/
def sub : List (BitVec w) → List (BitVec w) → Bool → List (BitVec w) × Bool
  | x :: xs, y :: ys, c =>
      let r := sbb x y c
      let s := sub xs ys r.2
      (r.1 :: s.1, s.2)
  | _, _, c => ([], c)

theorem value_sbb (x y : BitVec w) (c : Bool) :
    x.toNat + 2 ^ w * (sbb x y c).2.toNat = (sbb x y c).1.toNat + y.toNat + c.toNat := by
  have hx := x.isLt
  have hy := y.isLt
  have hc := c.toNat_le
  unfold sbb
  dsimp only
  rw [BitVec.toNat_ofNat]
  by_cases h : x.toNat < y.toNat + c.toNat
  · rw [decide_eq_true h, Bool.toNat_true, Nat.mul_one, Nat.mod_eq_of_lt (by omega)]
    omega
  · rw [decide_eq_false h, Bool.toNat_false, Nat.mul_zero, Nat.mod_eq_sub_mod (by omega), Nat.mod_eq_of_lt (by omega)]
    omega

@[simp] theorem length_sub {xs ys : List (BitVec w)} (c : Bool) (h : xs.length = ys.length) :
    (sub xs ys c).1.length = xs.length := by
  induction xs generalizing ys c with
  | nil => cases ys <;> rfl
  | cons x xs ih =>
      cases ys with
      | nil => cases h
      | cons y ys =>
          unfold sub
          simp only [List.length_cons, ih _ (Nat.succ.inj h)]

/-- **A difference, with its borrow.** -/
theorem value_sub {xs ys : List (BitVec w)} (c : Bool) (h : xs.length = ys.length) :
    value xs + 2 ^ (w * xs.length) * (sub xs ys c).2.toNat = value (sub xs ys c).1 + value ys + c.toNat := by
  induction xs generalizing ys c with
  | nil =>
      cases ys with
      | nil => simp [sub]
      | cons y ys => cases h
  | cons x xs ih =>
      cases ys with
      | nil => cases h
      | cons y ys =>
          have hlow := value_sbb x y c
          have hhigh := ih (sbb x y c).2 (Nat.succ.inj h)
          unfold sub
          simp only [value_cons, List.length_cons, pow_length]
          generalize (sbb x y c).1.toNat = r at *
          generalize (sbb x y c).2 = c' at *
          have hscaled := congrArg (2 ^ w * ·) hhigh
          simp only [Nat.mul_add] at hscaled
          rw [Nat.mul_assoc]
          omega

/-- There is a borrow exactly if the first number is the smaller one. -/
theorem borrow_sub {xs ys : List (BitVec w)} (h : xs.length = ys.length) :
    (sub xs ys false).2 = decide (value xs < value ys) := by
  have hsub := value_sub false h
  have hlt := value_lt (sub xs ys false).1
  have hxs := value_lt xs
  have hys := value_lt ys
  rw [length_sub false h] at hlt
  rw [← h] at hys
  rw [Bool.toNat_false, Nat.add_zero] at hsub
  cases hc : (sub xs ys false).2 with
  | false =>
      rw [hc, Bool.toNat_false, Nat.mul_zero, Nat.add_zero] at hsub
      exact (decide_eq_false (by omega)).symm
  | true =>
      rw [hc, Bool.toNat_true, Nat.mul_one] at hsub
      exact (decide_eq_true (by omega)).symm

theorem value_sub_of_le {xs ys : List (BitVec w)} (h : xs.length = ys.length) (hle : value ys ≤ value xs) :
    value (sub xs ys false).1 = value xs - value ys := by
  have hsub := value_sub false h
  rw [borrow_sub h, decide_eq_false (Nat.not_lt_of_le hle), Bool.toNat_false, Nat.mul_zero] at hsub
  omega

/-! ## Shifts -/

/-- `rcr $1`: the carry comes in as the highest bit, and the lowest one goes out. -/
def rcr (x : BitVec w) (c : Bool) : BitVec w × Bool :=
  (BitVec.ofNat w (x.toNat / 2 + c.toNat * 2 ^ (w - 1)), decide (x.toNat % 2 = 1))

/-- `shr $1` for the highest word, and `rcr $1` for the others. -/
def shiftRight : List (BitVec w) → List (BitVec w) × Bool
  | [] => ([], false)
  | x :: xs =>
      let r := shiftRight xs
      let s := rcr x r.2
      (s.1 :: r.1, s.2)

@[simp] theorem length_shiftRight (xs : List (BitVec w)) : (shiftRight xs).1.length = xs.length := by
  induction xs with
  | nil => rfl
  | cons x xs ih =>
      unfold shiftRight
      simp only [List.length_cons, ih]

/-- **A shift halves the number**, and the carry is the rest. -/
theorem value_shiftRight (hw : 0 < w) (xs : List (BitVec w)) :
    value (shiftRight xs).1 = value xs / 2 ∧ (shiftRight xs).2.toNat = value xs % 2 := by
  have hhalf : 2 ^ w = 2 * 2 ^ (w - 1) := by
    obtain ⟨v, rfl⟩ : ∃ v, w = v + 1 := ⟨w - 1, by omega⟩
    rw [Nat.add_sub_cancel, Nat.pow_succ']
  induction xs with
  | nil => exact ⟨by simp [shiftRight], by simp [shiftRight]⟩
  | cons x xs ih =>
      obtain ⟨hvalue, hcarry⟩ := ih
      have hx := x.isLt
      have hlow : (rcr x (shiftRight xs).2).1.toNat = x.toNat / 2 + value xs % 2 * 2 ^ (w - 1) := by
        unfold rcr
        rw [hcarry, BitVec.toNat_ofNat]
        apply Nat.mod_eq_of_lt
        have hrest : value xs % 2 * 2 ^ (w - 1) ≤ 1 * 2 ^ (w - 1) := Nat.mul_le_mul_right _ (by omega)
        omega
      have hout : (rcr x (shiftRight xs).2).2.toNat = x.toNat % 2 := by
        unfold rcr
        rcases Nat.mod_two_eq_zero_or_one x.toNat with h | h <;> simp [h]
      unfold shiftRight
      simp only [value_cons]
      rw [hlow, hvalue, hout]
      constructor
      · have hsplit : 2 ^ w * value xs = 2 * (2 ^ w * (value xs / 2) + value xs % 2 * 2 ^ (w - 1)) := by
          conv_lhs => rw [hhalf, ← Nat.div_add_mod (value xs) 2]
          rw [hhalf]
          ring
        rw [hsplit]
        omega
      · rw [hhalf, Nat.mul_assoc, Nat.add_mul_mod_self_left]

/-! ## Single words and bits -/

/-- The highest word has the highest bit. -/
theorem msb_last (hw : 0 < w) {n : ℕ} {xs : List (BitVec w)} (h : xs.length = n + 1) :
    (xs.getD n 0).msb = true ↔ 2 ^ (w * (n + 1) - 1) ≤ value xs := by
  induction n generalizing xs with
  | zero =>
      obtain ⟨x, rfl⟩ := List.length_eq_one_iff.1 h
      have hhalf : 2 ^ w = 2 * 2 ^ (w - 1) := by
        obtain ⟨v, rfl⟩ : ∃ v, w = v + 1 := ⟨w - 1, by omega⟩
        rw [Nat.add_sub_cancel, Nat.pow_succ']
      rw [List.getD_cons_zero, BitVec.msb_eq_true_iff_two_mul_ge, value_cons, value_nil, Nat.mul_zero, Nat.mul_one]
      omega
  | succ n ih =>
      cases xs with
      | nil => cases h
      | cons x xs =>
          have hx := x.isLt
          have hexp : w * (n + 1 + 1) - 1 = w + (w * (n + 1) - 1) := by
            have hpos : 0 < w * (n + 1) := Nat.mul_pos hw (Nat.succ_pos n)
            rw [Nat.mul_succ]
            omega
          rw [List.getD_cons_succ, ih (Nat.succ.inj h), hexp, Nat.pow_add, value_cons]
          constructor
          · intro hle
            exact Nat.le_trans (Nat.mul_le_mul_left _ hle) (Nat.le_add_left _ _)
          · intro hle
            by_contra hlt
            have hmul : 2 ^ w * (value xs + 1) ≤ 2 ^ w * 2 ^ (w * (n + 1) - 1) := Nat.mul_le_mul_left _ (by omega)
            rw [Nat.mul_add, Nat.mul_one] at hmul
            omega

/-- A bit in the word `i` that is set where the number is zero up to there and including it is added. -/
theorem value_or {xs : List (BitVec w)} {i k : ℕ} (hi : i < xs.length) (hk : k < w)
    (hclear : value xs % 2 ^ (w * i + (k + 1)) = 0) :
    value (xs.modify i (· ||| BitVec.ofNat w (2 ^ k))) = value xs + 2 ^ (w * i + k) := by
  have hpow : 2 ^ k < 2 ^ w := Nat.pow_lt_pow_right (by decide) hk
  induction i generalizing xs with
  | zero =>
      cases xs with
      | nil => exact absurd hi (Nat.not_lt_zero _)
      | cons x xs =>
          have hdvd : 2 ^ (k + 1) ∣ 2 ^ w * value xs :=
            Nat.dvd_trans (Nat.pow_dvd_pow 2 hk) (Nat.dvd_mul_right _ _)
          rw [Nat.mul_zero, Nat.zero_add, value_cons] at hclear
          obtain ⟨q, hq⟩ := (Nat.dvd_add_left hdvd).1 (Nat.dvd_of_mod_eq_zero hclear)
          have hlt : 2 ^ k < 2 ^ (k + 1) := Nat.pow_lt_pow_right (by decide) (Nat.lt_succ_self k)
          have hor : (x ||| BitVec.ofNat w (2 ^ k)).toNat = x.toNat + 2 ^ k := by
            rw [BitVec.toNat_or, BitVec.toNat_ofNat, Nat.mod_eq_of_lt hpow, hq, ← Nat.two_pow_add_eq_or_of_lt hlt]
          rw [Nat.mul_zero, Nat.zero_add, List.modify_zero_cons, value_cons, value_cons, hor]
          omega
  | succ i ih =>
      cases xs with
      | nil => exact absurd hi (Nat.not_lt_zero _)
      | cons x xs =>
          have hexp : w * (i + 1) + (k + 1) = w + (w * i + (k + 1)) := by
            rw [Nat.mul_succ]
            omega
          have hexp' : w * (i + 1) + k = w + (w * i + k) := by
            rw [Nat.mul_succ]
            omega
          have hx : x.toNat = 0 := by
            have hdvd : 2 ^ w ∣ value (x :: xs) :=
              Nat.dvd_trans (Nat.pow_dvd_pow 2 (by omega)) (Nat.dvd_of_mod_eq_zero hclear)
            rw [value_cons] at hdvd
            exact Nat.eq_zero_of_dvd_of_lt ((Nat.dvd_add_left (Nat.dvd_mul_right _ _)).1 hdvd) x.isLt
          rw [value_cons, hx, Nat.zero_add, hexp, Nat.pow_add, Nat.mul_mod_mul_left] at hclear
          have hrest : value xs % 2 ^ (w * i + (k + 1)) = 0 :=
            (Nat.mul_eq_zero.1 hclear).resolve_left (Nat.two_pow_pos w).ne'
          rw [List.modify_succ_cons, value_cons, value_cons, ih (Nat.lt_of_succ_lt_succ hi) hrest, hexp', Nat.pow_add]
          ring

end Words
