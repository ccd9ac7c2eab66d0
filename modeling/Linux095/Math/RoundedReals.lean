import Linux095.Math.Fields
import Linux095.Math.Rounded

/-!
# `Math.RoundedReals` — short and long reals from temporary reals

`temp_to_short` and `temp_to_long` take the exponent modulo its width and the fraction as if the first bit of the
mantissa were set, and add one or not. Both are the same thing for two formats, with `p` bits of fraction, `w` bits of
exponent, and `off` for the exponent that a temporary real has where theirs is zero.

* `pattern` — the number that an exponent and a fraction stand for, in units of the least one;
* `StoreRight` — where the pattern that is put together is that of the rounded number;
* `stored_iff` — it is there, and nowhere else;
* `conversions_round_iff` — when the four conversions deliver the number rounded by the mode.
-/

namespace Linux095
namespace Math

open Floats

/-! ## Patterns -/

/-- The number of an exponent and the fraction below it, in units of the least one. -/
def pattern (p n : ℕ) : ℕ := if n / 2 ^ p = 0 then n % 2 ^ p else (2 ^ p + n % 2 ^ p) * 2 ^ (n / 2 ^ p - 1)

/-- The number of a sign and a pattern, if it is one. -/
def realValue (p w : ℕ) (emin : ℤ) (neg : Bool) (n : ℕ) : Option ℚ :=
  if n / 2 ^ p = 2 ^ w - 1 then none else some (sgn neg * pattern p n * 2 ^ emin)

def ShortReal.value (x : ShortReal) : Option ℚ := realValue 23 8 (-149) x.msb (x.toNat % 2 ^ 31)

def LongReal.value (x : LongReal) : Option ℚ :=
  realValue 52 11 (-1074) (join x.b x.a).msb ((join x.b x.a).toNat % 2 ^ 63)

/-- The pattern `n` is finite and stands for `r`. -/
def Stored (p w n r : ℕ) : Prop := n % 2 ^ (w + p) / 2 ^ p ≠ 2 ^ w - 1 ∧ pattern p (n % 2 ^ (w + p)) = r

theorem field_div {p e f : ℕ} (hf : f < 2 ^ p) : (e * 2 ^ p + f) / 2 ^ p = e := by
  rw [Nat.add_comm, Nat.add_mul_div_right _ _ (Nat.two_pow_pos p), Nat.div_eq_of_lt hf, Nat.zero_add]

theorem field_mod {p e f : ℕ} (hf : f < 2 ^ p) : (e * 2 ^ p + f) % 2 ^ p = f := by
  rw [Nat.add_comm, Nat.add_mul_mod_self_right, Nat.mod_eq_of_lt hf]

theorem pattern_zero {p f : ℕ} (hf : f ≤ 2 ^ p) : pattern p f = f := by
  unfold pattern
  rcases Nat.lt_or_eq_of_le hf with h | rfl
  · rw [Nat.div_eq_of_lt h, if_pos rfl, Nat.mod_eq_of_lt h]
  · rw [Nat.div_self (Nat.two_pow_pos p), if_neg one_ne_zero, Nat.mod_self]
    simp

/-- A carry out of the fraction gives the next power of two, which is the number it should be. -/
theorem pattern_succ {p e f : ℕ} (hf : f ≤ 2 ^ p) : pattern p ((e + 1) * 2 ^ p + f) = (2 ^ p + f) * 2 ^ e := by
  unfold pattern
  rcases Nat.lt_or_eq_of_le hf with h | rfl
  · rw [field_div h, field_mod h, if_neg (Nat.succ_ne_zero e), Nat.add_sub_cancel]
  · have hcarry : (e + 1) * 2 ^ p + 2 ^ p = (e + 2) * 2 ^ p + 0 := by ring
    rw [hcarry, field_div (Nat.two_pow_pos p), field_mod (Nat.two_pow_pos p), if_neg (by omega),
      show e + 2 - 1 = e + 1 by omega, Nat.pow_succ]
    ring

/-! ## What is stored for an exponent and a fraction -/

/-- The pattern that the conversions put together. -/
def packed (p w off exp m : ℕ) (inc : Prop) [Decidable inc] : ℕ :=
  (exp + (2 ^ w - off % 2 ^ w)) % 2 ^ w * 2 ^ p + m / 2 ^ (63 - p) % 2 ^ p + if inc then 1 else 0

/-- The number that should be stored, in units of the least one of the format. -/
def target (p off exp m : ℕ) (d : Dir) : ℕ := roundMag d (p + 1) (m * 2 ^ max exp 1) (2 ^ (off + 64 - p))

/-- Just below the normal numbers the fraction counts twice what it should, and the first bit not at all. The few
mantissas for which the two make up for each other: -/
def Halved (p : ℕ) (d : Dir) (inc : Prop) (m : ℕ) : Prop :=
  let f := m / 2 ^ (63 - p) % 2 ^ p
  let r := m % 2 ^ (63 - p)
  match d with
  | .toward => if 2 ^ 63 ≤ m then f = 2 ^ p - 1 else f = 0
  | .nearest =>
      if 2 ^ 63 ≤ m then inc ∧ (f = 2 ^ p - 1 ∨ f = 2 ^ p - 2)
      else ¬ inc ∧ (f = 0 ∨ (f = 1 ∧ r ≠ 0))
  | .away =>
      if 2 ^ 63 ≤ m then inc ∧ (f = 2 ^ p - 1 ∨ (f = 2 ^ p - 2 ∧ r = 0))
      else (f = 0 ∧ (inc ↔ r ≠ 0)) ∨ (¬ inc ∧ (f = 1 ∨ (f = 2 ∧ r ≠ 0)))

/-- Further below the exponent wraps around. The rounded number is zero or the least one, and that is what happens to be
stored if the wrapped exponent and the fraction are zero, or both are full and the carry clears them. -/
def Wrapped (p w : ℕ) (d : Dir) (inc : Prop) (g m : ℕ) : Prop :=
  let f := m / 2 ^ (63 - p) % 2 ^ p
  (g % 2 ^ w = 0 ∧ if d = .away ∧ m ≠ 0 then (f = 0 ∧ inc) ∨ (f = 1 ∧ ¬ inc) else f = 0 ∧ ¬ inc) ∨
    (g % 2 ^ w = 1 ∧ g ≠ 1 ∧ d = .nearest ∧ f = 2 ^ p - 1 ∧ inc)

/-- Where the conversion is right: in the range of the normal numbers of the format if the first bit of the mantissa is
set and the code adds one where rounding does; above, only for a mantissa of zero; below, where it is so by accident. -/
def StoreRight (p w off : ℕ) (d : Dir) (inc : Prop) (exp m : ℕ) : Prop :=
  if exp = 0 then d = .away → m = 0
  else if off < exp then
    if exp - off < 2 ^ w - 1 then 2 ^ 63 ≤ m ∧ (inc ↔ Carry d m (2 ^ (63 - p)))
    else m = 0 ∧ (exp - off) % 2 ^ w = 0
  else if exp = off then Halved p d inc m
  else Wrapped p w d inc (off - exp) m

section Store

variable {p w off exp m : ℕ} {d : Dir} {inc : Prop} [Decidable inc]

/-- The exponent field above `off`. -/
theorem field_above (h : off ≤ exp) : (exp + (2 ^ w - off % 2 ^ w)) % 2 ^ w = (exp - off) % 2 ^ w := by
  have hpos := Nat.two_pow_pos w
  have hmod := Nat.mod_lt off hpos
  have hdiv := Nat.mod_add_div off (2 ^ w)
  have heq : exp + (2 ^ w - off % 2 ^ w) = (exp - off) + 2 ^ w * (off / 2 ^ w + 1) := by
    rw [Nat.mul_add, Nat.mul_one]
    omega
  rw [heq, Nat.add_mul_mod_self_left]

/-- The exponent field below `off` counts back from the largest one. -/
theorem field_below (h : exp ≤ off) :
    ((exp + (2 ^ w - off % 2 ^ w)) % 2 ^ w = 0 ∧ (off - exp) % 2 ^ w = 0) ∨
      (exp + (2 ^ w - off % 2 ^ w)) % 2 ^ w + (off - exp) % 2 ^ w = 2 ^ w := by
  have hpos := Nat.two_pow_pos w
  have hoff := Nat.mod_lt off hpos
  have hdiv := Nat.mod_add_div off (2 ^ w)
  have hsum : (exp + (2 ^ w - off % 2 ^ w) + (off - exp)) % 2 ^ w = 0 := by
    have heq : exp + (2 ^ w - off % 2 ^ w) + (off - exp) = 2 ^ w * (off / 2 ^ w + 1) := by
      rw [Nat.mul_add, Nat.mul_one]
      omega
    rw [heq, Nat.mul_mod_right]
  rw [Nat.add_mod] at hsum
  have h1 := Nat.mod_lt (exp + (2 ^ w - off % 2 ^ w)) hpos
  have h2 := Nat.mod_lt (off - exp) hpos
  generalize (exp + (2 ^ w - off % 2 ^ w)) % 2 ^ w = a at *
  generalize (off - exp) % 2 ^ w = b at *
  generalize 2 ^ w = W at *
  by_cases hlt : a + b < W
  · rw [Nat.mod_eq_of_lt hlt] at hsum
    omega
  · rw [Nat.mod_eq_sub_mod (by omega), Nat.mod_eq_of_lt (by omega)] at hsum
    omega

theorem fraction_lt : m / 2 ^ (63 - p) % 2 ^ p < 2 ^ p := Nat.mod_lt _ (Nat.two_pow_pos p)

/-- The mantissa is its first bit, the fraction and the rest. -/
theorem mantissa_split (hp : p < 63) (hm : m < 2 ^ 64) :
    m = (((if 2 ^ 63 ≤ m then 2 ^ p else 0) + m / 2 ^ (63 - p) % 2 ^ p) * 2 ^ (63 - p)) + m % 2 ^ (63 - p) := by
  have hsplit := Nat.div_add_mod' m (2 ^ (63 - p))
  have hpow : 2 ^ 63 = 2 ^ p * 2 ^ (63 - p) := by rw [← Nat.pow_add]; congr 1; omega
  have hquot : m / 2 ^ (63 - p) = (if 2 ^ 63 ≤ m then 2 ^ p else 0) + m / 2 ^ (63 - p) % 2 ^ p := by
    have hlt : m / 2 ^ (63 - p) < 2 * 2 ^ p := by
      rw [Nat.div_lt_iff_lt_mul (Nat.two_pow_pos _), Nat.mul_assoc, ← hpow]
      omega
    have hge : 2 ^ 63 ≤ m ↔ 2 ^ p ≤ m / 2 ^ (63 - p) := by
      rw [Nat.le_div_iff_mul_le (Nat.two_pow_pos _), ← hpow]
    by_cases htop : 2 ^ 63 ≤ m
    · have := hge.1 htop
      rw [if_pos htop, Nat.mod_eq_sub_mod this, Nat.mod_eq_of_lt (by omega)]
      omega
    · rw [if_neg htop, Nat.mod_eq_of_lt (by have := hge.not.1 htop; omega), Nat.zero_add]
  rw [← hquot]
  exact hsplit.symm

/-- One more or not. -/
theorem ite_le_one : (if inc then 1 else 0 : ℕ) ≤ 1 := by
  split <;> decide

/-- What is stored for an exponent field that is not zero and not so large that the carry overflows. -/
theorem stored_succ {e f r : ℕ} (he : e + 1 < 2 ^ w - 1) (hf : f ≤ 2 ^ p) :
    Stored p w ((e + 1) * 2 ^ p + f) r ↔ (f = 2 ^ p → e + 2 ≠ 2 ^ w - 1) ∧ (2 ^ p + f) * 2 ^ e = r := by
  have hP := Nat.two_pow_pos p
  have hlt : (e + 1) * 2 ^ p + f < 2 ^ (w + p) := by
    have hmul : (e + 2) * 2 ^ p < 2 ^ w * 2 ^ p := Nat.mul_lt_mul_of_pos_right (by omega) hP
    rw [Nat.pow_add]
    have : (e + 2) * 2 ^ p = (e + 1) * 2 ^ p + 2 ^ p := by ring
    omega
  unfold Stored
  rw [Nat.mod_eq_of_lt hlt, pattern_succ hf]
  refine and_congr_left fun _ => ?_
  rcases Nat.lt_or_eq_of_le hf with h | rfl
  · rw [field_div h]
    omega
  · have hcarry : (e + 1) * 2 ^ p + 2 ^ p = (e + 2) * 2 ^ p + 0 := by ring
    rw [hcarry, field_div hP]
    simp

/-- What is stored for an exponent field of zero: the fraction, with its carry. -/
theorem stored_low {f r : ℕ} (hw : 2 ≤ w) (hf : f ≤ 2 ^ p) : Stored p w (0 * 2 ^ p + f) r ↔ f = r := by
  have hP := Nat.two_pow_pos p
  have hW : 4 ≤ 2 ^ w := Nat.pow_le_pow_right (n := 2) (by decide) hw
  have hlt : f < 2 ^ (w + p) := by
    have : 4 * 2 ^ p ≤ 2 ^ w * 2 ^ p := Nat.mul_le_mul_right _ hW
    rw [Nat.pow_add]
    omega
  have hdiv : f / 2 ^ p ≤ 1 := Nat.div_le_of_le_mul (by rwa [Nat.mul_one])
  unfold Stored
  rw [Nat.zero_mul, Nat.zero_add, Nat.mod_eq_of_lt hlt, pattern_zero hf]
  exact and_iff_right (by omega)

/-- What is stored for the largest exponent field: no number, or zero if the carry clears everything. -/
theorem stored_full {f r : ℕ} (hw : 2 ≤ w) (hf : f ≤ 2 ^ p) :
    Stored p w ((2 ^ w - 1) * 2 ^ p + f) r ↔ f = 2 ^ p ∧ r = 0 := by
  have hP := Nat.two_pow_pos p
  have hW : 4 ≤ 2 ^ w := Nat.pow_le_pow_right (n := 2) (by decide) hw
  have hsum : (2 ^ w - 1) * 2 ^ p + 2 ^ p = 2 ^ (w + p) := by
    rw [Nat.pow_add, ← Nat.succ_mul]
    congr 1
    omega
  unfold Stored
  rcases Nat.lt_or_eq_of_le hf with h | rfl
  · rw [Nat.mod_eq_of_lt (by omega), field_div h]
    exact iff_of_false (fun hs => hs.1 rfl) (by omega)
  · rw [hsum, Nat.mod_self, pattern_zero (Nat.zero_le _), Nat.zero_div]
    constructor
    · exact fun h => ⟨rfl, h.2.symm⟩
    · exact fun h => ⟨by omega, h.2.symm⟩

/-- The three kinds of exponent fields. -/
theorem field_cases {e : ℕ} (he : e < 2 ^ w) : e = 0 ∨ e = 2 ^ w - 1 ∨ ∃ k, e = k + 1 ∧ k + 1 < 2 ^ w - 1 := by
  by_cases h0 : e = 0
  · exact .inl h0
  · by_cases h1 : e = 2 ^ w - 1
    · exact .inr (.inl h1)
    · exact .inr (.inr ⟨e - 1, by omega, by omega⟩)

theorem target_zero : target p off exp 0 d = 0 := by
  unfold target
  rw [Nat.zero_mul, roundMag_of_lt d (Nat.succ_pos p) (by simp)]
  exact Nat.le_zero.1 (roundNat_le d (Nat.two_pow_pos _) (Nat.zero_le _))

/-- Rounding does not cross a power of two. -/
theorem target_le {k : ℕ} (h : m * 2 ^ max exp 1 ≤ 2 ^ (off + 64 - p + k)) :
    target p off exp m d ≤ 2 ^ k := by
  rw [Nat.pow_add] at h
  exact roundMag_le_two_pow d (Nat.succ_pos p) (Nat.two_pow_pos _) h

theorem le_target {k : ℕ} (h : 2 ^ (off + 64 - p + k) ≤ m * 2 ^ max exp 1) : 2 ^ k ≤ target p off exp m d := by
  rw [Nat.pow_add] at h
  exact two_pow_le_roundMag d (Nat.succ_pos p) (Nat.two_pow_pos _) h

/-! ## In the range of the normal numbers -/

/-- The rounded number, where the first bit of the mantissa is set. -/
theorem target_normal {e : ℕ} (hp' : p < 63) (htop : 2 ^ 63 ≤ m) (hm : m < 2 ^ 64) :
    target p off (off + (e + 1)) m d =
      (2 ^ p + m / 2 ^ (63 - p) % 2 ^ p + if Carry d m (2 ^ (63 - p)) then 1 else 0) * 2 ^ e := by
  have hmax : max (off + (e + 1)) 1 = off + (e + 1) := by omega
  have hq : 2 ^ (off + 64 - p) * 2 ^ e = 2 ^ (63 - p) * 2 ^ (off + (e + 1)) := by
    rw [← Nat.pow_add, ← Nat.pow_add]
    congr 1
    omega
  have hE := Nat.two_pow_pos (off + (e + 1))
  have hqpos := Nat.two_pow_pos (off + 64 - p)
  have hbound : 2 ^ (off + 64 - p) * 2 ^ (p + e) = 2 ^ 63 * 2 ^ (off + (e + 1)) := by
    rw [← Nat.pow_add, ← Nat.pow_add]
    congr 1
    omega
  have hlo : 2 ^ (p + 1 - 1 + e) ≤ m * 2 ^ (off + (e + 1)) / 2 ^ (off + 64 - p) := by
    rw [Nat.le_div_iff_mul_le hqpos, Nat.mul_comm, Nat.add_sub_cancel, hbound]
    exact Nat.mul_le_mul_right _ htop
  have hhi : m * 2 ^ (off + (e + 1)) / 2 ^ (off + 64 - p) < 2 ^ (p + 1 + e) := by
    rw [Nat.div_lt_iff_lt_mul hqpos, Nat.add_right_comm p 1 e, Nat.pow_succ, Nat.mul_right_comm,
      Nat.mul_comm (2 ^ (p + e)), hbound, Nat.mul_right_comm]
    exact Nat.mul_lt_mul_of_pos_right (by omega) hE
  have hsplit := mantissa_split (m := m) hp' hm
  have hdiv : m / 2 ^ (63 - p) = 2 ^ p + m / 2 ^ (63 - p) % 2 ^ p := by
    rw [if_pos htop] at hsplit
    conv_lhs => rw [hsplit]
    exact field_div (Nat.mod_lt _ (Nat.two_pow_pos _))
  unfold target
  rw [hmax, roundMag_of_le d (Nat.succ_pos p) hlo hhi, hq, roundNat_mul d m _ hE, roundNat, ← hdiv]

theorem stored_normal {e : ℕ} (hp : 0 < p) (hp' : p < 63) (hw : 2 ≤ w) (he : e + 1 < 2 ^ w - 1) (hm : m < 2 ^ 64)
    (hrep : target p off (off + (e + 1)) m d < 2 ^ (2 ^ w - 2 + p)) :
    Stored p w (packed p w off (off + (e + 1)) m inc) (target p off (off + (e + 1)) m d) ↔
      2 ^ 63 ≤ m ∧ (inc ↔ Carry d m (2 ^ (63 - p))) := by
  have hW : 4 ≤ 2 ^ w := Nat.pow_le_pow_right (n := 2) (by decide) hw
  have hfield : (off + (e + 1) + (2 ^ w - off % 2 ^ w)) % 2 ^ w = e + 1 := by
    rw [field_above (by omega), Nat.add_sub_cancel_left, Nat.mod_eq_of_lt (by omega)]
  have hf : m / 2 ^ (63 - p) % 2 ^ p < 2 ^ p := fraction_lt
  have hi : (if inc then 1 else 0 : ℕ) ≤ 1 := ite_le_one
  have hE := Nat.two_pow_pos e
  have hmax : max (off + (e + 1)) 1 = off + (e + 1) := by omega
  unfold packed
  rw [hfield, Nat.add_assoc, stored_succ he (by omega)]
  by_cases htop : 2 ^ 63 ≤ m
  · rw [target_normal hp' htop hm] at hrep ⊢
    rw [Nat.mul_left_inj hE.ne', Nat.add_assoc, Nat.add_left_cancel_iff, Nat.add_left_cancel_iff, ite_one_inj,
      and_iff_right htop]
    refine ⟨fun h => h.2, fun h => ⟨fun hfull htoo => ?_, h⟩⟩
    -- the carry out of the largest exponent would make a number that is not representable
    have hsame : (if Carry d m (2 ^ (63 - p)) then 1 else 0 : ℕ) = if inc then 1 else 0 := ite_one_inj.2 h.symm
    rw [hsame, Nat.add_assoc, hfull, ← Nat.two_mul, ← Nat.pow_succ', ← Nat.pow_add] at hrep
    have := (Nat.pow_lt_pow_iff_right (a := 2) (by decide)).1 hrep
    omega
  · refine iff_of_false ?_ (fun h => htop h.1)
    rintro ⟨-, hsame⟩
    have hP : 2 ≤ 2 ^ p := Nat.pow_le_pow_right (n := 2) (by decide) hp
    -- the rounded number is at most the next power of two, which is stored for a fraction of zero alone
    have hle : target p off (off + (e + 1)) m d ≤ 2 ^ (p + e) := target_le (by
      rw [hmax, show off + 64 - p + (p + e) = 63 + (off + (e + 1)) by omega, Nat.pow_add 2 63]
      exact Nat.mul_le_mul_right _ (by omega))
    rw [← hsame, Nat.pow_add] at hle
    have hzero := Nat.le_of_mul_le_mul_right hle hE
    have hsplit := mantissa_split hp' hm
    rw [if_neg htop, show m / 2 ^ (63 - p) % 2 ^ p = 0 by omega] at hsplit
    have hsmall : m < 2 ^ (63 - p) := by
      have := Nat.mod_lt m (Nat.two_pow_pos (63 - p))
      omega
    have hle' : target p off (off + (e + 1)) m d ≤ 2 ^ e := target_le (by
      rw [hmax, show off + 64 - p + e = 63 - p + (off + (e + 1)) by omega,
        Nat.pow_add 2 (63 - p)]
      exact Nat.mul_le_mul_right _ (by omega))
    rw [← hsame] at hle'
    have hone : (2 ^ p + (m / 2 ^ (63 - p) % 2 ^ p + if inc then 1 else 0)) * 2 ^ e ≤ 1 * 2 ^ e := by omega
    have := Nat.le_of_mul_le_mul_right hone hE
    omega

/-! ## Above it -/

theorem stored_above {e : ℕ} (hp' : p < 63) (hw : 7 ≤ w) (he : 2 ^ w - 1 ≤ e) (hinc : inc → m ≠ 0)
    (hrep : target p off (off + e) m d < 2 ^ (2 ^ w - 2 + p)) :
    Stored p w (packed p w off (off + e) m inc) (target p off (off + e) m d) ↔ m = 0 ∧ e % 2 ^ w = 0 := by
  have hW : 128 ≤ 2 ^ w := Nat.pow_le_pow_right (n := 2) (by decide) hw
  have hP := Nat.two_pow_pos p
  have hf : m / 2 ^ (63 - p) % 2 ^ p < 2 ^ p := fraction_lt
  have hi : (if inc then 1 else 0 : ℕ) ≤ 1 := ite_le_one
  have hmax : max (off + e) 1 = off + e := by omega
  unfold packed
  rw [field_above (by omega), Nat.add_sub_cancel_left, Nat.add_assoc]
  generalize hg : m / 2 ^ (63 - p) % 2 ^ p + (if inc then 1 else 0) = g
  have hgle : g ≤ 2 ^ p := by omega
  by_cases hm : m = 0
  · have hg0 : g = 0 := by
      rw [← hg, hm, if_neg (fun h => hinc h hm), Nat.zero_div, Nat.zero_mod]
    rw [hm, hg0, target_zero, and_iff_right rfl]
    rcases field_cases (Nat.mod_lt e (Nat.two_pow_pos w)) with h | h | ⟨k, h, hk⟩
    · rw [h, stored_low (by omega) (Nat.zero_le _)]
    · rw [h, stored_full (by omega) (Nat.zero_le _)]
      omega
    · have := Nat.mul_pos hP (Nat.two_pow_pos k)
      rw [h, stored_succ hk (Nat.zero_le _), Nat.add_zero (2 ^ p)]
      exact iff_of_false (fun hs => this.ne' hs.2) (Nat.succ_ne_zero k)
  · refine iff_of_false ?_ (fun h => hm h.1)
    -- the number is larger than everything that a small exponent field can stand for
    have hlow : 2 ^ (e + p - 64) ≤ target p off (off + e) m d := le_target (by
      rw [hmax, show off + 64 - p + (e + p - 64) = off + e by omega]
      exact Nat.le_mul_of_pos_left _ (Nat.pos_of_ne_zero hm))
    have hsmall := (Nat.pow_lt_pow_iff_right (a := 2) (by decide)).1 (lt_of_le_of_lt hlow hrep)
    have hpos : 0 < target p off (off + e) m d := lt_of_lt_of_le (Nat.two_pow_pos _) hlow
    have hwrap : e = 2 ^ w - 1 ∨ e % 2 ^ w = e - 2 ^ w := by
      by_cases hlt : e < 2 ^ w
      · exact .inl (by omega)
      · right
        rw [Nat.mod_eq_sub_mod (by omega), Nat.mod_eq_of_lt (by omega)]
    rcases field_cases (Nat.mod_lt e (Nat.two_pow_pos w)) with h | h | ⟨k, h, hk⟩
    · rw [h, stored_low (by omega) hgle]
      have hlarge : 2 ^ (p + 1) ≤ 2 ^ (e + p - 64) := Nat.pow_le_pow_right (by decide) (by omega)
      rw [Nat.pow_succ] at hlarge
      omega
    · rw [h, stored_full (by omega) hgle]
      omega
    · rw [h, stored_succ hk hgle]
      rintro ⟨-, hsame⟩
      have hmodlt : e % 2 ^ w ≠ 2 ^ w - 1 := by omega
      have hne : e ≠ 2 ^ w - 1 := by
        intro heq
        rw [heq, Nat.mod_eq_of_lt (by omega)] at hmodlt
        exact hmodlt rfl
      have hle : (2 ^ p + g) * 2 ^ k ≤ 2 ^ (p + 1 + k) := by
        rw [Nat.pow_add 2 (p + 1), Nat.pow_succ]
        exact Nat.mul_le_mul_right _ (by omega)
      have hlarge : 2 ^ (p + 1 + k + 1) ≤ 2 ^ (e + p - 64) := Nat.pow_le_pow_right (by decide) (by omega)
      have := Nat.two_pow_pos (p + 1 + k)
      rw [Nat.pow_succ] at hlarge
      omega

/-! ## Below it -/

theorem target_below {g : ℕ} (hp' : p < 63) (hexp : 1 ≤ exp) (hm : m < 2 ^ 64) (hg : exp + g = off) :
    target p off exp m d = roundNat d m (2 ^ (64 - p + g)) := by
  have hE := Nat.two_pow_pos exp
  have hq : 2 ^ (off + 64 - p) = 2 ^ (64 - p + g) * 2 ^ exp := by
    rw [← Nat.pow_add]
    congr 1
    omega
  have hlt : m * 2 ^ exp / (2 ^ (64 - p + g) * 2 ^ exp) < 2 ^ (p + 1) := by
    rw [Nat.mul_div_mul_right _ _ hE, Nat.div_lt_iff_lt_mul (Nat.two_pow_pos _), ← Nat.pow_add]
    have : 2 ^ 64 ≤ 2 ^ (p + 1 + (64 - p + g)) := Nat.pow_le_pow_right (by decide) (by omega)
    omega
  unfold target
  rw [show max exp 1 = exp by omega, hq, roundMag_of_lt d (Nat.succ_pos p) hlt, roundNat_mul d _ _ hE]

/-- Half of the mantissa's leading part, and what is left. -/
theorem halves {u q r : ℕ} (hr : r < q) :
    (u * q + r) / (2 * q) = u / 2 ∧ (u * q + r) % (2 * q) = if u % 2 = 1 then q + r else r := by
  have hq : 0 < 2 * q := by omega
  rcases Nat.even_or_odd' u with ⟨v, rfl | rfl⟩
  · have hsplit : 2 * v * q + r = r + 2 * q * v := by ring
    have hmod : 2 * v % 2 ≠ 1 := by omega
    rw [hsplit, Nat.add_mul_div_left _ _ hq, Nat.add_mul_mod_self_left, Nat.div_eq_of_lt (by omega),
      Nat.mod_eq_of_lt (by omega), if_neg hmod]
    omega
  · have hsplit : (2 * v + 1) * q + r = (q + r) + 2 * q * v := by ring
    have hmod : (2 * v + 1) % 2 = 1 := by omega
    rw [hsplit, Nat.add_mul_div_left _ _ hq, Nat.add_mul_mod_self_left, Nat.div_eq_of_lt (by omega),
      Nat.mod_eq_of_lt (by omega), if_pos hmod]
    omega

theorem stored_halved (hp : 3 ≤ p) (hp' : p < 63) (hw : 2 ≤ w) (hoff : 1 ≤ off) (hm : m < 2 ^ 64)
    (htoward : d = .toward → ¬ inc) (hnear : d = .nearest → inc → 2 ^ (62 - p) < m % 2 ^ (63 - p)) :
    Stored p w (packed p w off off m inc) (target p off off m d) ↔ Halved p d inc m := by
  have hf : m / 2 ^ (63 - p) % 2 ^ p < 2 ^ p := fraction_lt
  have hr : m % 2 ^ (63 - p) < 2 ^ (63 - p) := Nat.mod_lt _ (Nat.two_pow_pos _)
  have hi : (if inc then 1 else 0 : ℕ) ≤ 1 := ite_le_one
  have hP : 2 ^ p = 2 * 2 ^ (p - 1) := by rw [← Nat.pow_succ']; congr 1; omega
  have hP4 : 4 ≤ 2 ^ (p - 1) := Nat.pow_le_pow_right (n := 2) (i := 2) (by decide) (by omega)
  have hQ : 2 ^ (63 - p) = 2 * 2 ^ (62 - p) := by rw [← Nat.pow_succ']; congr 1; omega
  have hQ' : 2 ^ (64 - p + 0) = 2 * 2 ^ (63 - p) := by rw [← Nat.pow_succ']; congr 1; omega
  have hsplit := mantissa_split hp' hm
  obtain ⟨hdiv, hmod⟩ := halves (u := (if 2 ^ 63 ≤ m then 2 ^ p else 0) + m / 2 ^ (63 - p) % 2 ^ p) hr
  rw [← hsplit] at hdiv hmod
  unfold packed Halved
  rw [field_above le_rfl, Nat.sub_self, Nat.zero_mod, Nat.add_assoc, stored_low hw (by omega),
    target_below (g := 0) hp' hoff hm (Nat.add_zero _), hQ']
  have hround : roundNat d m (2 * 2 ^ (63 - p)) = m / (2 * 2 ^ (63 - p)) ∧ ¬ Carry d m (2 * 2 ^ (63 - p)) ∨
      roundNat d m (2 * 2 ^ (63 - p)) = m / (2 * 2 ^ (63 - p)) + 1 ∧ Carry d m (2 * 2 ^ (63 - p)) := by
    by_cases hc : Carry d m (2 * 2 ^ (63 - p))
    · exact .inr ⟨roundNat_of_carry hc, hc⟩
    · exact .inl ⟨roundNat_of_not_carry hc, hc⟩
  have hinc : inc ↔ (if inc then 1 else 0 : ℕ) = 1 := by
    by_cases h : inc <;> simp [h]
  unfold Carry at hround
  rw [hdiv, hmod] at hround
  dsimp only
  generalize m / 2 ^ (63 - p) % 2 ^ p = f at *
  generalize m % 2 ^ (63 - p) = r at *
  generalize roundNat d m (2 * 2 ^ (63 - p)) = t at *
  generalize (if inc then 1 else 0 : ℕ) = i at *
  simp only [hinc] at hnear htoward ⊢
  generalize 2 ^ (62 - p) = Q at *
  generalize 2 ^ (63 - p) = Q2 at *
  generalize 2 ^ (p - 1) = P at *
  generalize 2 ^ p = P2 at *
  clear hsplit hdiv hmod
  -- whether half a step is left depends on the parity of the leading part
  cases d with
  | nearest =>
    have hnear := hnear rfl
    dsimp only at hround ⊢
    split_ifs at hround ⊢ <;> omega
  | away =>
    dsimp only at hround ⊢
    split_ifs at hround ⊢ <;> omega
  | toward =>
    have hnone := htoward rfl
    simp only [not_false_eq_true, and_true, and_false, or_false] at hround
    split_ifs at hround ⊢ <;> omega

/-- A number far below the least one of the format. -/
theorem roundNat_far {k : ℕ} (hm : m < 2 ^ 64) (hk : 66 ≤ k) :
    roundNat d m (2 ^ k) = if d = .away ∧ m ≠ 0 then 1 else 0 := by
  have hpow : 2 ^ 66 ≤ 2 ^ k := Nat.pow_le_pow_right (by decide) hk
  exact roundNat_of_small d (by omega)

theorem stored_wrapped {g : ℕ} (hp : 3 ≤ p) (hp' : p < 63) (hw : 7 ≤ w) (hexp : 1 ≤ exp) (hg : 1 ≤ g)
    (hoff : exp + g = off) (hm : m < 2 ^ 64) (htoward : d = .toward → ¬ inc) (hinc : inc → m ≠ 0) :
    Stored p w (packed p w off exp m inc) (target p off exp m d) ↔ Wrapped p w d inc g m := by
  have hW : 128 ≤ 2 ^ w := Nat.pow_le_pow_right (n := 2) (by decide) hw
  have hf : m / 2 ^ (63 - p) % 2 ^ p < 2 ^ p := fraction_lt
  have hi : (if inc then 1 else 0 : ℕ) ≤ 1 := ite_le_one
  have hP : 8 ≤ 2 ^ p := Nat.pow_le_pow_right (n := 2) (i := 3) (by decide) hp
  have hile : (m / 2 ^ (63 - p) % 2 ^ p + if inc then 1 else 0) ≤ 2 ^ p := by omega
  have hgmod := Nat.mod_lt g (Nat.two_pow_pos w)
  have hcount : ((exp + (2 ^ w - off % 2 ^ w)) % 2 ^ w = 0 ∧ (off - exp) % 2 ^ w = 0) ∨
      (exp + (2 ^ w - off % 2 ^ w)) % 2 ^ w + (off - exp) % 2 ^ w = 2 ^ w := field_below (by omega)
  rw [show off - exp = g by omega] at hcount
  have hsmall : roundNat d m (2 ^ (64 - p + g)) < 2 ^ p := by
    have hle : roundNat d m (2 ^ (64 - p + g)) ≤ 2 ^ (p - 1) := by
      refine roundNat_le d (Nat.two_pow_pos _) ?_
      have : 2 ^ 64 ≤ 2 ^ (64 - p + g + (p - 1)) := Nat.pow_le_pow_right (by decide) (by omega)
      rw [← Nat.pow_add]
      omega
    exact lt_of_le_of_lt hle (Nat.pow_lt_pow_right (by decide) (by omega))
  unfold packed Wrapped
  rw [Nat.add_assoc, target_below hp' hexp hm hoff]
  dsimp only
  rcases field_cases (Nat.mod_lt (exp + (2 ^ w - off % 2 ^ w)) (Nat.two_pow_pos w)) with h | h | ⟨k, h, hk⟩
  · -- the exponent has wrapped around to zero
    rw [h] at hcount ⊢
    have hge : 2 ^ w ≤ g := by
      by_contra hlt
      rw [Nat.mod_eq_of_lt (by omega)] at hcount
      omega
    have hg0 : g % 2 ^ w = 0 := by omega
    have hinc' : inc ↔ (if inc then 1 else 0 : ℕ) = 1 := by
      by_cases h : inc <;> simp [h]
    rw [stored_low (by omega) hile, roundNat_far hm (by omega), and_iff_right hg0,
      or_iff_left (fun hc => by omega)]
    generalize (if inc then 1 else 0 : ℕ) = i at *
    simp only [hinc']
    split_ifs <;> omega
  · -- or to the largest, which the carry can clear
    rw [h] at hcount ⊢
    have hg1 : g % 2 ^ w = 1 := by omega
    rw [stored_full (by omega) hile, and_iff_right hg1, or_iff_right (fun hc => by omega)]
    constructor
    · rintro ⟨hfull, hzero⟩
      have hyes : inc := by
        by_contra hno
        rw [if_neg hno] at hfull
        omega
      rw [if_pos hyes] at hfull
      have hne : g ≠ 1 := by
        -- one step below the normal numbers such a mantissa is at least the least number
        intro h1
        have hge : 2 ^ (64 - p + g) * 1 ≤ m := by
          have hQ : 2 ^ (64 - p + g) = 4 * 2 ^ (63 - p) := by
            rw [h1, show 64 - p + 1 = 2 + (63 - p) by omega, Nat.pow_add]
          have hdiv : m / 2 ^ (63 - p) % 2 ^ p ≤ m / 2 ^ (63 - p) := Nat.mod_le _ _
          have hmul : 4 * 2 ^ (63 - p) ≤ m / 2 ^ (63 - p) * 2 ^ (63 - p) := Nat.mul_le_mul_right _ (by omega)
          have := Nat.div_mul_le_self m (2 ^ (63 - p))
          omega
        have := le_roundNat d (Nat.two_pow_pos _) hge
        omega
      have hge : 2 ^ w ≤ g := by
        by_contra hlt
        rw [Nat.mod_eq_of_lt (by omega)] at hg1
        exact hne hg1
      rw [roundNat_far hm (by omega)] at hzero
      refine ⟨hne, ?_, by omega, hyes⟩
      cases d
      · rfl
      · rw [if_pos ⟨rfl, hinc hyes⟩] at hzero
        exact absurd hzero one_ne_zero
      · exact absurd hyes (htoward rfl)
    · rintro ⟨hne, rfl, hfull, hyes⟩
      have hge : 2 ^ w ≤ g := by
        by_contra hlt
        rw [Nat.mod_eq_of_lt (by omega)] at hg1
        exact hne hg1
      rw [if_pos hyes, roundNat_far hm (by omega)]
      exact ⟨by omega, by simp⟩
  · rw [h] at hcount ⊢
    rw [stored_succ hk hile]
    have hlarge : 2 ^ p ≤ (2 ^ p + (m / 2 ^ (63 - p) % 2 ^ p + if inc then 1 else 0)) * 2 ^ k :=
      le_trans (Nat.le_add_right _ _) (Nat.le_mul_of_pos_right _ (Nat.two_pow_pos k))
    refine iff_of_false (fun hs => ?_) ?_
    · have := hs.2
      omega
    · rintro (hz | hz)
      · omega
      · omega

/-- **What is put together is the pattern of the rounded number, exactly where `StoreRight` says.** -/
theorem stored_iff (hp : 3 ≤ p) (hp' : p < 63) (hw : 7 ≤ w) (hoff : 1 ≤ off) (hexp : 1 ≤ exp) (hm : m < 2 ^ 64)
    (hrep : target p off exp m d < 2 ^ (2 ^ w - 2 + p)) (htoward : d = .toward → ¬ inc) (hinc : inc → m ≠ 0)
    (hnear : d = .nearest → inc → 2 ^ (62 - p) < m % 2 ^ (63 - p)) :
    Stored p w (packed p w off exp m inc) (target p off exp m d) ↔ StoreRight p w off d inc exp m := by
  unfold StoreRight
  rw [if_neg (by omega)]
  by_cases habove : off < exp
  · obtain ⟨e, rfl⟩ : ∃ e, exp = off + (e + 1) := ⟨exp - off - 1, by omega⟩
    rw [if_pos habove, Nat.add_sub_cancel_left]
    by_cases hnormal : e + 1 < 2 ^ w - 1
    · rw [if_pos hnormal, stored_normal (by omega) hp' (by omega) hnormal hm hrep]
    · rw [if_neg hnormal, stored_above hp' hw (by omega) hinc hrep]
  · rw [if_neg habove]
    by_cases heq : exp = off
    · subst heq
      rw [if_pos rfl, stored_halved hp hp' (by omega) hoff hm htoward hnear]
    · rw [if_neg heq, stored_wrapped (g := off - exp) hp hp' hw hexp (by omega) (by omega) hm htoward hinc]

/-- What has an exponent of zero is stored as zero. -/
theorem target_of_zero (hm : m < 2 ^ 64) (hoff : 66 ≤ off + 64 - p) :
    0 = target p off 0 m d ↔ (d = .away → m = 0) := by
  have hpow : 2 ^ 66 ≤ 2 ^ (off + 64 - p) := Nat.pow_le_pow_right (by decide) hoff
  have hlt : m * 2 ^ max 0 1 / 2 ^ (off + 64 - p) < 2 ^ (p + 1) := by
    rw [Nat.div_eq_of_lt (by simp; omega)]
    exact Nat.two_pow_pos _
  unfold target
  rw [roundMag_of_lt d (Nat.succ_pos p) hlt, roundNat_of_small d (by simp; omega)]
  by_cases hz : m = 0 <;> simp [hz]

end Store

/-! ## Numbers of the two formats -/

theorem target_value (rc : Rounding) (t : TempReal) {p off : ℕ} {emin : ℤ}
    (hemin : emin = (off + 64 - p : ℕ) - 16446) :
    roundTo rc.mode (p + 1) emin t.value =
      sgn t.neg * (target p off t.exp.toNat t.mant.toNat (t.dir rc) : ℚ) * 2 ^ emin := by
  have hvalue : t.value = sgn t.neg *
      (((t.mant.toNat * 2 ^ max t.exp.toNat 1 : ℕ) : ℚ) / ((2 ^ (off + 64 - p) : ℕ) : ℚ)) * 2 ^ emin := by
    have hsplit : ((max t.exp.toNat 1 : ℕ) - 16446 : ℤ) = (max t.exp.toNat 1 : ℕ) + (emin - (off + 64 - p : ℕ)) := by
      omega
    unfold TempReal.value
    rw [hsplit, zpow_add₀ two_ne_zero, zpow_sub₀ two_ne_zero, zpow_natCast, zpow_natCast]
    push_cast
    ring
  rw [hvalue, roundTo_signed rc.mode (Nat.succ_pos p) emin t.neg _ (Nat.two_pow_pos _)]
  rfl

theorem target_lt_iff (rc : Rounding) (t : TempReal) {p off : ℕ} {emin : ℤ}
    (hemin : emin = (off + 64 - p : ℕ) - 16446) {k bound : ℕ} (hk : (bound : ℤ) = k + emin) :
    |roundTo rc.mode (p + 1) emin t.value| < 2 ^ bound ↔
      target p off t.exp.toNat t.mant.toNat (t.dir rc) < 2 ^ k := by
  have hpos : (0 : ℚ) < 2 ^ emin := zpow_pos two_pos emin
  have hsgn : |((sgn t.neg : ℤ) : ℚ)| = 1 := by
    cases t.neg <;> simp [sgn]
  rw [target_value rc t hemin, abs_mul, abs_mul, hsgn, one_mul, abs_of_pos hpos, Nat.abs_cast, ← zpow_natCast, hk,
    zpow_add₀ two_ne_zero, mul_lt_mul_iff_left₀ hpos, zpow_natCast]
  norm_cast

theorem signed_inj {b neg : Bool} {x y : ℕ} {u : ℚ} (hu : u ≠ 0) (h : b = neg ∨ x = 0) :
    sgn b * (x : ℚ) * u = sgn neg * (y : ℚ) * u ↔ x = y := by
  have hsgn : ((sgn neg : ℤ) : ℚ) ≠ 0 := Int.cast_ne_zero.2 (sgn_ne_zero neg)
  rw [mul_left_inj' hu]
  rcases h with rfl | rfl
  · rw [mul_right_inj' hsgn, Nat.cast_inj]
  · rw [Nat.cast_zero, mul_zero, eq_comm, mul_eq_zero, or_iff_right hsgn, Nat.cast_eq_zero, eq_comm]

/-- What is delivered is the number `r` with its sign, if and only if the pattern is. -/
theorem realValue_iff {w p : ℕ} {emin : ℤ} {x : BitVec (w + p + 1)} {neg : Bool} {n r : ℕ} (hn : n ≤ 2 ^ (w + p))
    (hx : x.toNat = (neg.toNat * 2 ^ (w + p) + n) % 2 ^ (w + p + 1)) :
    realValue p w emin x.msb (x.toNat % 2 ^ (w + p)) = some ((sgn neg : ℚ) * r * 2 ^ emin) ↔ Stored p w n r := by
  have hpow : 2 ^ (w + p + 1) = 2 * 2 ^ (w + p) := Nat.pow_succ'
  have hpos := Nat.two_pow_pos (w + p)
  have hlow : x.toNat % 2 ^ (w + p) = n % 2 ^ (w + p) := by
    rw [hx, hpow, Nat.mod_mul_left_mod, Nat.mul_add_mod_self_right]
  have hsign : x.msb = neg ∨ pattern p (x.toNat % 2 ^ (w + p)) = 0 := by
    rcases Nat.lt_or_eq_of_le hn with h | rfl
    · left
      rw [hpow] at hx
      cases neg
      · rw [Bool.toNat_false, Nat.zero_mul, Nat.zero_add, Nat.mod_eq_of_lt (by omega)] at hx
        rw [BitVec.msb_eq_false_iff_two_mul_lt, hx, hpow]
        omega
      · rw [Bool.toNat_true, Nat.one_mul, Nat.mod_eq_of_lt (by omega)] at hx
        rw [BitVec.msb_eq_true_iff_two_mul_ge, hx, hpow]
        omega
    · right
      rw [hlow, Nat.mod_self, pattern_zero (Nat.zero_le _)]
  unfold realValue Stored
  split
  · rename_i hfull
    rw [hlow] at hfull
    exact iff_of_false (by simp) (fun h => h.1 hfull)
  · rename_i hfull
    rw [hlow] at hfull hsign
    rw [Option.some_inj, hlow, signed_inj (zpow_ne_zero _ two_ne_zero) hsign]
    exact (and_iff_right hfull).symm

theorem toNat_fields {k l : ℕ} (s : Bool) (e : BitVec k) (f : BitVec l) :
    (BitVec.ofBool s ++ e ++ f).toNat = s.toNat * 2 ^ (k + l) + (e.toNat * 2 ^ l + f.toNat) := by
  rw [BitVec.toNat_append, BitVec.toNat_append, BitVec.toNat_ofBool, ← Nat.shiftLeft_add_eq_or_of_lt e.isLt,
    ← Nat.shiftLeft_add_eq_or_of_lt f.isLt, Nat.shiftLeft_eq, Nat.shiftLeft_eq, Nat.add_mul, Nat.mul_assoc,
    ← Nat.pow_add, Nat.add_assoc]

theorem packed_le {p w off exp m : ℕ} {inc : Prop} [Decidable inc] : packed p w off exp m inc ≤ 2 ^ (w + p) := by
  have hfield := Nat.mod_lt (exp + (2 ^ w - off % 2 ^ w)) (Nat.two_pow_pos w)
  have hf : m / 2 ^ (63 - p) % 2 ^ p < 2 ^ p := fraction_lt
  have hi : (if inc then 1 else 0 : ℕ) ≤ 1 := ite_le_one
  have hmul : ((exp + (2 ^ w - off % 2 ^ w)) % 2 ^ w + 1) * 2 ^ p ≤ 2 ^ w * 2 ^ p := Nat.mul_le_mul_right _ hfield
  unfold packed
  rw [Nat.add_mul, Nat.one_mul] at hmul
  rw [Nat.pow_add]
  omega

/-- The low bits of the exponent word are those of the exponent. -/
theorem exponent_field (t : TempReal) {w c : ℕ} (hw : w ≤ 15) :
    (t.exponent.setWidth w + BitVec.ofNat w c).toNat = (t.exp.toNat + c) % 2 ^ w := by
  have hdvd : 2 ^ w ∣ 2 ^ 15 := Nat.pow_dvd_pow 2 hw
  rw [BitVec.toNat_add, BitVec.toNat_setWidth, BitVec.toNat_ofNat, ← Nat.add_mod, t.exp_toNat,
    Nat.add_mod (t.exponent.toNat % 2 ^ 15), Nat.mod_mod_of_dvd _ hdvd, ← Nat.add_mod]

theorem toNat_tempToShort (rc : Rounding) {t : TempReal} (h : t.exp ≠ 0) :
    (tempToShort rc t).toNat =
      (t.neg.toNat * 2 ^ 31 + packed 23 8 16256 t.exp.toNat t.mant.toNat (shortCarry rc t)) % 2 ^ 32 := by
  have hite : (if shortCarry rc t then 1 else 0 : BitVec 32).toNat = if shortCarry rc t then 1 else 0 := by
    split <;> rfl
  have hfields := toNat_fields t.neg (t.exponent.setWidth 8 + BitVec.ofNat 8 128) ((t.mant >>> 40).setWidth 23)
  rw [exponent_field t (by decide), BitVec.toNat_setWidth, BitVec.toNat_ushiftRight, Nat.shiftRight_eq_div_pow]
    at hfields
  rw [tempToShort_eq rc h, BitVec.toNat_add, hite]
  unfold packed
  rw [← Nat.add_assoc]
  exact congrArg (fun x => (x + _) % 2 ^ 32) hfields

theorem toNat_tempToLong (rc : Rounding) {t : TempReal} (h : t.exp ≠ 0) :
    (join (tempToLong rc t).b (tempToLong rc t).a).toNat =
      (t.neg.toNat * 2 ^ 63 + packed 52 11 15360 t.exp.toNat t.mant.toNat (longCarry rc t)) % 2 ^ 64 := by
  have hite : (if longCarry rc t then 1 else 0 : BitVec 64).toNat = if longCarry rc t then 1 else 0 := by
    split <;> rfl
  have hfields := toNat_fields t.neg (t.exponent.setWidth 11 + BitVec.ofNat 11 1024) ((t.mant >>> 11).setWidth 52)
  rw [exponent_field t (by decide), BitVec.toNat_setWidth, BitVec.toNat_ushiftRight, Nat.shiftRight_eq_div_pow]
    at hfields
  rw [tempToLong_eq rc h, BitVec.toNat_add, hite]
  unfold packed
  rw [← Nat.add_assoc]
  exact congrArg (fun x => (x + _) % 2 ^ 64) hfields

/-! ## The tests for a carry -/

theorem and_ff_toNat (x : BitVec 32) : (x &&& 0xff).toNat = x.toNat % 2 ^ 8 := by
  rw [BitVec.toNat_and]
  exact Nat.and_two_pow_sub_one_eq_mod _ 8

theorem and_7ff_toNat (x : BitVec 32) : (x &&& 0x7ff).toNat = x.toNat % 2 ^ 11 := by
  rw [BitVec.toNat_and]
  exact Nat.and_two_pow_sub_one_eq_mod _ 11

theorem and_ff_ne_zero {t : TempReal} (h : t.b &&& 0xff ≠ 0) : t.mant.toNat ≠ 0 := by
  intro hm
  apply h
  rw [t.mant_toNat] at hm
  apply BitVec.eq_of_toNat_eq
  rw [and_ff_toNat, show t.b.toNat = 0 by omega]
  rfl

theorem shortCarry_facts (rc : Rounding) (t : TempReal) :
    (t.dir rc = .toward → ¬ shortCarry rc t) ∧ (shortCarry rc t → t.mant.toNat ≠ 0) ∧
      (t.dir rc = .nearest → shortCarry rc t → 2 ^ 39 < t.mant.toNat % 2 ^ 40) := by
  have hmid : 0x80 < t.b &&& 0xff → 2 ^ 39 < t.mant.toNat % 2 ^ 40 := by
    intro h
    have hlt : (0x80 : BitVec 32).toNat < (t.b &&& 0xff).toNat := h
    have hc : (0x80 : BitVec 32).toNat = 128 := rfl
    rw [and_ff_toNat, hc] at hlt
    rw [t.mant_toNat]
    omega
  have hbyte : 0x80 < t.b &&& 0xff → t.b &&& 0xff ≠ 0 := by
    intro h hzero
    rw [hzero] at h
    exact absurd h (by decide)
  cases rc
  · exact ⟨by simp [TempReal.dir, Rounding.mode, Mode.dir], fun h => and_ff_ne_zero (hbyte h), fun _ h => hmid h⟩
  · exact ⟨fun h hc => by simp [TempReal.dir, Rounding.mode, Mode.dir, hc.1] at h, fun h => and_ff_ne_zero h.2,
      fun h hc => by simp [TempReal.dir, Rounding.mode, Mode.dir, hc.1] at h⟩
  · exact ⟨fun h hc => by simp [TempReal.dir, Rounding.mode, Mode.dir, hc.1] at h, fun h => and_ff_ne_zero h.2,
      fun h hc => by simp [TempReal.dir, Rounding.mode, Mode.dir, hc.1] at h⟩
  · exact ⟨fun _ h => h, fun h => h.elim, fun _ h => h.elim⟩

theorem longCarry_facts (rc : Rounding) (t : TempReal) :
    (t.dir rc = .toward → ¬ longCarry rc t) ∧ (longCarry rc t → t.mant.toNat ≠ 0) ∧
      (t.dir rc = .nearest → longCarry rc t → 2 ^ 10 < t.mant.toNat % 2 ^ 11) := by
  have hmid : 0x400 < t.a &&& 0x7ff → 2 ^ 10 < t.mant.toNat % 2 ^ 11 := by
    intro h
    have hlt : (0x400 : BitVec 32).toNat < (t.a &&& 0x7ff).toNat := h
    have hc : (0x400 : BitVec 32).toNat = 1024 := rfl
    rw [and_7ff_toNat, hc] at hlt
    rw [t.mant_toNat]
    omega
  cases rc
  · refine ⟨by simp [TempReal.dir, Rounding.mode, Mode.dir], fun h => ?_, fun _ h => hmid h⟩
    have := hmid h
    omega
  · exact ⟨fun h hc => by simp [TempReal.dir, Rounding.mode, Mode.dir, hc.1] at h, fun h => and_ff_ne_zero h.2,
      fun h hc => by simp [TempReal.dir, Rounding.mode, Mode.dir, hc.1] at h⟩
  · exact ⟨fun h hc => by simp [TempReal.dir, Rounding.mode, Mode.dir, hc.1] at h, fun h => and_ff_ne_zero h.2,
      fun h hc => by simp [TempReal.dir, Rounding.mode, Mode.dir, hc.1] at h⟩
  · exact ⟨fun _ h => h, fun h => h.elim, fun _ h => h.elim⟩

/-! ## When the conversions are right -/

/-- Where `temp_to_short` delivers the rounded number. -/
def ShortRight (rc : Rounding) (t : TempReal) : Prop :=
  StoreRight 23 8 16256 (t.dir rc) (shortCarry rc t) t.exp.toNat t.mant.toNat

def LongRight (rc : Rounding) (t : TempReal) : Prop :=
  StoreRight 52 11 15360 (t.dir rc) (longCarry rc t) t.exp.toNat t.mant.toNat

/-- With an exponent of zero the word that has both is the sign. -/
theorem exponent_ne_zero {t : TempReal} (h : t.exp = 0) : t.exponent ≠ 0 ↔ t.neg = true := by
  have hexponent := exponent_toNat t
  rw [h] at hexponent
  rw [ne_eq, BitVec.toNat_eq, hexponent]
  cases t.neg <;> simp

/-- A zero is what should be stored, unless a number is rounded away from it. -/
theorem realValue_zero_iff {w p off m : ℕ} {d : Dir} {emin : ℤ} {x : BitVec (w + p + 1)} {neg : Bool} (hw : 2 ≤ w)
    (hm : m < 2 ^ 64) (hoff : 66 ≤ off + 64 - p) (hx : x.toNat = neg.toNat * 2 ^ (w + p)) :
    realValue p w emin x.msb (x.toNat % 2 ^ (w + p)) = some ((sgn neg : ℚ) * target p off 0 m d * 2 ^ emin) ↔
      (d = .away → m = 0) := by
  have hlt : neg.toNat * 2 ^ (w + p) < 2 ^ (w + p + 1) := by
    have hpos := Nat.two_pow_pos (w + p)
    rw [Nat.pow_succ]
    cases neg <;> simp
  have hstored := stored_low (p := p) (f := 0) (r := target p off 0 m d) hw (Nat.zero_le _)
  rw [Nat.zero_mul, Nat.zero_add] at hstored
  rw [realValue_iff (n := 0) (Nat.zero_le _) (by rw [hx, Nat.add_zero, Nat.mod_eq_of_lt hlt]), hstored,
    target_of_zero hm hoff]

/-- The exponents of the last bit of a denormalised number, from the biases of the formats. -/
theorem short_emin : (-149 : ℤ) = (16256 + 64 - 23 : ℕ) - 16446 := by decide

theorem long_emin : (-1074 : ℤ) = (15360 + 64 - 52 : ℕ) - 16446 := by decide

theorem exp_pos {t : TempReal} (h : t.exp ≠ 0) : 1 ≤ t.exp.toNat := by
  by_contra hlt
  exact h (BitVec.eq_of_toNat_eq (by rw [show t.exp.toNat = 0 by omega]; rfl))

/-- **When `temp_to_short` delivers the number rounded by the mode.** -/
theorem tempToShort_iff (rc : Rounding) {t : TempReal} (hrep : |roundTo rc.mode 24 (-149) t.value| < 2 ^ 128) :
    ShortReal.value (tempToShort rc t) = some (roundTo rc.mode 24 (-149) t.value) ↔ ShortRight rc t := by
  have hlt := (target_lt_iff rc t short_emin (k := 2 ^ 8 - 2 + 23) (by decide)).1 hrep
  obtain ⟨htoward, hinc, hnear⟩ := shortCarry_facts rc t
  rw [target_value rc t short_emin]
  by_cases hz : t.exp = 0
  · have hx : (tempToShort rc t).toNat = t.neg.toNat * 2 ^ 31 := by
      unfold tempToShort
      rw [if_pos hz]
      simp only [exponent_ne_zero hz]
      cases t.neg <;> rfl
    have hexp : t.exp.toNat = 0 := by
      rw [hz]
      rfl
    unfold ShortRight StoreRight
    rw [hexp, if_pos rfl]
    exact realValue_zero_iff (w := 8) (p := 23) (by omega) t.mant.isLt (by omega) hx
  · exact (realValue_iff (w := 8) (p := 23) packed_le (toNat_tempToShort rc hz)).trans
      (stored_iff (by decide) (by decide) (by decide) (by decide) (exp_pos hz) t.mant.isLt hlt htoward hinc hnear)

/-- **When `temp_to_long` does.** -/
theorem tempToLong_iff (rc : Rounding) {t : TempReal} (hrep : |roundTo rc.mode 53 (-1074) t.value| < 2 ^ 1024) :
    (tempToLong rc t).value = some (roundTo rc.mode 53 (-1074) t.value) ↔ LongRight rc t := by
  have hlt := (target_lt_iff rc t long_emin (k := 2 ^ 11 - 2 + 52) (by decide)).1 hrep
  obtain ⟨htoward, hinc, hnear⟩ := longCarry_facts rc t
  rw [target_value rc t long_emin]
  by_cases hz : t.exp = 0
  · have hx : (join (tempToLong rc t).b (tempToLong rc t).a).toNat = t.neg.toNat * 2 ^ 63 := by
      unfold tempToLong
      rw [if_pos hz, toNat_join]
      simp only [exponent_ne_zero hz]
      cases t.neg <;> simp
    have hexp : t.exp.toNat = 0 := by
      rw [hz]
      rfl
    unfold LongRight StoreRight
    rw [hexp, if_pos rfl]
    exact realValue_zero_iff (w := 11) (p := 52) (by omega) t.mant.isLt (by omega) hx
  · exact (realValue_iff (w := 11) (p := 52) packed_le (toNat_tempToLong rc hz)).trans
      (stored_iff (by decide) (by decide) (by decide) (by decide) (exp_pos hz) t.mant.isLt hlt htoward hinc hnear)

/-- **The four conversions deliver the number rounded by the mode exactly where the four conditions say.** -/
theorem conversions_round_iff (rc : Rounding) (t : TempReal) :
    (|roundTo rc.mode 24 (-149) t.value| < 2 ^ 128 →
        (ShortReal.value (tempToShort rc t) = some (roundTo rc.mode 24 (-149) t.value) ↔ ShortRight rc t)) ∧
      (|roundTo rc.mode 53 (-1074) t.value| < 2 ^ 1024 →
        ((tempToLong rc t).value = some (roundTo rc.mode 53 (-1074) t.value) ↔ LongRight rc t)) ∧
      ((realToInt rc t).1.value = rc.mode.round t.value ↔ IntRight rc t) ∧
      ((frndint rc t).value = rc.mode.round t.value ↔ FrndintRight rc t) :=
  ⟨tempToShort_iff rc, tempToLong_iff rc, realToInt_iff rc t, frndint_iff rc t⟩

/-- A number with a small enough exponent is representable. -/
theorem roundTo_lt (rc : Rounding) (t : TempReal) {p off : ℕ} {emin : ℤ} (hemin : emin = (off + 64 - p : ℕ) - 16446)
    {k bound : ℕ} (hk : (bound : ℤ) = (k + 1 : ℕ) + emin) (h : 64 + max t.exp.toNat 1 ≤ off + 64 - p + k) :
    |roundTo rc.mode (p + 1) emin t.value| < 2 ^ bound := by
  have hle : target p off t.exp.toNat t.mant.toNat (t.dir rc) ≤ 2 ^ k := target_le (by
    refine le_trans (Nat.mul_le_mul_right _ t.mant.isLt.le) ?_
    rw [← Nat.pow_add]
    exact Nat.pow_le_pow_right (by decide) (by omega))
  rw [target_lt_iff rc t hemin hk, Nat.pow_succ']
  have := Nat.two_pow_pos k
  omega

/-- `CONST1`. -/
def const1 : TempReal := ⟨0, 0x80000000, 0x3fff⟩

theorem conversions_round_iff_const1 :
    (ShortReal.value (tempToShort .nearest const1) = some (roundTo .nearest 24 (-149) const1.value) ↔
        ShortRight .nearest const1) ∧
      ((tempToLong .nearest const1).value = some (roundTo .nearest 53 (-1074) const1.value) ↔
        LongRight .nearest const1) ∧
      ((realToInt .nearest const1).1.value = Mode.nearest.round const1.value ↔ IntRight .nearest const1) ∧
      ((frndint .nearest const1).value = Mode.nearest.round const1.value ↔ FrndintRight .nearest const1) := by
  obtain ⟨hshort, hlong, hint, hfrnd⟩ := conversions_round_iff .nearest const1
  have hexp : const1.exp.toNat = 16383 := by decide
  refine ⟨hshort ?_, hlong ?_, hint, hfrnd⟩
  · exact roundTo_lt .nearest const1 short_emin (k := 2 ^ 8 - 2 + 22) (by decide) (by rw [hexp]; decide)
  · exact roundTo_lt .nearest const1 long_emin (k := 2 ^ 11 - 2 + 51) (by decide) (by rw [hexp]; decide)

/-- The number halfway between 1 + 2⁻²³ and 1 + 2⁻²². -/
def halfway : TempReal := ⟨0, 0x80000180, 0x3fff⟩

/-- A number halfway between two short reals is rounded to the odd one. -/
theorem tempToShort_halfway :
    |roundTo .nearest 24 (-149) halfway.value| < 2 ^ 128 ∧
      ShortReal.value (tempToShort .nearest halfway) ≠ some (roundTo .nearest 24 (-149) halfway.value) := by
  have hexp : halfway.exp.toNat = 16383 := by decide
  have hrep : |roundTo .nearest 24 (-149) halfway.value| < 2 ^ 128 :=
    roundTo_lt .nearest halfway short_emin (k := 2 ^ 8 - 2 + 22) (by decide) (by rw [hexp]; decide)
  refine ⟨hrep, fun h => ?_⟩
  have hright := (tempToShort_iff .nearest hrep).1 h
  unfold ShortRight StoreRight at hright
  rw [hexp, if_neg (by decide), if_pos (by decide), if_pos (by decide)] at hright
  exact absurd hright (by decide)

end Math
end Linux095
