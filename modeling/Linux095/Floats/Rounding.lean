import Mathlib.Algebra.Order.Field.Basic
import Mathlib.Algebra.Order.Floor.Semifield
import Mathlib.Data.Int.Log
import Mathlib.Data.Rat.Floor
import Mathlib.Tactic.FieldSimp
import Mathlib.Tactic.Linarith
import Mathlib.Tactic.Ring

/-!
# `Floats.Rounding` — rounding of rationals, and of magnitudes

What rounding to an integer and rounding to a floating-point format mean, for the four usual modes, and the same on
magnitudes that are given as a quotient of natural numbers: there a mode is a direction, and rounding is division with
a carry.

* `Mode.round`, `roundTo` — rounding of a rational to an integer, and to so many significant bits;
* `roundNat`, `roundMag` — the same for the magnitude `n / q`;
* `round_signed`, `roundTo_signed` — the two agree;
* `roundNat_mul`, `roundMag_eq`, `two_pow_le_roundMag`, `roundMag_le_two_pow` — rules for magnitudes.
-/

namespace Floats

/-! ## Modes -/

inductive Mode where
  | nearest
  | down
  | up
  | zero
  deriving DecidableEq

/-- What a mode does to a magnitude. -/
inductive Dir where
  | nearest
  | away
  | toward
  deriving DecidableEq

def Mode.dir (m : Mode) (neg : Bool) : Dir :=
  match m, neg with
  | .nearest, _ => .nearest
  | .down, true => .away
  | .down, false => .toward
  | .up, true => .toward
  | .up, false => .away
  | .zero, _ => .toward

/-- Rounding to an integer; ties go to the even one. -/
def Mode.round (m : Mode) (x : ℚ) : ℤ :=
  match m with
  | .nearest =>
      if x - ⌊x⌋ < 1 / 2 then ⌊x⌋
      else if 1 / 2 < x - ⌊x⌋ then ⌊x⌋ + 1
      else if Even ⌊x⌋ then ⌊x⌋ else ⌊x⌋ + 1
  | .down => ⌊x⌋
  | .up => ⌈x⌉
  | .zero => if 0 ≤ x then ⌊x⌋ else ⌈x⌉

/-- The exponent of the last place of `x` in a format with `p` significant bits and least exponent `emin`. -/
def cexp (p : ℕ) (emin : ℤ) (x : ℚ) : ℤ := max emin (Int.log 2 |x| + 1 - p)

/-- Rounding to a format with `p` significant bits, least exponent `emin` and no greatest one. -/
def roundTo (m : Mode) (p : ℕ) (emin : ℤ) (x : ℚ) : ℚ :=
  m.round (x / 2 ^ cexp p emin x) * 2 ^ cexp p emin x

/-! ## Magnitudes -/

/-- Whether rounding `n / q` adds one to the quotient. -/
def Carry (d : Dir) (n q : ℕ) : Prop :=
  match d with
  | .nearest => q < 2 * (n % q) ∨ (q = 2 * (n % q) ∧ n / q % 2 = 1)
  | .away => n % q ≠ 0
  | .toward => False

instance (d : Dir) (n q : ℕ) : Decidable (Carry d n q) := by
  cases d <;> unfold Carry <;> infer_instance

def roundNat (d : Dir) (n q : ℕ) : ℕ := n / q + if Carry d n q then 1 else 0

/-- `n / q` with `p` significant bits and the unit as least exponent. -/
def roundMag (d : Dir) (p n q : ℕ) : ℕ :=
  let k := Nat.log 2 (n / q) + 1 - p
  roundNat d n (q * 2 ^ k) * 2 ^ k

def sgn (neg : Bool) : ℤ := if neg then -1 else 1

theorem sgn_ne_zero (neg : Bool) : sgn neg ≠ 0 := by
  cases neg <;> decide

/-! ## Rounding a magnitude -/

/-- The integer part and the rest of a quotient. -/
theorem div_eq_quot_add (n : ℕ) {q : ℕ} (hq : 0 < q) : (n / q : ℚ) = ((n / q : ℕ) : ℚ) + ((n % q : ℕ) : ℚ) / q := by
  have hq' : (q : ℚ) ≠ 0 := by exact_mod_cast hq.ne'
  rw [eq_comm, add_div' _ _ _ hq', div_left_inj' hq']
  have hsplit : n / q * q + n % q = n := Nat.div_add_mod' n q
  exact_mod_cast hsplit

theorem rest_nonneg (n q : ℕ) : 0 ≤ ((n % q : ℕ) : ℚ) / q := by positivity

theorem rest_lt_one (n : ℕ) {q : ℕ} (hq : 0 < q) : ((n % q : ℕ) : ℚ) / q < 1 := by
  have hq' : (0 : ℚ) < q := by exact_mod_cast hq
  rw [div_lt_one hq']
  exact_mod_cast Nat.mod_lt n hq

theorem floor_div (n q : ℕ) : ⌊(n / q : ℚ)⌋ = (n / q : ℕ) := by
  rw [Int.floor_div_natCast, Int.floor_natCast, Int.natCast_div]

theorem roundNat_of_carry {d : Dir} {n q : ℕ} (h : Carry d n q) : roundNat d n q = n / q + 1 := by
  unfold roundNat
  rw [if_pos h]

theorem roundNat_of_not_carry {d : Dir} {n q : ℕ} (h : ¬ Carry d n q) : roundNat d n q = n / q := by
  unfold roundNat
  rw [if_neg h, Nat.add_zero]

theorem ceil_div (n : ℕ) {q : ℕ} (hq : 0 < q) : ⌈(n / q : ℚ)⌉ = (roundNat .away n q : ℕ) := by
  have h0 := rest_nonneg n q
  have h1 := rest_lt_one n hq
  rw [Int.ceil_eq_iff, div_eq_quot_add n hq, Int.cast_natCast]
  by_cases hr : n % q = 0
  · rw [roundNat_of_not_carry (d := .away) (fun h => h hr), hr]
    simp
  · have hpos : 0 < ((n % q : ℕ) : ℚ) / q := by
      have hq' : (0 : ℚ) < q := by exact_mod_cast hq
      have hr' : (0 : ℚ) < (n % q : ℕ) := by exact_mod_cast Nat.pos_of_ne_zero hr
      positivity
    rw [roundNat_of_carry (d := .away) hr, Nat.cast_add, Nat.cast_one]
    constructor <;> linarith

/-- The rest compared with one half. -/
theorem rest_lt_half (n : ℕ) {q : ℕ} (hq : 0 < q) : ((n % q : ℕ) : ℚ) / q < 1 / 2 ↔ 2 * (n % q) < q := by
  have hq' : (0 : ℚ) < q := by exact_mod_cast hq
  rw [div_lt_div_iff₀ hq' two_pos]
  constructor
  · intro h
    have h' : ((n % q * 2 : ℕ) : ℚ) < ((1 * q : ℕ) : ℚ) := by push_cast; exact h
    have := Nat.cast_lt.1 h'
    omega
  · intro h
    have h' : n % q * 2 < 1 * q := by omega
    exact_mod_cast h'

theorem half_lt_rest (n : ℕ) {q : ℕ} (hq : 0 < q) : 1 / 2 < ((n % q : ℕ) : ℚ) / q ↔ q < 2 * (n % q) := by
  have hq' : (0 : ℚ) < q := by exact_mod_cast hq
  rw [div_lt_div_iff₀ two_pos hq']
  constructor
  · intro h
    have h' : ((1 * q : ℕ) : ℚ) < ((n % q * 2 : ℕ) : ℚ) := by push_cast; exact h
    have := Nat.cast_lt.1 h'
    omega
  · intro h
    have h' : 1 * q < n % q * 2 := by omega
    exact_mod_cast h'

theorem round_nearest_div (n : ℕ) {q : ℕ} (hq : 0 < q) : Mode.nearest.round (n / q) = roundNat .nearest n q := by
  have hrest : (n / q : ℚ) - ((n / q : ℕ) : ℤ) = ((n % q : ℕ) : ℚ) / q := by
    rw [div_eq_quot_add n hq, Int.cast_natCast, add_sub_cancel_left]
  unfold Mode.round
  dsimp only
  rw [floor_div n q, hrest]
  simp only [rest_lt_half n hq, half_lt_rest n hq, Int.even_coe_nat, Nat.even_iff]
  split_ifs with h1 h2 h3
  · rw [roundNat_of_not_carry]
    rintro (h | h) <;> omega
  · rw [roundNat_of_carry (show Carry .nearest n q from Or.inl h2)]
    push_cast
    rfl
  · rw [roundNat_of_not_carry]
    rintro (h | h) <;> omega
  · rw [roundNat_of_carry (show Carry .nearest n q from Or.inr (by omega))]
    push_cast
    rfl

theorem round_nearest_neg_div (n : ℕ) {q : ℕ} (hq : 0 < q) :
    Mode.nearest.round (-(n / q)) = -(roundNat .nearest n q : ℤ) := by
  have h0 := rest_nonneg n q
  have h1 := rest_lt_one n hq
  unfold Mode.round
  dsimp only
  rw [Int.floor_neg, ceil_div n hq]
  by_cases hr : n % q = 0
  · have hexact : (n / q : ℚ) = ((n / q : ℕ) : ℚ) := by
      rw [div_eq_quot_add n hq, hr]
      simp
    have hnone : ¬ Carry .nearest n q := by
      rintro (h | h) <;> omega
    have hzero : -((n / q : ℕ) : ℚ) - ((-((n / q : ℕ) : ℤ) : ℤ) : ℚ) = 0 := by
      rw [Int.cast_neg, Int.cast_natCast, sub_self]
    rw [roundNat_of_not_carry (d := .away) (fun h => h hr), hexact, roundNat_of_not_carry hnone, hzero,
      if_pos (by norm_num)]
  · -- one minus the rest, above an odd or even number that is one further from zero
    have hrest : -(n / q : ℚ) - ((-((n / q + 1 : ℕ) : ℤ) : ℤ) : ℚ) = 1 - ((n % q : ℕ) : ℚ) / q := by
      rw [div_eq_quot_add n hq, Int.cast_neg, Int.cast_natCast, Nat.cast_add, Nat.cast_one]
      ring
    have hlt : 1 - ((n % q : ℕ) : ℚ) / q < 1 / 2 ↔ q < 2 * (n % q) := by
      rw [← half_lt_rest n hq]
      constructor <;> intro h <;> linarith
    have hgt : 1 / 2 < 1 - ((n % q : ℕ) : ℚ) / q ↔ 2 * (n % q) < q := by
      rw [← rest_lt_half n hq]
      constructor <;> intro h <;> linarith
    rw [roundNat_of_carry (d := .away) hr, hrest]
    simp only [hlt, hgt, even_neg, Int.even_coe_nat, Nat.even_iff]
    split_ifs with h2 h3 h4
    · rw [roundNat_of_carry (show Carry .nearest n q from Or.inl h2)]
    · rw [roundNat_of_not_carry (by rintro (h | h) <;> omega), Nat.cast_add, Nat.cast_one]
      ring
    · rw [roundNat_of_carry (show Carry .nearest n q from Or.inr (by omega))]
    · rw [roundNat_of_not_carry (by rintro (h | h) <;> omega), Nat.cast_add, Nat.cast_one]
      ring

theorem roundNat_toward (n q : ℕ) : roundNat .toward n q = n / q := roundNat_of_not_carry id

/-- **Rounding to an integer is rounding of the magnitude.** -/
theorem round_signed (m : Mode) (neg : Bool) (n : ℕ) {q : ℕ} (hq : 0 < q) :
    m.round (sgn neg * (n / q : ℚ)) = sgn neg * (roundNat (m.dir neg) n q : ℤ) := by
  have hnonneg : (0 : ℚ) ≤ n / q := by positivity
  cases neg
  · simp only [sgn, Bool.false_eq_true, if_false, Int.cast_one, one_mul]
    cases m
    · exact round_nearest_div n hq
    · simp only [Mode.round, Mode.dir, floor_div n q, roundNat_toward]
    · simp only [Mode.round, Mode.dir, ceil_div n hq]
    · simp only [Mode.round, Mode.dir, if_pos hnonneg, floor_div n q, roundNat_toward]
  · simp only [sgn, if_true, Int.cast_neg, Int.cast_one, neg_mul, one_mul]
    cases m
    · exact round_nearest_neg_div n hq
    · simp only [Mode.round, Mode.dir, Int.floor_neg, ceil_div n hq]
    · simp only [Mode.round, Mode.dir, Int.ceil_neg, floor_div n q, roundNat_toward]
    · by_cases hz : (0 : ℚ) ≤ -(n / q)
      · have hzero : (n / q : ℚ) = 0 := by linarith
        have hquot : n / q = 0 := by
          have hfloor := floor_div n q
          rw [hzero, Int.floor_zero] at hfloor
          omega
        simp only [Mode.round, Mode.dir, roundNat_toward, hquot, hzero]
        simp
      · simp only [Mode.round, Mode.dir, if_neg hz, Int.ceil_neg, floor_div n q, roundNat_toward]

/-! ## Rules for magnitudes -/

/-- Rounding depends on the quotient only. -/
theorem roundNat_mul (d : Dir) (n q : ℕ) {c : ℕ} (hc : 0 < c) : roundNat d (n * c) (q * c) = roundNat d n q := by
  have hdiv : n * c / (q * c) = n / q := Nat.mul_div_mul_right n q hc
  have hmod : n * c % (q * c) = n % q * c := Nat.mul_mod_mul_right c n q
  have hcarry : Carry d (n * c) (q * c) ↔ Carry d n q := by
    unfold Carry
    rw [hdiv, hmod]
    cases d
    · have hlt : q * c < 2 * (n % q * c) ↔ q < 2 * (n % q) := by
        rw [← Nat.mul_assoc]
        exact Nat.mul_lt_mul_right hc
      have heq : q * c = 2 * (n % q * c) ↔ q = 2 * (n % q) := by
        rw [← Nat.mul_assoc]
        exact Nat.mul_left_inj hc.ne'
      simp only [hlt, heq]
    · simp [hc.ne']
    · rfl
  unfold roundNat
  simp only [hdiv, hcarry]

theorem le_roundNat (d : Dir) {n q N : ℕ} (hq : 0 < q) (h : q * N ≤ n) : N ≤ roundNat d n q := by
  have hdiv : N ≤ n / q := (Nat.le_div_iff_mul_le hq).2 (by rwa [Nat.mul_comm])
  unfold roundNat
  omega

theorem roundNat_le (d : Dir) {n q N : ℕ} (hq : 0 < q) (h : n ≤ q * N) : roundNat d n q ≤ N := by
  have hle : n / q ≤ N := Nat.div_le_of_le_mul h
  by_cases hrest : n % q = 0
  · have hnone : ¬ Carry d n q := by
      unfold Carry
      rw [hrest]
      cases d
      · simp [hq.ne']
      · simp
      · exact id
    rw [roundNat_of_not_carry hnone]
    exact hle
  · have hlt : n / q < N := by
      rw [Nat.div_lt_iff_lt_mul hq, Nat.mul_comm]
      refine lt_of_le_of_ne h (fun heq => hrest ?_)
      rw [heq, Nat.mul_mod_right]
    unfold roundNat
    split <;> omega

theorem roundNat_one (d : Dir) (n : ℕ) : roundNat d n 1 = n :=
  le_antisymm (roundNat_le d one_pos (Nat.one_mul n).ge) (le_roundNat d one_pos (Nat.one_mul n).le)

/-- A magnitude below one half is rounded to zero, or away from it to one. -/
theorem roundNat_of_small (d : Dir) {n q : ℕ} (h : 2 * n < q) :
    roundNat d n q = if d = .away ∧ n ≠ 0 then 1 else 0 := by
  have hdiv : n / q = 0 := Nat.div_eq_of_lt (by omega)
  have hmod : n % q = n := Nat.mod_eq_of_lt (by omega)
  have hcarry : Carry d n q ↔ d = .away ∧ n ≠ 0 := by
    unfold Carry
    rw [hdiv, hmod]
    cases d
    · simp only [reduceCtorEq, false_and, iff_false]
      omega
    · simp
    · simp
  unfold roundNat
  simp only [hdiv, hcarry, Nat.zero_add]

/-- A magnitude that fits is rounded to a multiple of the unit. -/
theorem roundMag_of_lt {p n q : ℕ} (d : Dir) (hp : 0 < p) (h : n / q < 2 ^ p) : roundMag d p n q = roundNat d n q := by
  have hk : Nat.log 2 (n / q) + 1 - p = 0 := by
    by_cases hz : n / q = 0
    · rw [hz, Nat.log_zero_right]
      omega
    · have := (Nat.log_lt_iff_lt_pow (by decide) hz).2 h
      omega
  unfold roundMag
  rw [hk]
  dsimp only
  rw [Nat.pow_zero, Nat.mul_one, Nat.mul_one]

/-- A larger one to a multiple of the power of two that leaves `p` bits. -/
theorem roundMag_of_le {p n q k : ℕ} (d : Dir) (hp : 0 < p) (hlo : 2 ^ (p - 1 + k) ≤ n / q)
    (hhi : n / q < 2 ^ (p + k)) : roundMag d p n q = roundNat d n (q * 2 ^ k) * 2 ^ k := by
  have hz : n / q ≠ 0 := by
    have := Nat.two_pow_pos (p - 1 + k)
    omega
  have hge := (Nat.le_log_iff_pow_le (by decide) hz).2 hlo
  have hlt := (Nat.log_lt_iff_lt_pow (by decide) hz).2 hhi
  have hk : Nat.log 2 (n / q) + 1 - p = k := by omega
  unfold roundMag
  rw [hk]

/-- Powers of two have a place in every format: rounding does not cross them. -/
theorem two_pow_le_roundMag {p n q j : ℕ} (d : Dir) (hp : 0 < p) (hq : 0 < q) (h : q * 2 ^ j ≤ n) :
    2 ^ j ≤ roundMag d p n q := by
  unfold roundMag
  dsimp only
  generalize hk : Nat.log 2 (n / q) + 1 - p = k
  have hqk : 0 < q * 2 ^ k := Nat.mul_pos hq (Nat.two_pow_pos k)
  by_cases hkj : k ≤ j
  · have hsplit : 2 ^ j = 2 ^ (j - k) * 2 ^ k := by
      rw [← Nat.pow_add, Nat.sub_add_cancel hkj]
    rw [hsplit]
    refine Nat.mul_le_mul_right _ (le_roundNat d hqk ?_)
    rw [Nat.mul_assoc, Nat.mul_comm (2 ^ k), ← hsplit]
    exact h
  · have hz : n / q ≠ 0 := by
      intro hz
      rw [hz, Nat.log_zero_right] at hk
      omega
    have hlo : 2 ^ k ≤ n / q := (Nat.le_log_iff_pow_le (by decide) hz).1 (by omega)
    have hone : 1 ≤ roundNat d n (q * 2 ^ k) := by
      refine le_roundNat d hqk ?_
      rw [Nat.mul_one, Nat.mul_comm]
      exact (Nat.le_div_iff_mul_le hq).1 hlo
    calc 2 ^ j ≤ 2 ^ k := Nat.pow_le_pow_right (by decide) (by omega)
      _ ≤ roundNat d n (q * 2 ^ k) * 2 ^ k := Nat.le_mul_of_pos_left _ hone

theorem roundMag_le_two_pow {p n q j : ℕ} (d : Dir) (hp : 0 < p) (hq : 0 < q) (h : n ≤ q * 2 ^ j) :
    roundMag d p n q ≤ 2 ^ j := by
  unfold roundMag
  dsimp only
  generalize hk : Nat.log 2 (n / q) + 1 - p = k
  have hqk : 0 < q * 2 ^ k := Nat.mul_pos hq (Nat.two_pow_pos k)
  have hkj : k ≤ j := by
    by_contra hlt
    have hz : n / q ≠ 0 := by
      intro hz
      rw [hz, Nat.log_zero_right] at hk
      omega
    have hlo : 2 ^ (j + 1) ≤ n / q := (Nat.le_log_iff_pow_le (by decide) hz).1 (by omega)
    have hhi : n / q ≤ 2 ^ j := Nat.div_le_of_le_mul h
    have := Nat.pow_lt_pow_right (a := 2) (by decide) (Nat.lt_succ_self j)
    omega
  have hsplit : 2 ^ j = 2 ^ (j - k) * 2 ^ k := by
    rw [← Nat.pow_add, Nat.sub_add_cancel hkj]
  rw [hsplit]
  refine Nat.mul_le_mul_right _ (roundNat_le d hqk ?_)
  rw [Nat.mul_assoc, Nat.mul_comm (2 ^ k), ← hsplit]
  exact h

/-! ## Rounding to a format -/

/-- Scaling by a power of two. -/
theorem log_mul_two_zpow {x : ℚ} (hx : 0 < x) (z : ℤ) : Int.log 2 (x * 2 ^ z) = Int.log 2 x + z := by
  have htwo : (2 : ℚ) ≠ 0 := two_ne_zero
  have hpow : (0 : ℚ) < 2 ^ z := zpow_pos two_pos z
  have hiff : ∀ k : ℤ, k ≤ Int.log 2 (x * 2 ^ z) ↔ k ≤ Int.log 2 x + z := by
    intro k
    rw [← sub_le_iff_le_add, ← Int.zpow_le_iff_le_log (by decide) (mul_pos hx hpow),
      ← Int.zpow_le_iff_le_log (by decide) hx, zpow_sub₀ (by exact_mod_cast htwo), div_le_iff₀ (by exact_mod_cast hpow)]
    rfl
  exact le_antisymm ((hiff _).1 le_rfl) ((hiff _).2 le_rfl)

/-- The last place of a magnitude in units of the least one. -/
theorem cexp_eq {p : ℕ} (hp : 0 < p) (emin : ℤ) {n q : ℕ} (hn : 0 < n) (hq : 0 < q) {x : ℚ}
    (hx : |x| = (n / q : ℚ) * 2 ^ emin) : cexp p emin x = emin + (Nat.log 2 (n / q) + 1 - p : ℕ) := by
  have hn' : (0 : ℚ) < n := by exact_mod_cast hn
  have hq' : (0 : ℚ) < q := by exact_mod_cast hq
  have hpos : (0 : ℚ) < n / q := by positivity
  have hlog : Int.log 2 |x| = Int.log 2 (n / q : ℚ) + emin := by rw [hx, log_mul_two_zpow hpos]
  unfold cexp
  rw [hlog]
  by_cases hone : (1 : ℚ) ≤ n / q
  · rw [Int.log_of_one_le_right 2 hone, Nat.floor_div_natCast, Nat.floor_natCast]
    omega
  · have hneg : Int.log 2 (n / q : ℚ) < 0 := by
      rw [← Int.lt_zpow_iff_log_lt (by decide) hpos, zpow_zero]
      linarith
    have hquot : n / q = 0 := by
      rw [← Nat.floor_natCast (R := ℚ) n, ← Nat.floor_div_natCast, Nat.floor_eq_zero]
      linarith
    rw [hquot, Nat.log_zero_right]
    omega

/-- **Rounding to a format is rounding of the magnitude.** -/
theorem roundTo_signed (m : Mode) {p : ℕ} (hp : 0 < p) (emin : ℤ) (neg : Bool) (n : ℕ) {q : ℕ} (hq : 0 < q) :
    roundTo m p emin (sgn neg * (n / q : ℚ) * 2 ^ emin) =
      sgn neg * (roundMag (m.dir neg) p n q : ℚ) * 2 ^ emin := by
  have hpow : (0 : ℚ) < 2 ^ emin := zpow_pos two_pos emin
  by_cases hn : n = 0
  · have hzero : roundMag (m.dir neg) p 0 q = 0 := by
      rw [roundMag_of_lt _ hp (by simp)]
      exact Nat.le_zero.1 (roundNat_le _ hq (Nat.zero_le _))
    have hround : m.round 0 = 0 := by
      cases m <;> simp [Mode.round]
    rw [hn, hzero]
    simp [roundTo, hround]
  · have habs : |(sgn neg * (n / q : ℚ) * 2 ^ emin : ℚ)| = (n / q : ℚ) * 2 ^ emin := by
      rw [abs_mul, abs_mul, abs_of_pos hpow, abs_of_nonneg (show (0 : ℚ) ≤ n / q by positivity)]
      cases neg <;> simp [sgn]
    have hcexp := cexp_eq hp emin (Nat.pos_of_ne_zero hn) hq habs
    unfold roundTo roundMag
    rw [hcexp]
    dsimp only
    generalize Nat.log 2 (n / q) + 1 - p = k
    have hqk : 0 < q * 2 ^ k := Nat.mul_pos hq (Nat.two_pow_pos k)
    have hscale : (sgn neg * (n / q : ℚ) * 2 ^ emin) / 2 ^ (emin + (k : ℤ)) =
        sgn neg * (n / ((q * 2 ^ k : ℕ) : ℚ)) := by
      rw [zpow_add₀ two_ne_zero, zpow_natCast]
      push_cast
      field_simp
    rw [hscale, round_signed m neg n hqk, zpow_add₀ two_ne_zero, zpow_natCast]
    push_cast
    ring

end Floats
