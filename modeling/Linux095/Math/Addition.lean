import Mathlib.Data.Sign.Basic
import Linux095.Math.Difference

/-!
# `Math.Addition` — how accurate `fadd` is, and where its exponent wraps (`kernel/math/add.c`)

`fadd` shifts both mantissas to the larger exponent, and by two more bits that make room for a carry and for the sign.
What it makes of their sum is that sum exactly, as long as the exponent stays clear of its sign on both sides.

* `unsignify_spec` — what taking the sign off and normalising does;
* `fadd_near`, `fadd_apart` — what `fadd` delivers, by the sum of the mantissas;
* `fadd_accurate` — **the error is less than eight units of the larger exponent**;
* `faddWraps` — the exponent runs into its sign; `fadd_limits_iff` — **when it does not, and what holds then**.
-/

namespace Linux095
namespace Math

open Floats

variable {x y : TempReal}

/-! ## What `fadd` delivers -/

/-- The exponents are so close that both mantissas count. -/
def Near (x y : TempReal) : Prop := x.exp.toNat < y.exp.toNat + 64 ∧ y.exp.toNat < x.exp.toNat + 64

/-- A sum of mantissas `n` at the exponent `e`, normalised by `j` shifts. -/
def summed (n : ℤ) (e : BitVec 16) (j : ℕ) : TempReal :=
  real ((if n < 0 then e ||| 0x8000 else e) - BitVec.ofNat 16 j) (BitVec.ofNat 64 (n.natAbs * 2 ^ j))

theorem near_comm : Near x y ↔ Near y x := And.comm

/-- Of two exponents that are close to each other `fadd` forms the sum of the mantissas. -/
theorem signified_sum (hle : y.exp.toNat ≤ x.exp.toNat) (hx : x.exp.toNat < 0x7ffe) :
    ∃ e m, signified x y = real e m ∧ e.toNat = x.exp.toNat + 2 ∧ m.toInt = mantSum x y := by
  obtain ⟨e, m, hresult, he, hm⟩ := signified_eq hle
  rw [signBit_below hx, signBit_below (by omega)] at hm
  exact ⟨e, m, hresult, by omega, hm⟩

theorem addOrdered_near (hnear : Near x y) : addOrdered x y = unsignify (signified x y) := by
  have hlt := hnear.1
  exact addOrdered_of_near (by omega)

theorem mantSum_lt (x y : TempReal) : (mantSum x y).natAbs < 2 ^ 63 := by
  have hx := aligned_lt (common x y) x
  have hy := aligned_lt (common x y) y
  have hsx := sgn_mul_cases x.neg (aligned (common x y) x)
  have hsy := sgn_mul_cases y.neg (aligned (common x y) y)
  unfold mantSum
  omega

theorem fadd_sum (hnear : Near x y) (hc : common x y < 0x7ffe) :
    ∃ e m, fadd x y = unsignify (real e m) ∧ e.toNat = common x y + 2 ∧ m.toInt = mantSum x y := by
  unfold fadd
  split
  · next hlt =>
      rw [BitVec.lt_def] at hlt
      have hcommon : common x y = x.exp.toNat := Nat.max_eq_left hlt.le
      obtain ⟨e, m, hresult, he, hm⟩ := signified_sum hlt.le (by omega)
      exact ⟨e, m, by rw [addOrdered_near hnear, hresult], by omega, hm⟩
  · next hle =>
      rw [BitVec.lt_def, Nat.not_lt] at hle
      have hcommon : common x y = y.exp.toNat := Nat.max_eq_right hle
      obtain ⟨e, m, hresult, he, hm⟩ := signified_sum hle (by omega)
      exact ⟨e, m, by rw [addOrdered_near (near_comm.1 hnear), hresult], by omega, hm.trans (mantSum_comm y x)⟩

/-- **What `fadd` delivers of numbers of about the same size**: their sum, normalised. -/
theorem fadd_near (hnear : Near x y) (hc : common x y < 0x7ffe) (hne : mantSum x y ≠ 0) :
    ∃ e j, fadd x y = summed (mantSum x y) e j ∧ e.toNat = common x y + 2 ∧ j ≤ 63 ∧
      2 ^ 63 ≤ (mantSum x y).natAbs * 2 ^ j ∧ (mantSum x y).natAbs * 2 ^ j < 2 ^ 64 := by
  obtain ⟨e, m, hresult, he, hm⟩ := fadd_sum hnear hc
  have hlt := mantSum_lt x y
  rw [← hm] at hne hlt ⊢
  obtain ⟨j, hj, heq, hge, hbound⟩ := unsignify_spec (by omega : e.toNat < 2 ^ 15) hne hlt
  exact ⟨e, j, hresult.trans heq, he, hj, hge, hbound⟩

theorem fadd_cancelled (hnear : Near x y) (hc : common x y < 0x7ffe) (h0 : mantSum x y = 0) :
    fadd x y = real 0 0 := by
  obtain ⟨e, m, hresult, -, hm⟩ := fadd_sum hnear hc
  have hzero : m = 0 := toInt_eq_zero.1 (hm.trans h0)
  rw [hresult, hzero]
  unfold unsignify
  rw [mant_real, if_pos rfl]

/-- Of numbers of different size the larger one is the result. -/
theorem fadd_apart (h : ¬ Near x y) : fadd x y = x ∧ y.exp.toNat + 64 ≤ x.exp.toNat ∨
    fadd x y = y ∧ x.exp.toNat + 64 ≤ y.exp.toNat := by
  unfold Near at h
  by_cases hx : y.exp.toNat + 64 ≤ x.exp.toNat
  · exact Or.inl ⟨fadd_far (by omega), hx⟩
  · refine Or.inr ⟨?_, by omega⟩
    rw [fadd_comm]
    exact fadd_far (by omega)

/-! ## The number that is delivered -/

section Values

variable {n : ℤ} {e : BitVec 16} {j : ℕ}

theorem sgn_natAbs (n : ℤ) : sgn (decide (n < 0)) * (n.natAbs : ℤ) = n := by
  by_cases h : n < 0
  · rw [decide_eq_true h, show sgn true = -1 from rfl]
    omega
  · rw [decide_eq_false h, show sgn false = 1 from rfl]
    omega

theorem mant_summed (h : n.natAbs * 2 ^ j < 2 ^ 64) : (summed n e j).mant.toNat = n.natAbs * 2 ^ j := by
  unfold summed
  rw [mant_real, BitVec.toNat_ofNat, Nat.mod_eq_of_lt h]

/-- The sign and the exponent, if there are not more shifts than the exponent leaves room for. -/
theorem neg_exp_summed (he : e.toNat < 2 ^ 15) (hj : j ≤ e.toNat) :
    (summed n e j).neg = decide (n < 0) ∧ (summed n e j).exp.toNat = e.toNat - j := by
  have hor : (e ||| 0x8000).toNat = e.toNat + 2 ^ 15 := by
    rw [BitVec.toNat_or, Nat.or_comm]
    exact (Nat.two_pow_add_eq_or_of_lt he 1).symm.trans (Nat.add_comm _ _)
  apply neg_exp_of_exponent (by omega)
  show ((if n < 0 then e ||| 0x8000 else e) - BitVec.ofNat 16 j).toNat = _
  rw [BitVec.toNat_sub, BitVec.toNat_ofNat]
  by_cases hn : n < 0
  · rw [if_pos hn, decide_eq_true hn, if_pos rfl, hor]
    omega
  · rw [if_neg hn, decide_eq_false hn, if_neg Bool.false_ne_true]
    omega

/-- An exponent of zero counts as one. -/
theorem value_summed (he : e.toNat < 2 ^ 15) (hj : j ≤ e.toNat) (hlt : n.natAbs * 2 ^ j < 2 ^ 64) :
    (summed n e j).value = n * 2 ^ ((max (e.toNat - j) 1 + j : ℕ) - 16446 : ℤ) := by
  obtain ⟨hneg, hexp⟩ := neg_exp_summed (n := n) he hj
  have hsgn : ((sgn (decide (n < 0)) : ℤ) : ℚ) * (n.natAbs : ℚ) = n := by
    rw [← Int.cast_natCast n.natAbs, ← Int.cast_mul, sgn_natAbs]
  have hsplit : ((max (e.toNat - j) 1 + j : ℕ) - 16446 : ℤ) = ((max (e.toNat - j) 1 : ℕ) - 16446 : ℤ) + (j : ℕ) := by
    push_cast
    ring
  unfold TempReal.value
  rw [hneg, hexp, mant_summed hlt, hsplit, zpow_add₀ two_ne_zero, zpow_natCast, Nat.cast_mul, Nat.cast_pow,
    Nat.cast_ofNat, ← mul_assoc, hsgn]
  ring

end Values

/-- **Where the exponent has room, the result is the sum of the mantissas exactly.** -/
theorem fadd_value (hnear : Near x y) (hlo : 62 ≤ common x y) (hc : common x y < 0x7ffe) :
    (fadd x y).value = ((mantSum x y * 2 ^ (common x y + 2) : ℤ) : ℚ) * 2 ^ (-16446 : ℤ) := by
  by_cases h0 : mantSum x y = 0
  · rw [fadd_cancelled hnear hc h0, h0, zero_mul, Int.cast_zero, zero_mul]
    exact value_zero
  · obtain ⟨e, j, hresult, he, hj, -, hlt⟩ := fadd_near hnear hc h0
    have hexp : ((max (e.toNat - j) 1 + j : ℕ) - 16446 : ℤ) = -16446 + (common x y + 2 : ℕ) := by omega
    rw [hresult, value_summed (by omega) (by omega) hlt, hexp, zpow_add₀ two_ne_zero, zpow_natCast, Int.cast_mul,
      Int.cast_pow, Int.cast_ofNat]
    ring

/-! ## The error -/

/-- Normalised, or zero. -/
def TempReal.Normal (t : TempReal) : Prop := t.mant.msb = true ∨ t.mant = 0 ∧ t.exp.toNat = 0

/-- Shifted to the exponent `e`, the mantissa has at least three zero bits at its end. -/
def Trailing (e : ℕ) (t : TempReal) : Prop := 2 ^ (e + 3) ∣ t.mant.toNat * 2 ^ t.exp.toNat

/-- What an aligned mantissa leaves out. -/
theorem aligned_rest {e : ℕ} {t : TempReal} (h : t.exp.toNat ≤ e) :
    aligned e t * 2 ^ (e + 2) ≤ t.mant.toNat * 2 ^ t.exp.toNat ∧
      t.mant.toNat * 2 ^ t.exp.toNat < aligned e t * 2 ^ (e + 2) + 2 ^ (e + 2) := by
  have hdiv := Nat.div_add_mod' (t.mant.toNat * 2 ^ t.exp.toNat) (2 ^ (e + 2))
  have hmod := Nat.mod_lt (t.mant.toNat * 2 ^ t.exp.toNat) (Nat.two_pow_pos (e + 2))
  rw [aligned_eq e h]
  omega

theorem aligned_exact {e : ℕ} {t : TempReal} (h : t.exp.toNat ≤ e) (hzeros : Trailing e t) :
    aligned e t * 2 ^ (e + 2) = t.mant.toNat * 2 ^ t.exp.toNat := by
  have hdvd : 2 ^ (e + 2) ∣ t.mant.toNat * 2 ^ t.exp.toNat :=
    Nat.dvd_trans (Nat.pow_dvd_pow 2 (Nat.le_succ _)) hzeros
  rw [aligned_eq e h, Nat.div_mul_cancel hdvd]

/-- The sum of the two numbers, in units of the least one of all. -/
def sumUnits (x y : TempReal) : ℤ :=
  sgn x.neg * (x.mant.toNat * 2 ^ x.exp.toNat : ℕ) + sgn y.neg * (y.mant.toNat * 2 ^ y.exp.toNat : ℕ)

theorem mantSum_error (x y : TempReal) :
    |mantSum x y * 2 ^ (common x y + 2) - sumUnits x y| < 2 ^ (common x y + 3) := by
  obtain ⟨hxl, hxu⟩ := aligned_rest (Nat.le_max_left x.exp.toNat y.exp.toNat)
  obtain ⟨hyl, hyu⟩ := aligned_rest (Nat.le_max_right x.exp.toNat y.exp.toNat)
  change aligned (common x y) x * 2 ^ (common x y + 2) ≤ _ at hxl
  change _ < aligned (common x y) x * 2 ^ (common x y + 2) + 2 ^ (common x y + 2) at hxu
  change aligned (common x y) y * 2 ^ (common x y + 2) ≤ _ at hyl
  change _ < aligned (common x y) y * 2 ^ (common x y + 2) + 2 ^ (common x y + 2) at hyu
  have hpow : (2 : ℤ) ^ (common x y + 3) = 2 * ((2 ^ (common x y + 2) : ℕ) : ℤ) := by
    push_cast
    ring
  have hsplit : mantSum x y * 2 ^ (common x y + 2) =
      sgn x.neg * ((aligned (common x y) x * 2 ^ (common x y + 2) : ℕ) : ℤ) +
        sgn y.neg * ((aligned (common x y) y * 2 ^ (common x y + 2) : ℕ) : ℤ) := by
    unfold mantSum
    push_cast
    ring
  rw [hpow, hsplit, abs_lt]
  unfold sumUnits
  generalize aligned (common x y) x * 2 ^ (common x y + 2) = p at *
  generalize aligned (common x y) y * 2 ^ (common x y + 2) = q at *
  generalize x.mant.toNat * 2 ^ x.exp.toNat = m at *
  generalize y.mant.toNat * 2 ^ y.exp.toNat = m' at *
  generalize 2 ^ (common x y + 2) = w at *
  have htrue : sgn true = -1 := rfl
  have hfalse : sgn false = 1 := rfl
  cases x.neg <;> cases y.neg <;> simp only [htrue, hfalse, one_mul, neg_one_mul] <;> omega

theorem mantSum_exact (hx : Trailing (common x y) x) (hy : Trailing (common x y) y) :
    mantSum x y * 2 ^ (common x y + 2) = sumUnits x y := by
  have hxe := aligned_exact (Nat.le_max_left x.exp.toNat y.exp.toNat) hx
  have hye := aligned_exact (Nat.le_max_right x.exp.toNat y.exp.toNat) hy
  change aligned (common x y) x * 2 ^ (common x y + 2) = _ at hxe
  change aligned (common x y) y * 2 ^ (common x y + 2) = _ at hye
  unfold sumUnits mantSum
  rw [← hxe, ← hye]
  push_cast
  ring

/-- A number is less than what its exponent stands for. -/
theorem abs_value_lt {t : TempReal} {k : ℕ} (h : max t.exp.toNat 1 + 64 ≤ k) : |t.value| < 2 ^ ((k : ℤ) - 16446) := by
  have hmant : (t.mant.toNat : ℚ) < 2 ^ 64 := by exact_mod_cast t.mant.isLt
  have hsgn : |((sgn t.neg : ℤ) : ℚ)| = 1 := by
    cases t.neg
    · exact abs_one
    · show |((-1 : ℤ) : ℚ)| = 1
      norm_num
  have hpos : (0 : ℚ) < 2 ^ ((max t.exp.toNat 1 : ℕ) - 16446 : ℤ) := zpow_pos two_pos _
  have hpow : (2 : ℚ) ^ 64 * 2 ^ ((max t.exp.toNat 1 : ℕ) - 16446 : ℤ) =
      2 ^ (((max t.exp.toNat 1 + 64 : ℕ) : ℤ) - 16446) := by
    rw [← zpow_natCast, ← zpow_add₀ two_ne_zero]
    congr 1
    omega
  unfold TempReal.value
  rw [abs_mul, abs_mul, hsgn, one_mul, Nat.abs_cast, abs_of_pos hpos]
  calc (t.mant.toNat : ℚ) * 2 ^ ((max t.exp.toNat 1 : ℕ) - 16446 : ℤ)
      < 2 ^ 64 * 2 ^ ((max t.exp.toNat 1 : ℕ) - 16446 : ℤ) := mul_lt_mul_of_pos_right hmant hpos
    _ = 2 ^ (((max t.exp.toNat 1 + 64 : ℕ) : ℤ) - 16446) := hpow
    _ ≤ 2 ^ ((k : ℤ) - 16446) := zpow_le_zpow_right₀ one_le_two (by omega)

theorem add_units (hx : 1 ≤ x.exp.toNat ∨ x.mant = 0) (hy : 1 ≤ y.exp.toNat ∨ y.mant = 0) :
    x.value + y.value = (sumUnits x y : ℚ) * 2 ^ (-16446 : ℤ) := by
  rw [value_units hx, value_units hy, ← add_mul, ← Int.cast_add]
  rfl

/-- What is sixty-four exponents below the other number is zero, if it ends in zeros there. -/
theorem value_of_trailing {t : TempReal} {e : ℕ} (he : t.exp.toNat + 64 ≤ e) (h : Trailing e t) : t.value = 0 := by
  have hlt : t.mant.toNat * 2 ^ t.exp.toNat < 2 ^ (e + 3) := by
    calc t.mant.toNat * 2 ^ t.exp.toNat < 2 ^ 64 * 2 ^ t.exp.toNat :=
          Nat.mul_lt_mul_of_pos_right t.mant.isLt (Nat.two_pow_pos _)
      _ = 2 ^ (64 + t.exp.toNat) := (Nat.pow_add _ _ _).symm
      _ ≤ 2 ^ (e + 3) := Nat.pow_le_pow_right two_pos (by omega)
  have hzero : t.mant.toNat = 0 :=
    (Nat.mul_eq_zero.1 (Nat.eq_zero_of_dvd_of_lt h hlt)).resolve_right (Nat.two_pow_pos _).ne'
  unfold TempReal.value
  rw [hzero, Nat.cast_zero, mul_zero, zero_mul]

/-- The result is the number of the larger exponent, and the other one is left out. -/
theorem error_apart {e : ℕ} {r : TempReal} (hr : r = x) (he : x.exp.toNat = e) (hlo : 66 ≤ e)
    (hfar : y.exp.toNat + 64 ≤ e) :
    |r.value - (x.value + y.value)| < 2 ^ ((e : ℤ) - 16383 - 60) ∧
      (Trailing e y → r.value = x.value + y.value) := by
  rw [hr]
  constructor
  · have hbound := abs_value_lt (t := y) (k := e) (by omega)
    rw [sub_add_cancel_left, abs_neg]
    exact hbound.trans_le (zpow_le_zpow_right₀ one_le_two (by omega))
  · intro hzeros
    rw [value_of_trailing hfar hzeros, add_zero]

theorem common_cases (x y : TempReal) :
    common x y = x.exp.toNat ∧ y.exp.toNat ≤ x.exp.toNat ∨ common x y = y.exp.toNat ∧ x.exp.toNat ≤ y.exp.toNat := by
  unfold common
  omega

theorem msb_of_normal {t : TempReal} (h : t.Normal) (he : 0 < t.exp.toNat) : t.mant.msb = true :=
  h.resolve_right fun h0 => by omega

/-- **The accuracy of an addition**: the result is zero or normalised, the error is less than eight units of the larger
    exponent, and there is none where both mantissas end in three zero bits there. -/
theorem fadd_accurate (hx : x.Normal) (hy : y.Normal) (hlo : 66 ≤ common x y) (hhi : common x y ≤ 0x7ffd) :
    (fadd x y = real 0 0 ∨ (fadd x y).mant.msb = true) ∧
      |(fadd x y).value - (x.value + y.value)| < 2 ^ ((common x y : ℤ) - 16383 - 60) ∧
      (Trailing (common x y) x → Trailing (common x y) y → (fadd x y).value = x.value + y.value) := by
  have hcommon := common_cases x y
  by_cases hnear : Near x y
  · have hxpos : 1 ≤ x.exp.toNat := by
      have := hnear.2
      omega
    have hypos : 1 ≤ y.exp.toNat := by
      have := hnear.1
      omega
    have hvalue := fadd_value hnear (by omega) (by omega)
    have hsum := add_units (Or.inl hxpos) (Or.inl hypos)
    refine ⟨?_, ?_, fun hzx hzy => ?_⟩
    · by_cases h0 : mantSum x y = 0
      · exact Or.inl (fadd_cancelled hnear (by omega) h0)
      · obtain ⟨e, j, hresult, -, -, hge, hlt⟩ := fadd_near hnear (by omega) h0
        refine Or.inr ?_
        rw [hresult, BitVec.msb_eq_true_iff_two_mul_ge, mant_summed hlt]
        omega
    · have herror : |((mantSum x y * 2 ^ (common x y + 2) - sumUnits x y : ℤ) : ℚ)| < 2 ^ (common x y + 3) := by
        exact_mod_cast mantSum_error x y
      have hexp : ((common x y : ℤ) - 16383 - 60) = ((common x y + 3 : ℕ) : ℤ) + -16446 := by omega
      have hpos : (0 : ℚ) < 2 ^ (-16446 : ℤ) := zpow_pos two_pos _
      rw [hvalue, hsum, ← sub_mul, ← Int.cast_sub, abs_mul, abs_of_pos hpos, hexp, zpow_add₀ two_ne_zero, zpow_natCast]
      exact mul_lt_mul_of_pos_right herror hpos
    · rw [hvalue, hsum, mantSum_exact hzx hzy]
  · rcases fadd_apart hnear with ⟨hresult, hfar⟩ | ⟨hresult, hfar⟩
    · have he : x.exp.toNat = common x y := by omega
      obtain ⟨herror, hexact⟩ := error_apart (y := y) hresult he hlo (by omega)
      refine ⟨Or.inr ?_, herror, fun _ hzy => hexact hzy⟩
      rw [hresult]
      exact msb_of_normal hx (by omega)
    · have he : y.exp.toNat = common x y := by omega
      obtain ⟨herror, hexact⟩ := error_apart (y := x) hresult he hlo (by omega)
      rw [add_comm x.value]
      refine ⟨Or.inr ?_, herror, fun hzx _ => hexact hzx⟩
      rw [hresult]
      exact msb_of_normal hy (by omega)

/-- One and one. -/
theorem fadd_accurate_one : |(fadd (real 0x3fff (1 <<< 63)) (real 0x3fff (1 <<< 63))).value -
    ((real 0x3fff (1 <<< 63)).value + (real 0x3fff (1 <<< 63)).value)| <
      2 ^ ((common (real 0x3fff (1 <<< 63)) (real 0x3fff (1 <<< 63)) : ℤ) - 16383 - 60) :=
  (fadd_accurate (x := real 0x3fff (1 <<< 63)) (y := real 0x3fff (1 <<< 63)) (Or.inl (by decide)) (Or.inl (by decide))
    (by decide) (by decide)).2.1

/-! ## Where the exponent wraps -/

/-- "a->exponent += 2" carries into the sign. -/
def signifyWraps (a : TempReal) : Prop := 2 ^ 15 ≤ a.exp.toNat + 2

/-- One of the decrements of the loop in `unsignify` borrows from the sign. -/
def loopWraps : ℕ → BitVec 16 → BitVec 64 → Prop
  | 0, _, _ => False
  | k + 1, e, m => if m.msb then False else e &&& 0x7fff = 0 ∨ loopWraps k (e - 1) (m + m)

/-- The exponent of `unsignify` runs into its sign. -/
def unsignifyWraps (a : TempReal) : Prop :=
  if a.mant = 0 then False
  else
    let e := a.exponent &&& 0x7fff
    if a.mant.msb then loopWraps 63 (e ||| 0x8000) (-a.mant) else loopWraps 63 e a.mant

/-- An exponent of `addOrdered` runs into its sign. -/
def orderedWraps (a b : TempReal) : Prop :=
  let shift := a.exp.toNat - b.exp.toNat
  if 64 ≤ shift then False
  else signifyWraps a ∨ signifyWraps (real b.exponent (b.mant >>> shift)) ∨ unsignifyWraps (signified a b)

/-- **An exponent of `fadd` runs into its sign.** -/
def faddWraps (src1 src2 : TempReal) : Prop :=
  if src2.exp < src1.exp then orderedWraps src1 src2 else orderedWraps src2 src1

/-- What an addition is to deliver: the exponents do not wrap, and the result is zero or has the sign of the sum, and it
    is not larger than the two numbers together. -/
def Sound (x y : TempReal) : Prop :=
  ¬ faddWraps x y ∧ ((fadd x y).value = 0 ∨ SignType.sign (fadd x y).value = SignType.sign (x.value + y.value)) ∧
    |(fadd x y).value| ≤ |x.value| + |y.value|

/-- **The condition**: the smaller number is not added at all, or there is room for a carry above the larger exponent,
    and below it for the shifts that the sum of the mantissas takes. -/
def Roomy (x y : TempReal) : Prop :=
  ¬ Near x y ∨ common x y < 0x7ffe ∧ (mantSum x y = 0 ∨ 2 ^ 61 ≤ (mantSum x y).natAbs * 2 ^ common x y)

/-- The loop borrows if it shifts more often than the exponent leaves room for; the sign in the exponent does not
    matter. -/
theorem loopWraps_iff {k j e : ℕ} {b : Bool} {w : BitVec 16} {m : BitVec 64} (hj : j ≤ k) (he : e < 2 ^ 15)
    (hw : w.toNat = e + if b then 2 ^ 15 else 0) (hge : 2 ^ 63 ≤ m.toNat * 2 ^ j) (hlt : m.toNat * 2 ^ j < 2 ^ 64) :
    loopWraps k w m ↔ e < j := by
  induction k generalizing j e w m with
  | zero =>
      have h0 : j = 0 := by omega
      rw [h0]
      exact iff_of_false id (Nat.not_lt_zero e)
  | succ k ih =>
      unfold loopWraps
      by_cases hmsb : m.msb = true
      · have htop := BitVec.msb_eq_true_iff_two_mul_ge.1 hmsb
        have hzero : j = 0 := by
          by_contra hne
          have hpow : 2 ^ 1 ≤ 2 ^ j := Nat.pow_le_pow_right two_pos (by omega)
          have hmul := Nat.mul_le_mul_left m.toNat hpow
          omega
        rw [if_pos hmsb, hzero]
        exact iff_of_false id (Nat.not_lt_zero e)
      · have hsmall : 2 * m.toNat < 2 ^ 64 := BitVec.msb_eq_false_iff_two_mul_lt.1 (by simpa using hmsb)
        have hdouble : (m + m).toNat = 2 * m.toNat := by
          rw [BitVec.toNat_add]
          omega
        obtain ⟨i, rfl⟩ : ∃ i, j = i + 1 := by
          refine ⟨j - 1, ?_⟩
          have : j ≠ 0 := by
            rintro rfl
            omega
          omega
        have hpow : (m + m).toNat * 2 ^ i = m.toNat * 2 ^ (i + 1) := by
          rw [hdouble, Nat.pow_succ']
          ac_rfl
        have hfield : (w &&& 0x7fff).toNat = e := by
          rw [BitVec.toNat_and]
          refine (Nat.and_two_pow_sub_one_eq_mod _ 15).trans ?_
          split at hw <;> omega
        rw [if_neg hmsb]
        by_cases hzero : e = 0
        · have hand : w &&& 0x7fff = 0 := BitVec.eq_of_toNat_eq (by rw [hfield, hzero]; rfl)
          exact iff_of_true (Or.inl hand) (by omega)
        · have hand : w &&& 0x7fff ≠ 0 := by
            intro h0
            rw [h0] at hfield
            exact hzero hfield.symm
          have hdown : (w - 1).toNat = e - 1 + if b then 2 ^ 15 else 0 := by
            have h1 : (1 : BitVec 16).toNat = 1 := rfl
            rw [BitVec.toNat_sub, h1]
            cases b <;> simp only [Bool.false_eq_true, if_true, if_false] at hw ⊢ <;> omega
          rw [or_iff_right hand, ih (j := i) (by omega) (by omega) hdown (by rwa [hpow]) (by rwa [hpow])]
          omega

/-- `unsignify` wraps if the sum cannot be normalised before the exponent is zero. -/
theorem unsignifyWraps_iff {e : BitVec 16} {m : BitVec 64} (he : e.toNat < 2 ^ 15) (habs : m.toInt.natAbs < 2 ^ 63) :
    unsignifyWraps (real e m) ↔ m.toInt ≠ 0 ∧ m.toInt.natAbs * 2 ^ e.toNat < 2 ^ 63 := by
  have hand : e &&& 0x7fff = e := by
    apply BitVec.eq_of_toNat_eq
    rw [BitVec.toNat_and]
    exact (Nat.and_two_pow_sub_one_eq_mod _ 15).trans (Nat.mod_eq_of_lt he)
  have hor : (e ||| 0x8000).toNat = e.toNat + 2 ^ 15 := by
    rw [BitVec.toNat_or, Nat.or_comm]
    exact (Nat.two_pow_add_eq_or_of_lt he 1).symm.trans (Nat.add_comm _ _)
  unfold unsignifyWraps
  rw [mant_real, exponent_real, hand]
  by_cases h0 : m = 0
  · rw [if_pos h0]
    exact iff_of_false id fun h => h.1 (toInt_eq_zero.2 h0)
  have hne : m.toInt ≠ 0 := fun h => h0 (toInt_eq_zero.1 h)
  obtain ⟨j, hj, -, hge, hlt⟩ := unsignify_spec he hne habs
  have hcond := BitVec.toInt_eq_msb_cond m
  have hbound := m.isLt
  rw [if_neg h0, and_iff_right hne, ← shifts_iff hge hlt]
  dsimp only
  cases hmsb : m.msb with
  | false =>
      rw [hmsb, if_neg Bool.false_ne_true] at hcond
      have hm : m.toNat = m.toInt.natAbs := by omega
      rw [if_neg Bool.false_ne_true]
      exact loopWraps_iff (b := false) hj he rfl (by rwa [hm]) (by rwa [hm])
  | true =>
      have htop := BitVec.msb_eq_true_iff_two_mul_ge.1 hmsb
      rw [hmsb, if_pos rfl] at hcond
      have hm : (-m).toNat = m.toInt.natAbs := by
        rw [BitVec.toNat_neg]
        omega
      rw [if_pos rfl]
      exact loopWraps_iff (b := true) hj he hor (by rwa [hm]) (by rwa [hm])

/-- **When the exponent of an addition wraps**, for the operands in order. -/
theorem orderedWraps_iff (hle : y.exp.toNat ≤ x.exp.toNat) (hx : x.exp.toNat < 0x7fff) :
    orderedWraps x y ↔ ¬ Roomy x y := by
  have hcommon : common x y = x.exp.toNat := Nat.max_eq_left hle
  unfold orderedWraps Roomy
  dsimp only
  by_cases hnear : Near x y
  · have hshift : ¬ 64 ≤ x.exp.toNat - y.exp.toNat := by
      have := hnear.1
      omega
    have hexp : (real y.exponent (y.mant >>> (x.exp.toNat - y.exp.toNat))).exp = y.exp := rfl
    rw [if_neg hshift, or_iff_right (not_not_intro hnear), hcommon]
    unfold signifyWraps
    rw [hexp]
    by_cases hbelow : x.exp.toNat < 0x7ffe
    · -- then no operand wraps, but the sum may
      obtain ⟨e, m, hsigned, he, hm⟩ := signified_sum hle hbelow
      have hlt := mantSum_lt x y
      have hpow : (mantSum x y).natAbs * 2 ^ (x.exp.toNat + 2) = (mantSum x y).natAbs * 2 ^ x.exp.toNat * 4 := by
        rw [Nat.pow_add, ← Nat.mul_assoc]
      rw [hsigned, unsignifyWraps_iff (by omega) (by rwa [hm]), hm, he, hpow, or_iff_right (by omega : ¬ 2 ^ 15 ≤ _),
        or_iff_right (by omega : ¬ 2 ^ 15 ≤ _), and_iff_right hbelow]
      omega
    · exact iff_of_true (Or.inl (by omega)) fun h => hbelow h.1
  · have hshift : 64 ≤ x.exp.toNat - y.exp.toNat := by
      unfold Near at hnear
      omega
    rw [if_pos hshift]
    exact iff_of_false id fun h => h (Or.inl hnear)

theorem roomy_comm : Roomy x y ↔ Roomy y x := by
  unfold Roomy
  rw [near_comm, common_comm, mantSum_comm]

theorem exp_of_ordinary {t : TempReal} (h : t.Ordinary) : t.exp.toNat < 0x7fff := by
  rcases h with ⟨-, -, h⟩ | ⟨-, h⟩ <;> omega

theorem faddWraps_iff (hx : x.Ordinary) (hy : y.Ordinary) : faddWraps x y ↔ ¬ Roomy x y := by
  unfold faddWraps
  split
  · next hlt =>
      rw [BitVec.lt_def] at hlt
      exact orderedWraps_iff hlt.le (exp_of_ordinary hx)
  · next hle =>
      rw [BitVec.lt_def, Nat.not_lt] at hle
      rw [roomy_comm]
      exact orderedWraps_iff hle (exp_of_ordinary hy)

/-! ## Sign and magnitude where it does not wrap -/

theorem value_negate (t : TempReal) : t.negate.value = -t.value := by
  unfold TempReal.value
  rw [neg_negate, exp_negate, mant_negate, sgn_not]
  push_cast
  ring

/-- The sum of the mantissas has the sign of the sum of the numbers. -/
theorem sign_mantSum (hx : x.Ordinary) (hy : y.Ordinary) (hne : mantSum x y ≠ 0) :
    SignType.sign (x.value + y.value) = SignType.sign (mantSum x y : ℚ) := by
  have hsum : difference x y.negate = mantSum x y := by rw [← mantSum_negate, negate_negate]
  rcases lt_or_gt_of_ne hne with hneg | hpos
  · have hlt := lt_of_difference hx (ordinary_negate hy) (by rwa [hsum])
    rw [value_negate] at hlt
    rw [sign_neg (by linarith), sign_neg (by exact_mod_cast hneg)]
  · have hlt := gt_of_difference hx (ordinary_negate hy) (by rwa [hsum])
    rw [value_negate] at hlt
    rw [sign_pos (by linarith), sign_pos (by exact_mod_cast hpos)]

/-- The magnitude, in units of the least number of all. -/
def magnitude (t : TempReal) : ℕ := t.mant.toNat * 2 ^ t.exp.toNat

theorem abs_value {t : TempReal} (h : t.Ordinary) : |t.value| = (magnitude t : ℚ) * 2 ^ (-16446 : ℤ) := by
  have hpos : (0 : ℚ) < 2 ^ (-16446 : ℤ) := zpow_pos two_pos _
  have habs : |sgn t.neg * ((magnitude t : ℕ) : ℤ)| = magnitude t := by
    have hcases := sgn_mul_cases t.neg (magnitude t)
    rw [abs_eq (Int.natCast_nonneg _)]
    exact hcases
  rw [value_ordinary h, abs_mul, abs_of_pos hpos, ← Int.cast_abs]
  change ((|sgn t.neg * ((magnitude t : ℕ) : ℤ)| : ℤ) : ℚ) * _ = _
  rw [habs, Int.cast_natCast]

theorem abs_summed {n : ℤ} {e : BitVec 16} {j : ℕ} (he : e.toNat < 2 ^ 15) (hj : j ≤ e.toNat)
    (hlt : n.natAbs * 2 ^ j < 2 ^ 64) :
    |(summed n e j).value| = ((n.natAbs * 2 ^ (max (e.toNat - j) 1 + j) : ℕ) : ℚ) * 2 ^ (-16446 : ℤ) := by
  have hpos : (0 : ℚ) < 2 ^ (-16446 : ℤ) := zpow_pos two_pos _
  rw [value_summed he hj hlt, sub_eq_add_neg, zpow_add₀ two_ne_zero, zpow_natCast, ← mul_assoc, abs_mul, abs_mul,
    abs_of_pos hpos, ← Int.cast_abs, Int.abs_eq_natAbs, abs_of_pos (pow_pos two_pos _), Int.cast_natCast, Nat.cast_mul,
    Nat.cast_pow, Nat.cast_ofNat]

theorem mantSum_le (x y : TempReal) :
    (mantSum x y).natAbs * 2 ^ (common x y + 2) ≤ magnitude x + magnitude y := by
  have hx := (aligned_rest (Nat.le_max_left x.exp.toNat y.exp.toNat)).1
  have hy := (aligned_rest (Nat.le_max_right x.exp.toNat y.exp.toNat)).1
  have hsx := sgn_mul_cases x.neg (aligned (common x y) x)
  have hsy := sgn_mul_cases y.neg (aligned (common x y) y)
  have hle : (mantSum x y).natAbs ≤ aligned (common x y) x + aligned (common x y) y := by
    unfold mantSum
    omega
  calc (mantSum x y).natAbs * 2 ^ (common x y + 2)
      ≤ (aligned (common x y) x + aligned (common x y) y) * 2 ^ (common x y + 2) := Nat.mul_le_mul_right _ hle
    _ = aligned (common x y) x * 2 ^ (common x y + 2) + aligned (common x y) y * 2 ^ (common x y + 2) :=
          Nat.add_mul _ _ _
    _ ≤ magnitude x + magnitude y := Nat.add_le_add hx hy

/-- A normalised mantissa, by the exponent. -/
theorem le_magnitude {t : TempReal} (h : t.mant.msb = true) : 2 ^ (63 + t.exp.toNat) ≤ magnitude t := by
  have hge := BitVec.msb_eq_true_iff_two_mul_ge.1 h
  rw [Nat.pow_add]
  exact Nat.mul_le_mul_right _ (by omega)

/-- Where the sum has lost so much that its exponent is zero, the two numbers were larger than that. -/
theorem le_magnitude_of_cancelled (hx : x.Ordinary) (hy : y.Ordinary) (hle : y.exp.toNat ≤ x.exp.toNat)
    (hne : mantSum x y ≠ 0) (hlt : (mantSum x y).natAbs * 2 ^ (common x y + 2) < 2 ^ 64) :
    2 ^ 65 ≤ magnitude x + magnitude y := by
  have hcommon : common x y = x.exp.toNat := Nat.max_eq_left hle
  rcases hx with ⟨hx, hxpos, -⟩ | ⟨hx, hx0⟩
  · have hlarge := le_magnitude hx
    by_cases hexp : 2 ≤ x.exp.toNat
    · have hpow : 2 ^ 65 ≤ 2 ^ (63 + x.exp.toNat) := Nat.pow_le_pow_right two_pos (by omega)
      omega
    have hone : x.exp.toNat = 1 := by omega
    rw [hone] at hlarge hcommon
    rcases hy with ⟨hy, hypos, -⟩ | ⟨hy, -⟩
    · -- both have the smallest exponent
      have hlarge' := le_magnitude hy
      have hone' : y.exp.toNat = 1 := by omega
      rw [hone'] at hlarge'
      omega
    · -- nothing is taken from the larger number
      exfalso
      have hge := BitVec.msb_eq_true_iff_two_mul_ge.1 hx
      have hzero : aligned 1 y = 0 := by
        unfold aligned
        rw [hy]
        exact Nat.zero_div _
      have hsx := sgn_mul_cases x.neg (aligned 1 x)
      unfold mantSum at hlt
      rw [hcommon, hzero, Nat.cast_zero, mul_zero, add_zero] at hlt
      rw [aligned_self hone] at hlt hsx
      omega
  · exfalso
    have hy : y.mant = 0 := by
      rcases hy with ⟨-, hypos, -⟩ | ⟨hy, -⟩
      · omega
      · exact hy
    have hzero : ∀ {t : TempReal} (e : ℕ), t.mant = 0 → aligned e t = 0 := by
      intro t e h
      unfold aligned
      rw [h]
      exact Nat.zero_div _
    unfold mantSum at hne
    rw [hzero _ hx, hzero _ hy, Nat.cast_zero, mul_zero, mul_zero, add_zero] at hne
    exact hne rfl

/-- **Where the exponent does not wrap, the sum is not larger than the two numbers together.** -/
theorem fadd_magnitude (hx : x.Ordinary) (hy : y.Ordinary) (hnear : Near x y) (hc : common x y < 0x7ffe)
    (hne : mantSum x y ≠ 0) (hroom : 2 ^ 61 ≤ (mantSum x y).natAbs * 2 ^ common x y) :
    |(fadd x y).value| ≤ |x.value| + |y.value| := by
  obtain ⟨e, j, hresult, he, hj, hge, hlt⟩ := fadd_near hnear hc hne
  have hpow : (mantSum x y).natAbs * 2 ^ (common x y + 2) = (mantSum x y).natAbs * 2 ^ common x y * 4 := by
    rw [Nat.pow_add, ← Nat.mul_assoc]
  have hshifts : ¬ e.toNat < j := by
    rw [shifts_iff hge hlt, he, hpow]
    omega
  have hpos : (0 : ℚ) < 2 ^ (-16446 : ℤ) := zpow_pos two_pos _
  have hle : (mantSum x y).natAbs * 2 ^ (max (e.toNat - j) 1 + j) ≤ magnitude x + magnitude y := by
    by_cases hlast : j < e.toNat
    · have hexp : max (e.toNat - j) 1 + j = common x y + 2 := by omega
      rw [hexp]
      exact mantSum_le x y
    · -- the exponent is zero now, which counts as one
      have hexp : max (e.toNat - j) 1 + j = common x y + 2 + 1 := by omega
      have hjc : j = common x y + 2 := by omega
      rw [hjc] at hlt
      rw [hexp, Nat.pow_succ, ← Nat.mul_assoc]
      refine Nat.le_trans (by omega : _ ≤ 2 ^ 65) ?_
      rcases Nat.le_total y.exp.toNat x.exp.toNat with hle | hle
      · exact le_magnitude_of_cancelled hx hy hle hne hlt
      · rw [mantSum_comm] at hne
        rw [mantSum_comm, common_comm] at hlt
        rw [Nat.add_comm]
        exact le_magnitude_of_cancelled hy hx hle hne hlt
  rw [hresult, abs_summed (by omega) (by omega) hlt, abs_value hx, abs_value hy, ← add_mul, ← Nat.cast_add]
  exact mul_le_mul_of_nonneg_right (by exact_mod_cast hle) hpos.le

/-- The larger one of two numbers of different size decides the sign. -/
theorem sign_apart (hx : x.Ordinary) (hy : y.Ordinary) (h : y.exp.toNat + 64 ≤ x.exp.toNat) :
    SignType.sign x.value = SignType.sign (x.value + y.value) := by
  have hpos : (0 : ℚ) < 2 ^ (-16446 : ℤ) := zpow_pos two_pos _
  have hsmall : magnitude y < 2 ^ (63 + x.exp.toNat) := by
    calc magnitude y < 2 ^ 64 * 2 ^ y.exp.toNat := Nat.mul_lt_mul_of_pos_right y.mant.isLt (Nat.two_pow_pos _)
      _ = 2 ^ (64 + y.exp.toNat) := (Nat.pow_add _ _ _).symm
      _ ≤ 2 ^ (63 + x.exp.toNat) := Nat.pow_le_pow_right two_pos (by omega)
  have hlarge := le_magnitude (hx.resolve_right fun h0 => by omega).1
  have hlt : |y.value| < |x.value| := by
    rw [abs_value hx, abs_value hy]
    exact mul_lt_mul_of_pos_right (by exact_mod_cast Nat.lt_of_lt_of_le hsmall hlarge) hpos
  rcases lt_trichotomy x.value 0 with hneg | h0 | hxpos
  · rw [abs_of_neg hneg, abs_lt] at hlt
    rw [sign_neg hneg, sign_neg (by linarith)]
  · rw [h0, abs_zero] at hlt
    exact absurd hlt (not_lt_of_ge (abs_nonneg _))
  · rw [abs_of_pos hxpos, abs_lt] at hlt
    rw [sign_pos hxpos, sign_pos (by linarith)]

theorem sign_near (hx : x.Ordinary) (hy : y.Ordinary) (hnear : Near x y) (hc : common x y < 0x7ffe)
    (hne : mantSum x y ≠ 0) (hroom : 2 ^ 61 ≤ (mantSum x y).natAbs * 2 ^ common x y) :
    SignType.sign (fadd x y).value = SignType.sign (x.value + y.value) := by
  obtain ⟨e, j, hresult, he, hj, hge, hlt⟩ := fadd_near hnear hc hne
  have hpow : (mantSum x y).natAbs * 2 ^ (common x y + 2) = (mantSum x y).natAbs * 2 ^ common x y * 4 := by
    rw [Nat.pow_add, ← Nat.mul_assoc]
  have hshifts : ¬ e.toNat < j := by
    rw [shifts_iff hge hlt, he, hpow]
    omega
  rw [sign_mantSum hx hy hne, hresult, value_summed (by omega) (by omega) hlt, sign_mul,
    sign_pos (zpow_pos two_pos _), mul_one]

/-- **The exponents do not wrap, and the result has the sign of the sum and is not too large, exactly under the
    condition.** -/
theorem sound_iff (hx : x.Ordinary) (hy : y.Ordinary) : Sound x y ↔ Roomy x y := by
  unfold Sound
  rw [faddWraps_iff hx hy, not_not]
  refine ⟨And.left, fun h => ⟨h, ?_⟩⟩
  by_cases hnear : Near x y
  · obtain ⟨hc, hsum⟩ := h.resolve_left (not_not_intro hnear)
    by_cases h0 : mantSum x y = 0
    · rw [fadd_cancelled hnear hc h0]
      refine ⟨Or.inl value_zero, ?_⟩
      rw [show (real 0 0).value = 0 from value_zero, abs_zero]
      exact add_nonneg (abs_nonneg _) (abs_nonneg _)
    · have hroom := hsum.resolve_left h0
      exact ⟨Or.inr (sign_near hx hy hnear hc h0 hroom), fadd_magnitude hx hy hnear hc h0 hroom⟩
  · rcases fadd_apart hnear with ⟨hresult, hfar⟩ | ⟨hresult, hfar⟩
    · rw [hresult]
      exact ⟨Or.inr (sign_apart hx hy hfar), le_add_of_nonneg_right (abs_nonneg _)⟩
    · rw [hresult, add_comm x.value]
      exact ⟨Or.inr (sign_apart hy hx hfar), le_add_of_nonneg_left (abs_nonneg _)⟩

theorem sound_iff_one : Sound (real 0x3fff (1 <<< 63)) (real 0x3fff (1 <<< 63)) ↔
    Roomy (real 0x3fff (1 <<< 63)) (real 0x3fff (1 <<< 63)) :=
  sound_iff (Or.inl (by decide)) (Or.inl (by decide))

/-- Two of the smallest numbers, the difference of which is a positive one that is smaller still. -/
theorem cancelled_wraps : (real 1 (1 <<< 63 + 4)).Ordinary ∧ (real 0x8001 (1 <<< 63)).Ordinary ∧
    fadd (real 1 (1 <<< 63 + 4)) (real 0x8001 (1 <<< 63)) = real 0xffc4 (1 <<< 63) ∧
    ¬ Sound (real 1 (1 <<< 63 + 4)) (real 0x8001 (1 <<< 63)) := by
  have hx : (real 1 (1 <<< 63 + 4)).Ordinary := Or.inl (by decide)
  have hy : (real 0x8001 (1 <<< 63)).Ordinary := Or.inl (by decide)
  have hfadd : fadd (real 1 (1 <<< 63 + 4)) (real 0x8001 (1 <<< 63)) = real 0xffc4 (1 <<< 63) := by decide +kernel
  refine ⟨hx, hy, hfadd, fun h => ?_⟩
  -- the result is negative, and the sum is positive
  have hneg : (real 0xffc4 (1 <<< 63)).value < 0 := by
    have hpos : (0 : ℚ) < 2 ^ ((max (real 0xffc4 (1 <<< 63)).exp.toNat 1 : ℕ) - 16446 : ℤ) := zpow_pos two_pos _
    have hmant : (real 0xffc4 (1 <<< 63)).mant.toNat = 2 ^ 63 := by decide
    have hsgn : sgn (real 0xffc4 (1 <<< 63)).neg = -1 := by decide
    unfold TempReal.value
    rw [hmant, hsgn]
    apply mul_neg_of_neg_of_pos _ hpos
    norm_num
  have hne : mantSum (real 1 (1 <<< 63 + 4)) (real 0x8001 (1 <<< 63)) = 1 := by decide
  have hsign := sign_mantSum hx hy (by rw [hne]; decide)
  rw [hne, Int.cast_one, sign_one] at hsign
  have hsigns := h.2.1
  rw [hfadd, hsign, sign_neg hneg] at hsigns
  rcases hsigns with h0 | h1
  · exact hneg.ne h0
  · exact absurd h1 (by decide)

end Math
end Linux095
