import Linux095.Math.Arith

/-!
# `Math.Difference` — comparing by a subtraction (`kernel/math/compare.c`)

`fcom` adds one operand, with its sign flipped, to the other and looks at what `fadd` makes of them. `fadd` leaves out
the last two bits of both mantissas; and where its result has to be shifted so often that the exponent is below zero,
the sign is wrong.

* `TempReal.Ordinary` — the operands for which a comparison is specified here;
* `fadd_shows` — whether the result is zero, and its sign, by the sum of the mantissas;
* `compared_iff` — **when these are as for the difference of the two numbers**.
-/

namespace Linux095
namespace Math

open Floats

/-- Normalised and finite, or zero. -/
def TempReal.Ordinary (t : TempReal) : Prop :=
  t.mant.msb = true ∧ 1 ≤ t.exp.toNat ∧ t.exp.toNat < 0x7fff ∨ t.mant = 0 ∧ t.exp.toNat = 0

/-- The larger exponent. -/
def common (x y : TempReal) : ℕ := max x.exp.toNat y.exp.toNat

/-- A mantissa as `fadd` adds it: shifted to another exponent, and without its last two bits. -/
def aligned (e : ℕ) (t : TempReal) : ℕ := t.mant.toNat / 2 ^ (e - t.exp.toNat + 2)

/-- The sum of the mantissas. -/
def mantSum (x y : TempReal) : ℤ := sgn x.neg * aligned (common x y) x + sgn y.neg * aligned (common x y) y

/-- The difference of the mantissas. -/
def difference (x y : TempReal) : ℤ := sgn x.neg * aligned (common x y) x - sgn y.neg * aligned (common x y) y

/-- **The condition**: the two numbers are the same, or the difference of the mantissas is not zero, and can be shifted
    to the first bit before the exponent is below zero. -/
def Told (x y : TempReal) : Prop := x.value = y.value ∨ 2 ^ 61 ≤ (difference x y).natAbs * 2 ^ common x y

theorem common_comm (x y : TempReal) : common x y = common y x := Nat.max_comm _ _

theorem mantSum_comm (x y : TempReal) : mantSum x y = mantSum y x := by
  unfold mantSum
  rw [common_comm, add_comm]

theorem sgn_not (b : Bool) : sgn (!b) = -sgn b := by
  cases b <;> rfl

theorem sgn_mul_cases (b : Bool) (n : ℤ) : sgn b * n = n ∨ sgn b * n = -n := by
  cases b with
  | false => exact Or.inl (one_mul n)
  | true => exact Or.inr (neg_one_mul n)

theorem mantSum_negate (x y : TempReal) : mantSum x y.negate = difference x y := by
  have hcommon : common x y.negate = common x y := by
    unfold common
    rw [exp_negate]
  have haligned : ∀ e, aligned e y.negate = aligned e y := by
    intro e
    unfold aligned
    rw [exp_negate, mant_negate]
  unfold mantSum difference
  rw [hcommon, haligned, neg_negate, sgn_not, neg_mul, sub_eq_add_neg]

/-! ## The sum as a bit vector -/

section Words

variable {x y t : TempReal}

theorem toInt_of_small {m : BitVec 64} (h : m.toNat < 2 ^ 62) : m.toInt = m.toNat ∧ (-m).toInt = -(m.toNat : ℤ) := by
  have hpos : m.toInt = m.toNat := BitVec.toInt_eq_toNat_of_lt (by omega)
  refine ⟨hpos, ?_⟩
  rw [BitVec.toInt_neg, hpos]
  exact Int.bmod_eq_of_le_mul_two (by omega) (by omega)

/-- The mantissa with its sign. -/
theorem toInt_signify (t : TempReal) : (signify t).mant.toInt = sgn (signBit t) * (t.mant.toNat / 4 : ℕ) := by
  have hshift : (t.mant >>> 2).toNat = t.mant.toNat / 4 := by
    rw [BitVec.toNat_ushiftRight, Nat.shiftRight_eq_div_pow]
  have hlt := t.mant.isLt
  obtain ⟨hpos, hneg⟩ := toInt_of_small (m := t.mant >>> 2) (by omega)
  rw [mant_signify, ← hshift]
  cases signBit t with
  | false =>
      rw [if_neg Bool.false_ne_true, hpos]
      exact (one_mul _).symm
  | true =>
      rw [if_pos rfl, hneg]
      exact (neg_one_mul _).symm

/-- What `fadd` takes the sign off: the sum of the two operands with their signs in the mantissas. -/
def signified (x y : TempReal) : TempReal :=
  real (signify x).exponent
    ((signify x).mant + (signify (real y.exponent (y.mant >>> (x.exp.toNat - y.exp.toNat)))).mant)

theorem addOrdered_of_near (h : ¬ 64 ≤ x.exp.toNat - y.exp.toNat) : addOrdered x y = unsignify (signified x y) := by
  unfold addOrdered signified
  rw [if_neg h]

theorem signified_eq (hle : y.exp.toNat ≤ x.exp.toNat) :
    ∃ e m, signified x y = real e m ∧ e.toNat = (x.exp.toNat + 2) % 2 ^ 15 ∧
      m.toInt = sgn (signBit x) * aligned (common x y) x + sgn (signBit y) * aligned (common x y) y := by
  have hcommon : common x y = x.exp.toNat := Nat.max_eq_left hle
  have hx : aligned (common x y) x = x.mant.toNat / 4 := by
    unfold aligned
    rw [hcommon, Nat.sub_self]
    rfl
  have hy : aligned (common x y) y = (y.mant >>> (x.exp.toNat - y.exp.toNat)).toNat / 4 := by
    unfold aligned
    rw [hcommon, BitVec.toNat_ushiftRight, Nat.shiftRight_eq_div_pow, Nat.div_div_eq_div_mul, Nat.pow_add]
  have hltx := x.mant.isLt
  have hlty := (y.mant >>> (x.exp.toNat - y.exp.toNat)).isLt
  let z := real y.exponent (y.mant >>> (x.exp.toNat - y.exp.toNat))
  refine ⟨(signify x).exponent, (signify x).mant + (signify z).mant, rfl, exponent_signify x, ?_⟩
  have hsign : signBit z = signBit y := rfl
  have hz : z.mant = y.mant >>> (x.exp.toNat - y.exp.toNat) := mant_real _ _
  rw [BitVec.toInt_add, toInt_signify, toInt_signify, hsign, hz, hx, hy]
  have hsx := sgn_mul_cases (signBit x) (x.mant.toNat / 4 : ℕ)
  have hsy := sgn_mul_cases (signBit y) ((y.mant >>> (x.exp.toNat - y.exp.toNat)).toNat / 4 : ℕ)
  apply Int.bmod_eq_of_le_mul_two <;> omega

/-- The exponent after `j` shifts: below zero, the sign is another one. -/
theorem neg_of_sub {e : BitVec 16} {j : ℕ} {b : Bool} (he : e.toNat < 2 ^ 15) (hj : j ≤ 63) (m : BitVec 64) :
    (real ((if b then e ||| 0x8000 else e) - BitVec.ofNat 16 j) m).neg = (b != decide (e.toNat < j)) := by
  have hor : (e ||| 0x8000).toNat = e.toNat + 2 ^ 15 := by
    rw [BitVec.toNat_or, Nat.or_comm]
    exact (Nat.two_pow_add_eq_or_of_lt he 1).symm.trans (Nat.add_comm _ _)
  show ((if b then e ||| 0x8000 else e) - BitVec.ofNat 16 j).msb = _
  rw [BitVec.msb_eq_decide, BitVec.toNat_sub, BitVec.toNat_ofNat]
  cases b with
  | false =>
      rw [if_neg Bool.false_ne_true, Bool.false_bne]
      exact decide_eq_decide.2 (by omega)
  | true =>
      rw [if_pos rfl, hor, Bool.true_bne, ← decide_not]
      exact decide_eq_decide.2 (by omega)

/-- As many shifts as the exponent leaves room for. -/
theorem shifts_iff {n j e : ℕ} (hge : 2 ^ 63 ≤ n * 2 ^ j) (hlt : n * 2 ^ j < 2 ^ 64) : e < j ↔ n * 2 ^ e < 2 ^ 63 := by
  constructor
  · intro h
    have hpow : 2 ^ (e + 1) ≤ 2 ^ j := Nat.pow_le_pow_right (by decide) h
    have hmul := Nat.mul_le_mul_left n hpow
    rw [Nat.pow_succ, ← Nat.mul_assoc] at hmul
    omega
  · intro h
    by_contra hle
    have hpow : 2 ^ j ≤ 2 ^ e := Nat.pow_le_pow_right (by decide) (by omega)
    have hmul := Nat.mul_le_mul_left n hpow
    omega

/-- **What `unsignify` delivers**: the magnitude, shifted to the first bit, with the sign in the exponent. -/
theorem unsignify_spec {e : BitVec 16} {m : BitVec 64} (he : e.toNat < 2 ^ 15) (hne : m.toInt ≠ 0)
    (habs : m.toInt.natAbs < 2 ^ 63) : ∃ j ≤ 63,
    unsignify (real e m) = real ((if m.toInt < 0 then e ||| 0x8000 else e) - BitVec.ofNat 16 j)
      (BitVec.ofNat 64 (m.toInt.natAbs * 2 ^ j)) ∧
    2 ^ 63 ≤ m.toInt.natAbs * 2 ^ j ∧ m.toInt.natAbs * 2 ^ j < 2 ^ 64 := by
  have hm : m ≠ 0 := by
    rintro rfl
    exact hne rfl
  have hand : e &&& 0x7fff = e := by
    apply BitVec.eq_of_toNat_eq
    rw [BitVec.toNat_and]
    exact (Nat.and_two_pow_sub_one_eq_mod _ 15).trans (Nat.mod_eq_of_lt he)
  have hshifted : ∀ (e : BitVec 16) (w : BitVec 64), w.toNat = m.toInt.natAbs → ∃ j ≤ 63,
      normalizeLoop 63 e w = (e - BitVec.ofNat 16 j, BitVec.ofNat 64 (m.toInt.natAbs * 2 ^ j)) ∧
      2 ^ 63 ≤ m.toInt.natAbs * 2 ^ j ∧ m.toInt.natAbs * 2 ^ j < 2 ^ 64 := by
    intro e w hw
    rw [← hw]
    exact normalizeLoop_spec 63 e w (Nat.le_mul_of_pos_left _ (by omega))
  have hcond := BitVec.toInt_eq_msb_cond m
  have hlt := m.isLt
  unfold unsignify
  rw [mant_real, exponent_real, if_neg hm, hand]
  dsimp only
  cases hmsb : m.msb with
  | false =>
      rw [hmsb, if_neg Bool.false_ne_true] at hcond
      obtain ⟨j, hj, heq, hbounds⟩ := hshifted e m (by omega)
      refine ⟨j, hj, ?_, hbounds⟩
      rw [if_neg Bool.false_ne_true, heq, if_neg (by omega : ¬ m.toInt < 0)]
  | true =>
      have hge := BitVec.msb_eq_true_iff_two_mul_ge.1 hmsb
      rw [hmsb, if_pos rfl] at hcond
      have hneg : (-m).toNat = m.toInt.natAbs := by
        rw [BitVec.toNat_neg]
        omega
      obtain ⟨j, hj, heq, hbounds⟩ := hshifted (e ||| 0x8000) (-m) hneg
      refine ⟨j, hj, ?_, hbounds⟩
      rw [if_pos rfl, heq, if_pos (by omega : m.toInt < 0)]

/-- The sign that `unsignify` gives. -/
theorem neg_unsignify {e : BitVec 16} {m : BitVec 64} (he : e.toNat < 2 ^ 15) (hne : m.toInt ≠ 0)
    (habs : m.toInt.natAbs < 2 ^ 63) :
    (unsignify (real e m)).neg = (decide (m.toInt < 0) != decide (m.toInt.natAbs * 2 ^ e.toNat < 2 ^ 63)) := by
  obtain ⟨j, hj, heq, hge, hlt⟩ := unsignify_spec he hne habs
  have hsign := neg_of_sub (b := decide (m.toInt < 0)) he hj (BitVec.ofNat 64 (m.toInt.natAbs * 2 ^ j))
  rw [decide_eq_decide.2 (shifts_iff hge hlt)] at hsign
  rw [heq, ← hsign]
  simp only [decide_eq_true_eq]

end Words

/-! ## What `fadd` shows -/

/-- A result shows a number: it is zero if this is zero, and has its sign if the exponent leaves room for the first
    bit; else it has the other sign. -/
def Shows (r : TempReal) (n : ℤ) (e : ℕ) : Prop :=
  (r.mant = 0 ↔ n = 0) ∧ (n ≠ 0 → r.neg = (decide (n < 0) != decide (n.natAbs * 2 ^ e < 2 ^ 61)))

section Shows

variable {x y t : TempReal} {e : BitVec 16} {m : BitVec 64} {n : ℤ} {k : ℕ}

theorem toInt_eq_zero : m.toInt = 0 ↔ m = 0 := by
  rw [← BitVec.toInt_inj]
  rfl

/-- The exponent is two more. -/
theorem shows_above (hm : m.toInt = n) (he : e.toNat = k + 2) (hk : k + 2 < 2 ^ 15) (hn : n.natAbs < 2 ^ 63) :
    Shows (unsignify (real e m)) n k := by
  constructor
  · rw [unsignify_mant, mant_real, ← toInt_eq_zero, hm]
  · intro hne
    have hpow : n.natAbs * 2 ^ (k + 2) = n.natAbs * 2 ^ k * 4 := by
      rw [Nat.pow_add, ← Nat.mul_assoc]
    rw [neg_unsignify (by omega) (by rwa [hm]) (by rwa [hm]), hm, he, hpow,
      decide_eq_decide.2 (by omega : n.natAbs * 2 ^ k * 4 < 2 ^ 63 ↔ n.natAbs * 2 ^ k < 2 ^ 61)]

/-- The exponent is zero again, and so the sign is another one; but it was another one before. -/
theorem shows_wrapped (hzero : m.toInt = 0 ↔ n = 0) (hneg : m.toInt < 0 ↔ 0 < n) (hm : m.toInt.natAbs < 2 ^ 63)
    (he : e.toNat = 0) (hk : 61 ≤ k) : Shows (unsignify (real e m)) n k := by
  constructor
  · rw [unsignify_mant, mant_real, ← toInt_eq_zero, hzero]
  · intro hne
    have hpow : 2 ^ 61 ≤ 2 ^ k := Nat.pow_le_pow_right (by decide) hk
    have hlarge : 2 ^ 61 ≤ n.natAbs * 2 ^ k := Nat.le_trans hpow (Nat.le_mul_of_pos_left _ (by omega))
    rw [neg_unsignify (by omega) (fun h => hne (hzero.1 h)) hm, he, Nat.pow_zero, Nat.mul_one, decide_eq_true hm,
      decide_eq_false (Nat.not_lt_of_le hlarge), Bool.bne_false, Bool.bne_true, ← decide_not]
    exact decide_eq_decide.2 (by omega)

theorem aligned_lt (e : ℕ) (t : TempReal) : aligned e t < 2 ^ 62 := by
  have hlt := t.mant.isLt
  have hle : t.mant.toNat / 2 ^ (e - t.exp.toNat + 2) ≤ t.mant.toNat / 2 ^ 2 :=
    Nat.div_le_div_left (Nat.pow_le_pow_right (by decide) (by omega)) (by decide)
  unfold aligned
  omega

theorem aligned_self (h : t.exp.toNat = k) : aligned k t = t.mant.toNat / 4 := by
  unfold aligned
  rw [h, Nat.sub_self]
  rfl

theorem aligned_le (e : ℕ) (t : TempReal) : aligned e t ≤ t.mant.toNat / 2 ^ (e - t.exp.toNat) / 4 := by
  unfold aligned
  rw [Nat.pow_add, ← Nat.div_div_eq_div_mul]

/-- With the larger exponent and the first bit set, a mantissa is the larger one. -/
theorem aligned_lt_aligned (htop : x.mant.msb = true) (hexp : x.exp.toNat = k) (hlt : y.exp.toNat < k) :
    2 ^ 61 ≤ aligned k x ∧ aligned k y < 2 ^ 61 := by
  have hge := BitVec.msb_eq_true_iff_two_mul_ge.1 htop
  have hy := y.mant.isLt
  have hpow : 2 ≤ 2 ^ (k - y.exp.toNat) := by
    calc 2 = 2 ^ 1 := rfl
      _ ≤ 2 ^ (k - y.exp.toNat) := Nat.pow_le_pow_right (by decide) (by omega)
  have hhalf : y.mant.toNat / 2 ^ (k - y.exp.toNat) ≤ y.mant.toNat / 2 := Nat.div_le_div_left hpow (by decide)
  have hle := aligned_le k y
  rw [aligned_self hexp]
  omega

/-- The one of the larger exponent is the result. -/
theorem addOrdered_far (h : 64 ≤ x.exp.toNat - y.exp.toNat) (htop : x.mant.msb = true) :
    Shows (addOrdered x y) (mantSum x y) (common x y) := by
  have hcommon : common x y = x.exp.toNat := Nat.max_eq_left (by omega)
  have hge := BitVec.msb_eq_true_iff_two_mul_ge.1 htop
  have hy : aligned x.exp.toNat y = 0 := by
    unfold aligned
    have hpow : 2 ^ 64 ≤ 2 ^ (x.exp.toNat - y.exp.toNat + 2) := Nat.pow_le_pow_right (by decide) (by omega)
    exact Nat.div_eq_of_lt (Nat.lt_of_lt_of_le y.mant.isLt hpow)
  have hsum : mantSum x y = sgn x.neg * (x.mant.toNat / 4 : ℕ) := by
    unfold mantSum
    rw [hcommon, hy, aligned_self rfl, Nat.cast_zero, mul_zero, add_zero]
  have hresult : addOrdered x y = x := by
    unfold addOrdered
    rw [if_pos h]
  have hpow : 2 ^ 61 ≤ 2 ^ x.exp.toNat := Nat.pow_le_pow_right (by decide) (by omega)
  have hne : x.mant ≠ 0 := by
    intro h0
    rw [h0] at htop
    cases htop
  rw [hresult, hsum, hcommon]
  cases hneg : x.neg with
  | false =>
      rw [show sgn false = 1 from rfl, one_mul]
      refine ⟨⟨fun h0 => absurd h0 hne, fun h0 => by omega⟩, fun hn => ?_⟩
      have hlarge := Nat.le_trans hpow (Nat.le_mul_of_pos_left (2 ^ x.exp.toNat) (Int.natAbs_pos.2 hn))
      rw [hneg, decide_eq_false (Nat.not_lt_of_le hlarge), Bool.bne_false, eq_comm]
      exact decide_eq_false (by omega)
  | true =>
      rw [show sgn true = -1 from rfl, neg_one_mul]
      refine ⟨⟨fun h0 => absurd h0 hne, fun h0 => by omega⟩, fun hn => ?_⟩
      have hlarge := Nat.le_trans hpow (Nat.le_mul_of_pos_left (2 ^ x.exp.toNat) (Int.natAbs_pos.2 hn))
      rw [hneg, decide_eq_false (Nat.not_lt_of_le hlarge), Bool.bne_false, eq_comm]
      exact decide_eq_true (by omega)

theorem signBit_below (h : t.exp.toNat < 0x7ffe) : signBit t = t.neg := by
  unfold signBit
  rw [decide_eq_false (by omega), Bool.bne_false]

theorem signBit_top (h : t.exp.toNat = 0x7ffe) : signBit t = !t.neg := by
  unfold signBit
  rw [decide_eq_true (by omega), Bool.bne_true]

/-- **The sum that is formed with the larger exponent shows the sum of the mantissas.** -/
theorem addOrdered_shows (hx : x.exp.toNat < 0x7fff) (hle : y.exp.toNat ≤ x.exp.toNat)
    (htop : y.exp.toNat < x.exp.toNat → x.mant.msb = true) :
    Shows (addOrdered x y) (mantSum x y) (common x y) := by
  by_cases hfar : 64 ≤ x.exp.toNat - y.exp.toNat
  · exact addOrdered_far hfar (htop (by omega))
  have hcommon : common x y = x.exp.toNat := Nat.max_eq_left hle
  obtain ⟨e, m, hresult, he, hm⟩ := signified_eq hle
  have hltx := aligned_lt (common x y) x
  have hlty := aligned_lt (common x y) y
  rw [addOrdered_of_near hfar, hresult]
  by_cases hbelow : x.exp.toNat < 0x7ffe
  · rw [signBit_below hbelow, signBit_below (by omega)] at hm
    apply shows_above hm
    · omega
    · omega
    · have hsx := sgn_mul_cases x.neg (aligned (common x y) x)
      have hsy := sgn_mul_cases y.neg (aligned (common x y) y)
      omega
  · -- the exponent wraps, and takes the signs of those with it
    have hxtop : x.exp.toNat = 0x7ffe := by omega
    rw [signBit_top hxtop, sgn_not, neg_mul] at hm
    have hsx := sgn_mul_cases x.neg (aligned (common x y) x)
    have hsy := sgn_mul_cases y.neg (aligned (common x y) y)
    by_cases hytop : y.exp.toNat = 0x7ffe
    · rw [signBit_top hytop, sgn_not, neg_mul] at hm
      unfold mantSum
      apply shows_wrapped <;> omega
    · rw [signBit_below (by omega)] at hm
      obtain ⟨hgex, hlty⟩ := aligned_lt_aligned (htop (by omega)) hcommon.symm (by omega : y.exp.toNat < common x y)
      unfold mantSum
      apply shows_wrapped <;> omega

/-- **What `fadd` shows is the sum of the mantissas.** -/
theorem fadd_shows (hx : x.Ordinary) (hy : y.Ordinary) : Shows (fadd x y) (mantSum x y) (common x y) := by
  have hexp : ∀ {t : TempReal}, t.Ordinary → t.exp.toNat < 0x7fff := by
    rintro t (⟨-, -, h⟩ | ⟨-, h⟩)
    · exact h
    · omega
  have htop : ∀ {t : TempReal}, t.Ordinary → 0 < t.exp.toNat → t.mant.msb = true := by
    rintro t (⟨h, -, -⟩ | ⟨-, h⟩) hpos
    · exact h
    · omega
  unfold fadd
  split
  · next hlt =>
      rw [BitVec.lt_def] at hlt
      exact addOrdered_shows (hexp hx) hlt.le fun _ => htop hx (by omega)
  · next hle =>
      rw [BitVec.lt_def] at hle
      rw [mantSum_comm, common_comm]
      exact addOrdered_shows (hexp hy) (by omega) fun _ => htop hy (by omega)

end Shows

/-! ## The difference of the numbers -/

section Numbers

variable {x y : TempReal}

/-- A number, in units of the least one of all. -/
theorem value_units (h : 1 ≤ x.exp.toNat ∨ x.mant = 0) :
    x.value = ((sgn x.neg * (x.mant.toNat * 2 ^ x.exp.toNat : ℕ) : ℤ) : ℚ) * 2 ^ (-16446 : ℤ) := by
  unfold TempReal.value
  rcases h with hexp | hmant
  · have hmax : max x.exp.toNat 1 = x.exp.toNat := Nat.max_eq_left hexp
    rw [hmax, sub_eq_add_neg, zpow_add₀ two_ne_zero, zpow_natCast]
    rw [Int.cast_mul, Int.cast_natCast, Nat.cast_mul, Nat.cast_pow, Nat.cast_ofNat]
    exact (mul_assoc _ _ _).symm.trans (congrArg (· * _) (mul_assoc _ _ _))
  · have hzero : x.mant.toNat = 0 := by
      rw [hmant]
      rfl
    rw [hzero, Nat.zero_mul, Nat.cast_zero, Nat.cast_zero, mul_zero, mul_zero, Int.cast_zero, zero_mul, zero_mul]

theorem value_ordinary (h : x.Ordinary) :
    x.value = ((sgn x.neg * (x.mant.toNat * 2 ^ x.exp.toNat : ℕ) : ℤ) : ℚ) * 2 ^ (-16446 : ℤ) :=
  value_units (h.imp (fun hx => hx.2.1) And.left)

theorem value_lt_iff (hx : x.Ordinary) (hy : y.Ordinary) : x.value < y.value ↔
    sgn x.neg * ((x.mant.toNat * 2 ^ x.exp.toNat : ℕ) : ℤ) <
      sgn y.neg * ((y.mant.toNat * 2 ^ y.exp.toNat : ℕ) : ℤ) := by
  have hpos : (0 : ℚ) < 2 ^ (-16446 : ℤ) := zpow_pos two_pos _
  rw [value_ordinary hx, value_ordinary hy, mul_lt_mul_iff_left₀ hpos, Int.cast_lt]

/-- Numbers whose quotients are in an order are in that order. -/
theorem lt_of_quotients {b b' : Bool} {m n w : ℕ}
    (h : sgn b * ((m / w : ℕ) : ℤ) < sgn b' * ((n / w : ℕ) : ℤ)) : sgn b * (m : ℤ) < sgn b' * (n : ℤ) := by
  have hmono : ∀ p q : ℕ, p / w < q / w → p < q := fun p q hlt =>
    Nat.lt_of_not_le fun hle => absurd (Nat.div_le_div_right hle) (Nat.not_le_of_lt hlt)
  have hpos : ∀ p : ℕ, 0 < p / w → 0 < p := fun p hlt => Nat.lt_of_lt_of_le hlt (Nat.div_le_self _ _)
  have hmn := hmono m n
  have hnm := hmono n m
  have hm := hpos m
  have hn := hpos n
  generalize m / w = p at *
  generalize n / w = q at *
  have htrue : sgn true = -1 := rfl
  have hfalse : sgn false = 1 := rfl
  cases b <;> cases b' <;> simp only [htrue, hfalse, one_mul, neg_one_mul] at h ⊢ <;> omega

theorem aligned_eq (e : ℕ) {t : TempReal} (h : t.exp.toNat ≤ e) :
    aligned e t = t.mant.toNat * 2 ^ t.exp.toNat / 2 ^ (e + 2) := by
  have hpow : 2 ^ (e + 2) = 2 ^ (e - t.exp.toNat + 2) * 2 ^ t.exp.toNat := by
    rw [← Nat.pow_add]
    congr 1
    omega
  unfold aligned
  rw [hpow, Nat.mul_div_mul_right _ _ (Nat.two_pow_pos _)]

/-- The sign of the difference of the mantissas is that of the difference of the numbers. -/
theorem lt_of_difference (hx : x.Ordinary) (hy : y.Ordinary) (h : difference x y < 0) : x.value < y.value := by
  rw [value_lt_iff hx hy]
  have hlx : x.exp.toNat ≤ common x y := Nat.le_max_left _ _
  have hly : y.exp.toNat ≤ common x y := Nat.le_max_right _ _
  unfold difference at h
  rw [aligned_eq _ hlx, aligned_eq _ hly] at h
  exact lt_of_quotients (sub_neg.1 h)

theorem gt_of_difference (hx : x.Ordinary) (hy : y.Ordinary) (h : 0 < difference x y) : y.value < x.value := by
  rw [value_lt_iff hy hx]
  have hlx : x.exp.toNat ≤ common x y := Nat.le_max_left _ _
  have hly : y.exp.toNat ≤ common x y := Nat.le_max_right _ _
  unfold difference at h
  rw [aligned_eq _ hlx, aligned_eq _ hly] at h
  exact lt_of_quotients (sub_pos.1 h)

theorem ordinary_negate (h : x.Ordinary) : x.negate.Ordinary := by
  unfold TempReal.Ordinary
  rw [mant_negate, exp_negate]
  exact h

/-- **The sum shows the order of the two numbers exactly under the condition.** -/
theorem compared_iff (hx : x.Ordinary) (hy : y.Ordinary) :
    (((fadd y.negate x).mant = 0 ↔ x.value = y.value) ∧
      ((fadd y.negate x).mant ≠ 0 ∧ (fadd y.negate x).neg = true ↔ x.value < y.value)) ↔ Told x y := by
  have hlt := lt_of_difference hx hy
  have hgt := gt_of_difference hx hy
  have hshows := fadd_shows hx (ordinary_negate hy)
  have hcommon : common x y.negate = common x y := by
    unfold common
    rw [exp_negate]
  rw [mantSum_negate, hcommon] at hshows
  obtain ⟨hzero, hneg⟩ := hshows
  rw [fadd_comm y.negate, hzero, ne_eq, hzero]
  unfold Told
  rcases lt_trichotomy (difference x y) 0 with hd | hd | hd
  · have hvalue := hlt hd
    rw [hneg (by omega), decide_eq_true hd, Bool.true_bne, Bool.not_eq_true', decide_eq_false_iff_not, Nat.not_lt]
    constructor
    · rintro ⟨-, h⟩
      exact Or.inr (h.2 hvalue).2
    · rintro (h | h)
      · exact absurd h hvalue.ne
      · exact ⟨⟨fun h0 => by omega, fun heq => absurd heq hvalue.ne⟩, ⟨fun _ => hvalue, fun _ => ⟨by omega, h⟩⟩⟩
  · rw [hd]
    constructor
    · rintro ⟨h, -⟩
      exact Or.inl (h.1 rfl)
    · rintro (h | h)
      · exact ⟨⟨fun _ => h, fun _ => rfl⟩, ⟨fun hn => absurd rfl hn.1, fun hlt => absurd h hlt.ne⟩⟩
      · rw [Int.natAbs_zero, Nat.zero_mul] at h
        omega
  · have hvalue := hgt hd
    rw [hneg (by omega), decide_eq_false (by omega), Bool.false_bne, decide_eq_true_iff]
    constructor
    · rintro ⟨-, h⟩
      refine Or.inr (Nat.le_of_not_lt fun hsmall => ?_)
      exact absurd (h.1 ⟨by omega, hsmall⟩) hvalue.asymm
    · rintro (h | h)
      · exact absurd h hvalue.ne'
      · exact ⟨⟨fun h0 => by omega, fun heq => absurd heq hvalue.ne'⟩,
          ⟨fun hn => absurd hn.2 (Nat.not_lt_of_le h), fun hless => absurd hless hvalue.asymm⟩⟩

end Numbers

end Math
end Linux095
