import Linux095.Floats.Rounding
import Linux095.Math.Convert

/-!
# `Math.Rounded` — integers from temporary reals

`real_to_int` and `frndint` shift the mantissa to the right and round by the 32 bits below what is left, and by whether
anything was there at all if the shift is larger still. What lies below those 32 bits is lost.

* `TempReal.value` — the number that a temporary real stands for;
* `Lost` — where the bits that are lost would have decided;
* `realToInt_iff`, `frndint_iff` — when the two deliver the number rounded by the mode.
-/

namespace Linux095
namespace Math

open Floats

/-! ## Numbers -/

def Rounding.mode : Rounding → Mode
  | .nearest => .nearest
  | .down => .down
  | .up => .up
  | .zero => .zero

/-- The number; an exponent of zero counts as one. -/
def TempReal.value (t : TempReal) : ℚ := sgn t.neg * t.mant.toNat * 2 ^ ((max t.exp.toNat 1 : ℕ) - 16446 : ℤ)

def TempInt.value (i : TempInt) : ℤ := sgn i.sign * (join i.b i.a).toNat

/-- What the mode does to the magnitude. -/
def TempReal.dir (t : TempReal) (rc : Rounding) : Dir := rc.mode.dir t.neg

theorem value_eq_div {t : TempReal} {k : ℕ} (h : ((max t.exp.toNat 1 : ℕ) - 16446 : ℤ) = -k) :
    t.value = sgn t.neg * (t.mant.toNat / ((2 ^ k : ℕ) : ℚ)) := by
  unfold TempReal.value
  rw [h, zpow_neg, zpow_natCast]
  push_cast
  ring

theorem value_of_lt {t : TempReal} (h : 16446 < t.exp.toNat) :
    t.value = sgn t.neg * (((t.mant.toNat * 2 ^ (t.exp.toNat - 16446) : ℕ) : ℚ) / ((1 : ℕ) : ℚ)) := by
  have hexp : ((max t.exp.toNat 1 : ℕ) - 16446 : ℤ) = ((t.exp.toNat - 16446 : ℕ) : ℤ) := by omega
  unfold TempReal.value
  rw [hexp, zpow_natCast]
  push_cast
  ring

/-! ## The carry -/

/-- The test of the two functions for one more, on the integer part and the word below it. -/
def WordCarry (d : Dir) (m u : ℕ) : Prop :=
  match d with
  | .nearest => 2 ^ 31 < u ∨ (u = 2 ^ 31 ∧ m % 2 = 1)
  | .away => u ≠ 0
  | .toward => False

instance (d : Dir) (m u : ℕ) : Decidable (WordCarry d m u) := by
  cases d <;> unfold WordCarry <;> infer_instance

/-- The bits below the word decide: they lie above the middle by less than the word shows, or they are all there is. -/
def Lost (d : Dir) (n shift : ℕ) : Prop :=
  match d with
  | .nearest => 2 ^ (shift - 1) < n % 2 ^ shift ∧ n % 2 ^ shift < 2 ^ (shift - 1) + 2 ^ (shift - 32) ∧
      n / 2 ^ shift % 2 = 0
  | .away => 0 < n % 2 ^ shift ∧ n % 2 ^ shift < 2 ^ (shift - 32)
  | .toward => False

theorem roundWords_toNat (rc : Rounding) (neg : Bool) {m : BitVec 64} (u : BitVec 32) (hm : m.toNat + 1 < 2 ^ 64) :
    (roundWords rc neg m u).toNat = m.toNat + if WordCarry (rc.mode.dir neg) m.toNat u.toNat then 1 else 0 := by
  have hadd : (m + 1).toNat = m.toNat + 1 := by
    rw [BitVec.toNat_add]
    exact Nat.mod_eq_of_lt hm
  have hu : u ≠ 0 ↔ u.toNat ≠ 0 := by
    rw [ne_eq, BitVec.toNat_eq]
    rfl
  have hlow : (0x7fffffff + (low m &&& 1)).toNat = 2 ^ 31 - 1 + m.toNat % 2 := by
    have hand : (low m &&& 1).toNat = m.toNat % 2 := by
      rw [BitVec.toNat_and, toNat_low]
      exact (Nat.and_two_pow_sub_one_eq_mod _ 1).trans (by omega)
    have hhalf : (0x7fffffff : BitVec 32).toNat = 2 ^ 31 - 1 := rfl
    rw [BitVec.toNat_add, hand, hhalf]
    have hbit : m.toNat % 2 < 2 := Nat.mod_lt _ two_pos
    exact Nat.mod_eq_of_lt (by omega)
  have hite : ∀ {c c' : Prop} [Decidable c] [Decidable c'], (c ↔ c') →
      (if c then m + 1 else m).toNat = m.toNat + if c' then 1 else 0 := by
    intro c c' _ _ hcc
    by_cases hc : c
    · rw [if_pos hc, if_pos (hcc.1 hc), hadd]
    · rw [if_neg hc, if_neg (fun h => hc (hcc.2 h)), Nat.add_zero]
  cases rc
  · refine hite ?_
    rw [hlow]
    change _ ↔ _ ∨ _
    have hbit : m.toNat % 2 < 2 := Nat.mod_lt _ two_pos
    omega
  · cases neg
    · exact hite (by simp [WordCarry, Rounding.mode, Mode.dir])
    · exact hite (by rw [hu]; simp [WordCarry, Rounding.mode, Mode.dir])
  · cases neg
    · exact hite (by rw [hu]; simp [WordCarry, Rounding.mode, Mode.dir])
    · exact hite (by simp [WordCarry, Rounding.mode, Mode.dir])
  · rfl

/-- The word below the integer part is made of the rest. -/
theorem word_eq (n shift : ℕ) :
    n * 2 ^ 32 / 2 ^ shift % 2 ^ 32 = n % 2 ^ shift * 2 ^ 32 / 2 ^ shift := by
  have hpos := Nat.two_pow_pos shift
  have hrest : n % 2 ^ shift * 2 ^ 32 / 2 ^ shift < 2 ^ 32 := by
    rw [Nat.div_lt_iff_lt_mul hpos, Nat.mul_comm]
    exact Nat.mul_lt_mul_of_pos_left (Nat.mod_lt n hpos) (by decide)
  have hsplit : n * 2 ^ 32 = n % 2 ^ shift * 2 ^ 32 + 2 ^ shift * (n / 2 ^ shift * 2 ^ 32) := by
    calc n * 2 ^ 32 = (n % 2 ^ shift + 2 ^ shift * (n / 2 ^ shift)) * 2 ^ 32 := by rw [Nat.mod_add_div]
      _ = n % 2 ^ shift * 2 ^ 32 + 2 ^ shift * (n / 2 ^ shift * 2 ^ 32) := by rw [Nat.add_mul, Nat.mul_assoc]
  conv_lhs => rw [hsplit, Nat.add_mul_div_left _ _ hpos, Nat.add_mul_mod_self_right, Nat.mod_eq_of_lt hrest]

/-- **Where the word decides as the rest would.** -/
theorem wordCarry_iff (d : Dir) (n shift : ℕ) :
    (WordCarry d (n / 2 ^ shift) (n * 2 ^ 32 / 2 ^ shift % 2 ^ 32) ↔ Carry d n (2 ^ shift)) ↔ ¬ Lost d n shift := by
  have hr : n % 2 ^ shift < 2 ^ shift := Nat.mod_lt n (Nat.two_pow_pos shift)
  rw [word_eq]
  unfold WordCarry Carry Lost
  generalize n / 2 ^ shift = m
  generalize n % 2 ^ shift = r at *
  by_cases hs : shift ≤ 32
  · -- the word is the whole rest
    obtain ⟨k, hk⟩ : ∃ k, 32 = shift + k := ⟨32 - shift, by omega⟩
    have hT := Nat.two_pow_pos k
    have hpow : 2 ^ 32 = 2 ^ k * 2 ^ shift := by rw [← Nat.pow_add, Nat.add_comm, ← hk]
    have hword : r * 2 ^ 32 / 2 ^ shift = r * 2 ^ k := by
      rw [hpow, ← Nat.mul_assoc, Nat.mul_div_cancel _ (Nat.two_pow_pos shift)]
    have hnone : 2 ^ (shift - 32) = 1 := by rw [Nat.sub_eq_zero_of_le hs, Nat.pow_zero]
    have hlt : 2 ^ 31 < r * 2 ^ k ↔ 2 ^ shift < 2 * r := by
      rw [← Nat.mul_lt_mul_left (a := 2 ^ k) hT (b := 2 ^ shift), ← hpow, Nat.mul_left_comm]
      have := Nat.mul_comm (2 ^ k) r
      omega
    have heq : r * 2 ^ k = 2 ^ 31 ↔ 2 ^ shift = 2 * r := by
      rw [← Nat.mul_right_inj hT.ne' (b := 2 ^ shift), ← hpow, Nat.mul_left_comm]
      have := Nat.mul_comm (2 ^ k) r
      omega
    rw [hword, hnone]
    cases d
    · simp only [hlt, heq, true_iff]
      omega
    · simp only [ne_eq, Nat.mul_eq_zero, hT.ne', or_false, true_iff]
      omega
    · simp
  · -- the word is what is left of the rest without its lowest bits
    obtain ⟨k, rfl⟩ : ∃ k, shift = 32 + k := ⟨shift - 32, by omega⟩
    have hL := Nat.two_pow_pos k
    have hword : r * 2 ^ 32 / 2 ^ (32 + k) = r / 2 ^ k := by
      rw [Nat.pow_add, Nat.mul_comm, Nat.mul_div_mul_left _ _ (by decide)]
    have hhalf : 2 ^ (32 + k - 1) = 2 ^ 31 * 2 ^ k := by rw [← Nat.pow_add]; congr 1; omega
    have hge : ∀ c, c ≤ r / 2 ^ k ↔ c * 2 ^ k ≤ r := fun c => Nat.le_div_iff_mul_le hL
    have h1 := hge (2 ^ 31 + 1)
    have h2 := hge (2 ^ 31)
    have h3 := hge 1
    rw [hword, hhalf, show 32 + k - 32 = k by omega, Nat.pow_add]
    generalize 2 ^ k = L at *
    generalize r / L = u at *
    cases d
    · dsimp only
      omega
    · dsimp only
      omega
    · simp

/-! ## `real_to_int` -/

theorem sgn_mul_inj (neg : Bool) {x y : ℕ} : sgn neg * (x : ℤ) = sgn neg * (y : ℤ) ↔ x = y := by
  rw [mul_right_inj' (sgn_ne_zero neg), Nat.cast_inj]

theorem ite_one_inj {c c' : Prop} [Decidable c] [Decidable c'] :
    ((if c then 1 else 0 : ℕ) = if c' then 1 else 0) ↔ (c ↔ c') := by
  by_cases h : c <;> by_cases h' : c' <;> simp [h, h']

/-- What is shifted so far that nothing is left of it. -/
theorem round_of_far (rc : Rounding) {t : TempReal} (h : t.exp.toNat = 0 ∨ t.exp.toNat ≤ 16350) :
    rc.mode.round t.value = sgn t.neg * ((if t.dir rc = .away ∧ t.mant.toNat ≠ 0 then 1 else 0 : ℕ) : ℤ) := by
  obtain ⟨k, hk, hexp⟩ : ∃ k : ℕ, 65 ≤ k ∧ ((max t.exp.toNat 1 : ℕ) - 16446 : ℤ) = -k :=
    ⟨16446 - max t.exp.toNat 1, by omega, by omega⟩
  have hmant := t.mant.isLt
  have hpow : 2 ^ 65 ≤ 2 ^ k := Nat.pow_le_pow_right (by decide) hk
  rw [value_eq_div hexp, round_signed rc.mode t.neg _ (Nat.two_pow_pos k)]
  unfold TempReal.dir
  rw [roundNat_of_small _ (by omega)]

/-- What is not shifted out at all. -/
theorem round_of_large (rc : Rounding) {t : TempReal} (h : 16446 < t.exp.toNat) :
    rc.mode.round t.value = sgn t.neg * ((t.mant.toNat * 2 ^ (t.exp.toNat - 16446) : ℕ) : ℤ) := by
  rw [value_of_lt h, round_signed rc.mode t.neg _ one_pos, roundNat_one]

/-- What is shifted out within reach of the word below the mantissa. -/
theorem round_of_near (rc : Rounding) {t : TempReal} (h0 : t.exp.toNat ≠ 0) (h : t.exp.toNat ≤ 16446) :
    rc.mode.round t.value = sgn t.neg * (roundNat (t.dir rc) t.mant.toNat (2 ^ (16446 - t.exp.toNat)) : ℤ) := by
  rw [value_eq_div (t := t) (k := 16446 - t.exp.toNat) (by omega),
    round_signed rc.mode t.neg _ (Nat.two_pow_pos _)]
  rfl

/-- What `frndint` and `real_to_int` make of the mantissa. -/
def rounded (rc : Rounding) (neg : Bool) (t : TempReal) (shift : ℕ) : BitVec 64 :=
  let w := shiftWords t shift
  let r := shiftRight w.1 w.2.1 w.2.2
  roundWords rc neg r.1 r.2

theorem rounded_toNat (rc : Rounding) (neg : Bool) (t : TempReal) {shift : ℕ} (h : shift < 96) :
    (rounded rc neg t shift).toNat = t.mant.toNat / 2 ^ shift +
      if WordCarry (rc.mode.dir neg) (t.mant.toNat / 2 ^ shift) (t.mant.toNat * 2 ^ 32 / 2 ^ shift % 2 ^ 32)
      then 1 else 0 := by
  have hfst := shiftRight_fst t h
  have hsnd := shiftRight_snd t h
  unfold rounded
  by_cases hs : shift = 0
  · -- nothing is shifted out, so that nothing is added to a mantissa that may be full
    subst hs
    have hword : t.mant.toNat * 2 ^ 32 / 2 ^ 0 % 2 ^ 32 = 0 := by
      rw [Nat.pow_zero, Nat.div_one, Nat.mul_mod_left]
    have hnone : ¬ WordCarry (rc.mode.dir neg) (t.mant.toNat / 2 ^ 0) 0 := by
      unfold WordCarry
      cases rc.mode.dir neg <;> simp
    rw [hword] at hsnd
    rw [hword, if_neg hnone, Nat.add_zero, ← hfst]
    dsimp only
    rw [BitVec.eq_of_toNat_eq (y := 0) hsnd, roundWords_zero]
  · have hlt : t.mant.toNat / 2 ^ shift < 2 ^ 63 := by
      have hmant := t.mant.isLt
      have hpow : 2 ^ 1 ≤ 2 ^ shift := Nat.pow_le_pow_right (by decide) (by omega)
      rw [Nat.div_lt_iff_lt_mul (Nat.two_pow_pos shift)]
      omega
    dsimp only
    rw [roundWords_toNat rc neg _ (by omega), hfst, hsnd]

theorem rounded_far (rc : Rounding) (neg : Bool) (t : TempReal) {shift : ℕ} (h : 96 ≤ shift) :
    (rounded rc neg t shift).toNat = if rc.mode.dir neg = .away then 1 else 0 := by
  have hwords : shiftWords t shift = (0, 1, 0) := by
    unfold shiftWords
    rw [if_neg (by omega), if_neg (by omega), if_neg (by omega)]
  unfold rounded
  rw [hwords]
  cases rc <;> cases neg <;> decide

/-- Where `real_to_int` delivers the rounded number: the bits that it loses do not decide; a zero is not rounded away
from zero; and the number is not too large. -/
def IntRight (rc : Rounding) (t : TempReal) : Prop :=
  if 16446 < t.exp.toNat then t.mant.toNat = 0
  else if 16446 - t.exp.toNat < 96 then ¬ Lost (t.dir rc) t.mant.toNat (16446 - t.exp.toNat)
  else t.dir rc = .away → t.mant.toNat ≠ 0

/-- **When `real_to_int` delivers the number rounded by the mode.** -/
theorem realToInt_iff (rc : Rounding) (t : TempReal) :
    (realToInt rc t).1.value = rc.mode.round t.value ↔ IntRight rc t := by
  unfold IntRight
  by_cases hbig : 16446 < t.exp.toNat
  · have hzero : (realToInt rc t).1.value = sgn t.neg * ((0 : ℕ) : ℤ) := by
      unfold realToInt
      rw [if_pos hbig]
      unfold TempInt.value
      rw [toNat_join]
      simp
    have hpow := Nat.two_pow_pos (t.exp.toNat - 16446)
    rw [if_pos hbig, hzero, round_of_large rc hbig, sgn_mul_inj]
    generalize 2 ^ (t.exp.toNat - 16446) = c at hpow
    constructor
    · intro h
      exact (Nat.mul_eq_zero.1 h.symm).resolve_right hpow.ne'
    · intro h
      rw [h, Nat.zero_mul]
  · have hres : (realToInt rc t).1.value =
        sgn t.neg * ((rounded rc t.neg t (16446 - t.exp.toNat)).toNat : ℤ) := by
      unfold realToInt
      rw [if_neg hbig, TempInt.value]
      dsimp only
      rw [join_high_low]
      rfl
    rw [if_neg hbig, hres]
    split
    · rename_i hnear
      rw [round_of_near rc (by omega) (by omega), sgn_mul_inj, rounded_toNat rc _ t hnear, roundNat,
        Nat.add_left_cancel_iff, ite_one_inj]
      exact wordCarry_iff _ _ _
    · rename_i hfar
      rw [round_of_far rc (by omega), sgn_mul_inj, rounded_far rc _ t (by omega), ite_one_inj]
      change (t.dir rc = .away ↔ _) ↔ _
      tauto

/-! ## `frndint` -/

theorem exponent_toNat (t : TempReal) : t.exponent.toNat = t.exp.toNat + if t.neg then 2 ^ 15 else 0 := by
  have hexp := t.exp_toNat
  have hlt := t.exponent.isLt
  cases hneg : t.neg
  · have hsmall := BitVec.msb_eq_false_iff_two_mul_lt.1 hneg
    simp only [Bool.false_eq_true, if_false]
    omega
  · have hlarge := BitVec.msb_eq_true_iff_two_mul_ge.1 hneg
    simp only [if_true]
    omega

/-- The sign and the exponent of a temporary real, from the word that has both. -/
theorem neg_exp_of_exponent {t : TempReal} {neg : Bool} {e : ℕ} (he : e < 2 ^ 15)
    (h : t.exponent.toNat = e + if neg then 2 ^ 15 else 0) : t.neg = neg ∧ t.exp.toNat = e := by
  rw [t.exp_toNat, TempReal.neg]
  cases neg
  · rw [BitVec.msb_eq_false_iff_two_mul_lt]
    simp only [Bool.false_eq_true, if_false] at h
    omega
  · rw [BitVec.msb_eq_true_iff_two_mul_ge]
    simp only [if_true] at h
    omega

/-- The number whose mantissa `m` has been normalised. -/
def normalized (e : BitVec 16) (m : BitVec 64) : TempReal :=
  ⟨low (normalizeLoop 63 e m).2, high (normalizeLoop 63 e m).2, (normalizeLoop 63 e m).1⟩

/-- **Normalising does not change the number**, where the exponent is that of an integer. -/
theorem value_normalized {neg : Bool} {e : BitVec 16} {m : BitVec 64} (hm : m.toNat ≠ 0)
    (he : e.toNat = 16446 + if neg then 2 ^ 15 else 0) : (normalized e m).value = sgn neg * m.toNat := by
  obtain ⟨j, hj, heq, hge, hlt⟩ := normalizeLoop_spec 63 e m (Nat.le_mul_of_pos_left _ (Nat.pos_of_ne_zero hm))
  have hexponent : (normalized e m).exponent.toNat = (16446 - j) + if neg then 2 ^ 15 else 0 := by
    rw [normalized, heq]
    dsimp only
    cases neg
    · simp only [Bool.false_eq_true, if_false] at he ⊢
      bv_omega
    · simp only [if_true] at he ⊢
      bv_omega
  obtain ⟨hneg, hexp⟩ := neg_exp_of_exponent (by omega) hexponent
  have hmant : (normalized e m).mant.toNat = m.toNat * 2 ^ j := by
    rw [normalized, heq, TempReal.mant, join_high_low, BitVec.toNat_ofNat, Nat.mod_eq_of_lt hlt]
  have hpow : ((2 : ℚ) ^ j) ≠ 0 := by positivity
  rw [value_eq_div (t := normalized e m) (k := j) (by rw [hexp]; omega), hneg, hmant]
  push_cast
  field_simp

/-- Where `frndint` delivers the rounded number: the bits that it loses do not decide, and a number below 2⁻³³ is not
rounded away from zero; what has a zero exponent comes back as it is. -/
def FrndintRight (rc : Rounding) (t : TempReal) : Prop :=
  if t.exp.toNat = 0 then t.mant.toNat = 0
  else if 16446 < t.exp.toNat then True
  else if 16446 - t.exp.toNat < 96 then ¬ Lost (t.dir rc) t.mant.toNat (16446 - t.exp.toNat)
  else t.dir rc ≠ .away

theorem frndint_of_near (rc : Rounding) {t : TempReal} (h0 : t.exp.toNat ≠ 0) (h : t.exp.toNat ≤ 16446) :
    frndint rc t =
      let e := t.exponent + BitVec.ofNat 16 (if 16446 - t.exp.toNat < 96 then 16446 - t.exp.toNat else 0)
      let m := rounded rc e.msb t (16446 - t.exp.toNat)
      if m = 0 then ⟨0, 0, 0⟩ else normalized e m := by
  have hz : t.exp ≠ 0 := fun hz => h0 (by rw [hz]; rfl)
  have hint : ¬ (16383 + 63 < t.exp.toNat ∨ t.exp = 0) := by
    rintro (hbig | hzero)
    · omega
    · exact hz hzero
  unfold frndint
  rw [if_neg hint]
  rfl

theorem value_zero : (⟨0, 0, 0⟩ : TempReal).value = 0 := by
  unfold TempReal.value
  rw [TempReal.mant_toNat]
  simp

/-- A number below one half is an integer only if it is zero. -/
theorem value_eq_small {t : TempReal} {k i : ℕ} (h : ((max t.exp.toNat 1 : ℕ) - 16446 : ℤ) = -k) (hk : 65 ≤ k) :
    t.value = sgn t.neg * ((i : ℕ) : ℤ) ↔ t.mant.toNat = 0 ∧ i = 0 := by
  have hmant := t.mant.isLt
  have hpow : 2 ^ 65 ≤ 2 ^ k := Nat.pow_le_pow_right (by decide) hk
  have hsgn : ((sgn t.neg : ℤ) : ℚ) ≠ 0 := Int.cast_ne_zero.2 (sgn_ne_zero _)
  have hq : ((2 ^ k : ℕ) : ℚ) ≠ 0 := by positivity
  rw [value_eq_div h, Int.cast_natCast, mul_right_inj' hsgn, div_eq_iff hq]
  norm_cast
  constructor
  · intro heq
    have hi : i = 0 := by
      by_contra hne
      have := Nat.le_mul_of_pos_left (2 ^ k) (Nat.pos_of_ne_zero hne)
      omega
    rw [hi, Nat.zero_mul] at heq
    exact ⟨heq, hi⟩
  · rintro ⟨hm, rfl⟩
    rw [hm, Nat.zero_mul]

/-- A one that has been normalised under an exponent that is too small stands for another number. -/
theorem value_normalized_one {e : BitVec 16} {i : ℕ} {neg : Bool} (he : e.toNat % 2 ^ 15 ≤ 16350) (hi : i ≤ 1) :
    (normalized e 1).value ≠ sgn neg * ((i : ℕ) : ℤ) := by
  obtain ⟨j, hj, heq, hge, hlt⟩ := normalizeLoop_spec 63 e 1 (by decide)
  have hone : (1 : BitVec 64).toNat = 1 := rfl
  rw [hone, Nat.one_mul] at heq hge hlt
  have hj63 : j = 63 := by
    have := (Nat.pow_le_pow_iff_right (a := 2) (by decide)).1 hge
    omega
  subst hj63
  have hmant : (normalized e 1).mant.toNat = 2 ^ 63 := by
    rw [normalized, heq, TempReal.mant, join_high_low]
    rfl
  have hexp : (normalized e 1).exp.toNat ≠ 16383 := by
    rw [TempReal.exp_toNat, normalized, heq]
    dsimp only
    bv_omega
  have hvalue : (normalized e 1).value =
      sgn (normalized e 1).neg * 2 ^ ((max (normalized e 1).exp.toNat 1 : ℕ) - 16383 : ℤ) := by
    have hsub : ((max (normalized e 1).exp.toNat 1 : ℕ) - 16446 : ℤ) =
        ((max (normalized e 1).exp.toNat 1 : ℕ) - 16383 : ℤ) - (63 : ℕ) := by omega
    unfold TempReal.value
    rw [hmant, hsub, zpow_sub₀ two_ne_zero, zpow_natCast]
    push_cast
    field_simp
    norm_num
  rw [hvalue]
  intro hsame
  have habs := congrArg abs hsame
  have hpos : (0 : ℚ) < 2 ^ ((max (normalized e 1).exp.toNat 1 : ℕ) - 16383 : ℤ) := zpow_pos two_pos _
  have hsgn : ∀ b, |((sgn b : ℤ) : ℚ)| = 1 := by
    intro b
    cases b <;> simp [sgn]
  rw [abs_mul, abs_mul, hsgn, hsgn, one_mul, one_mul, abs_of_pos hpos, Int.cast_natCast, Nat.abs_cast] at habs
  have hi1 : i = 1 := by
    rcases Nat.le_one_iff_eq_zero_or_eq_one.1 hi with h | h
    · rw [h, Nat.cast_zero] at habs
      exact absurd habs hpos.ne'
    · exact h
  rw [hi1, Nat.cast_one, zpow_eq_one_iff_right₀ (by norm_num) (by norm_num)] at habs
  omega

theorem frndint_value_near (rc : Rounding) {t : TempReal} (h0 : t.exp.toNat ≠ 0) (h : t.exp.toNat ≤ 16446)
    (hnear : 16446 - t.exp.toNat < 96) :
    (frndint rc t).value = sgn t.neg * ((rounded rc t.neg t (16446 - t.exp.toNat)).toNat : ℤ) := by
  have he : (t.exponent + BitVec.ofNat 16 (16446 - t.exp.toNat)).toNat = 16446 + if t.neg then 2 ^ 15 else 0 := by
    have hexponent := exponent_toNat t
    cases hneg : t.neg
    · rw [hneg] at hexponent
      simp only [Bool.false_eq_true, if_false] at hexponent ⊢
      bv_omega
    · rw [hneg] at hexponent
      simp only [if_true] at hexponent ⊢
      bv_omega
  have hmsb : (t.exponent + BitVec.ofNat 16 (16446 - t.exp.toNat)).msb = t.neg :=
    (neg_exp_of_exponent (t := ⟨0, 0, _⟩) (by decide) he).1
  rw [frndint_of_near rc h0 h, if_pos hnear]
  dsimp only
  rw [hmsb]
  split
  · rename_i hm
    rw [value_zero, hm]
    simp
  · rename_i hm
    rw [value_normalized (fun h => hm (BitVec.eq_of_toNat_eq h)) he]
    rfl

/-- **When `frndint` delivers the number rounded by the mode.** -/
theorem frndint_iff (rc : Rounding) (t : TempReal) :
    (frndint rc t).value = rc.mode.round t.value ↔ FrndintRight rc t := by
  unfold FrndintRight
  split
  · rename_i h0
    have hsame : frndint rc t = t := by
      unfold frndint
      rw [if_pos (Or.inr (BitVec.eq_of_toNat_eq h0))]
    rw [hsame, round_of_far rc (Or.inl h0), Int.cast_mul, value_eq_small (k := 16445) (by omega) (by decide)]
    constructor
    · exact fun h => h.1
    · intro h
      exact ⟨h, if_neg (fun hc => hc.2 h)⟩
  split
  · rename_i h0 hbig
    have hsame : frndint rc t = t := by
      unfold frndint
      rw [if_pos (Or.inl hbig)]
    rw [hsame, round_of_large rc hbig, value_of_lt hbig]
    refine iff_true_intro ?_
    rw [Int.cast_mul, Int.cast_natCast, Nat.cast_one, div_one]
  rename_i h0 hbig
  have hlarge : t.exp.toNat ≤ 16446 := by omega
  split
  · rename_i hnear
    rw [frndint_value_near rc h0 hlarge hnear, round_of_near rc h0 hlarge, ← Int.cast_mul, Int.cast_inj, sgn_mul_inj,
      rounded_toNat rc _ t hnear, roundNat, Nat.add_left_cancel_iff, ite_one_inj]
    exact wordCarry_iff _ _ _
  · rename_i hfar
    rw [frndint_of_near rc h0 hlarge, if_neg hfar, round_of_far rc (by omega)]
    have hadd : t.exponent + BitVec.ofNat 16 0 = t.exponent := BitVec.add_zero _
    have hm : (rounded rc t.exponent.msb t (16446 - t.exp.toNat)).toNat = if t.dir rc = .away then 1 else 0 :=
      rounded_far rc t.neg t (by omega)
    dsimp only
    rw [hadd]
    by_cases haway : t.dir rc = .away
    · rw [if_pos haway] at hm
      rw [BitVec.eq_of_toNat_eq (y := 1) hm, if_neg (by decide), Int.cast_mul]
      refine iff_of_false (value_normalized_one ?_ (by split <;> decide)) (fun h => h haway)
      rw [← t.exp_toNat]
      omega
    · rw [if_neg haway] at hm
      rw [if_pos (BitVec.eq_of_toNat_eq (y := 0) hm), value_zero, if_neg (fun h => haway h.1)]
      exact iff_of_true (by simp) haway

end Math
end Linux095
