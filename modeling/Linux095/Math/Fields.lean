import Mathlib.Algebra.Group.Nat.Defs
import Linux095.Math.Convert

/-!
# `Math.Fields` — short and long reals by their fields

The conversions of `convert.c` put a sign, an exponent and a fraction together with shifts and masks. Here both
formats are the concatenation of their fields, and each conversion is said on fields.

* `shortFields`, `longFields` — a real with an implied bit from its fields;
* `tempToShort_eq`, `tempToLong_eq` — what the conversions to the shorter formats deliver, up to the rounding;
* `neg_shortToTemp` and its neighbours — what the conversions from them deliver;
* `real_load_store_iff` — when a real that is loaded and stored again is the same real.
-/

namespace Linux095
namespace Math

/-! ## Signed exponents -/

/-- `exponent |= 0x8000` for a negative number. -/
def signed (neg : Bool) (e : BitVec 16) : BitVec 16 := if neg then e ||| 0x8000 else e

theorem signed_msb {neg : Bool} {e : BitVec 16} (h : e.toNat < 2 ^ 15) : (signed neg e).msb = neg := by
  have hmsb : e.msb = false := by
    rw [BitVec.msb_eq_false_iff_two_mul_lt]
    omega
  cases neg
  · simpa [signed] using hmsb
  · simp only [signed, if_true, BitVec.msb_or, hmsb]
    rfl

theorem signed_and {neg : Bool} {e : BitVec 16} (h : e.toNat < 2 ^ 15) : signed neg e &&& 0x7fff = e := by
  have hand : e &&& 0x7fff = e := by
    apply BitVec.eq_of_toNat_eq
    rw [BitVec.toNat_and, show (0x7fff : BitVec 16).toNat = 2 ^ 15 - 1 from rfl, Nat.and_two_pow_sub_one_eq_mod]
    omega
  cases neg
  · simpa [signed] using hand
  · simp only [signed, if_true]
    rw [BitVec.and_comm, BitVec.and_or_distrib_left, BitVec.and_comm, hand]
    simp

/-- The sign is above the bits that the shorter formats keep of the exponent. -/
theorem signed_setWidth {neg : Bool} {e : BitVec 16} {w : Nat} (hw : w ≤ 15) :
    (signed neg e).setWidth w = e.setWidth w := by
  cases neg
  · rfl
  · apply BitVec.eq_of_getLsbD_eq
    intro i hi
    have hbit : ∀ j < 15, (0x8000 : BitVec 16).getLsbD j = false := by decide
    simp only [signed, if_true, BitVec.getLsbD_setWidth, BitVec.getLsbD_or, hbit i (by omega), Bool.or_false]

theorem setWidth_sshiftRight {w k s : Nat} (x : BitVec w) (h : s + k ≤ w) :
    (x.sshiftRight s).setWidth k = (x >>> s).setWidth k := by
  apply BitVec.eq_of_getLsbD_eq
  intro i hi
  simp only [BitVec.getLsbD_setWidth, BitVec.getLsbD_sshiftRight, BitVec.getLsbD_ushiftRight]
  simp [show ¬ w ≤ i by omega, show s + i < w by omega]

/-! ## Packing -/

/-- A word with a sign, an exponent that begins at bit `p` and a fraction below it. -/
theorem getLsbD_pack {p : Nat} (hp : p < 31) {me mf : BitVec 32}
    (hme : ∀ i < 32, me.getLsbD i = (decide (p ≤ i) && decide (i < 31)))
    (hmf : ∀ i < 32, mf.getLsbD i = decide (i < p)) (x y : BitVec 32) (s : Bool) {i : Nat} (hi : i < 32) :
    (let b := (x <<< p) &&& me
     let b := if s then b ||| 0x80000000 else b
     b ||| (y &&& mf)).getLsbD i =
      if i < p then y.getLsbD i else if i < 31 then x.getLsbD (i - p) else s := by
  have hmask : ∀ i < 32, (0x80000000 : BitVec 32).getLsbD i = decide (i = 31) := by decide
  have hsign : ∀ b : BitVec 32, (if s then b ||| 0x80000000 else b) = b ||| (if s then 0x80000000 else 0) := by
    intro b
    cases s <;> simp
  have hbit : (if s then (0x80000000 : BitVec 32) else 0).getLsbD i = (decide (i = 31) && s) := by
    cases s
    · simp
    · simpa only [if_true, Bool.and_true] using hmask i hi
  simp only [hsign, BitVec.getLsbD_or, BitVec.getLsbD_and, BitVec.getLsbD_shiftLeft, hme i hi, hmf i hi, hbit]
  rcases show i < p ∨ (p ≤ i ∧ i < 31) ∨ i = 31 by omega with h | ⟨h, h'⟩ | h
  · simp [h, show i ≠ 31 by omega]
  · simp [h, h', hi, show ¬ i < p by omega, show i ≠ 31 by omega]
  · simp [h, show ¬ 31 < p by omega]

/-- A short real from its fields. -/
def shortFields (s : Bool) (e : BitVec 8) (f : BitVec 23) : ShortReal := BitVec.ofBool s ++ e ++ f

/-- The two words of a long real from its fields. -/
def longFields (s : Bool) (e : BitVec 11) (f : BitVec 52) : BitVec 64 := BitVec.ofBool s ++ e ++ f

theorem getLsbD_shortFields (s : Bool) (e : BitVec 8) (f : BitVec 23) {i : Nat} (hi : i < 32) :
    (shortFields s e f).getLsbD i =
      if i < 23 then f.getLsbD i else if i < 31 then e.getLsbD (i - 23) else s := by
  unfold shortFields
  rw [BitVec.getLsbD_append, BitVec.getLsbD_append]
  rcases show i < 23 ∨ (23 ≤ i ∧ i < 31) ∨ i = 31 by omega with h | ⟨h, h'⟩ | h
  · simp [h]
  · simp [h', show ¬ i < 23 by omega, show i - 23 < 8 by omega]
  · simp [h]

theorem getLsbD_longFields (s : Bool) (e : BitVec 11) (f : BitVec 52) {i : Nat} (hi : i < 64) :
    (longFields s e f).getLsbD i =
      if i < 52 then f.getLsbD i else if i < 63 then e.getLsbD (i - 52) else s := by
  unfold longFields
  rw [BitVec.getLsbD_append, BitVec.getLsbD_append]
  rcases show i < 52 ∨ (52 ≤ i ∧ i < 63) ∨ i = 63 by omega with h | ⟨h, h'⟩ | h
  · simp [h]
  · simp [h', show ¬ i < 52 by omega, show i - 52 < 11 by omega]
  · simp [h]

/-- Every short real is the concatenation of its fields. -/
theorem shortFields_self (x : ShortReal) :
    shortFields x.msb ((x >>> 23).setWidth 8) (x.setWidth 23) = x := by
  apply BitVec.eq_of_getLsbD_eq
  intro i hi
  rw [getLsbD_shortFields _ _ _ hi]
  simp only [BitVec.getLsbD_setWidth, BitVec.getLsbD_ushiftRight, BitVec.msb_eq_getLsbD_last]
  rcases show i < 23 ∨ (23 ≤ i ∧ i < 31) ∨ i = 31 by omega with h | ⟨h, h'⟩ | h
  · simp [h]
  · simp [h', show ¬ i < 23 by omega, show i - 23 < 8 by omega, show 23 + (i - 23) = i by omega]
  · simp [h]

theorem longFields_self (x : BitVec 64) :
    longFields x.msb ((x >>> 52).setWidth 11) (x.setWidth 52) = x := by
  apply BitVec.eq_of_getLsbD_eq
  intro i hi
  rw [getLsbD_longFields _ _ _ hi]
  simp only [BitVec.getLsbD_setWidth, BitVec.getLsbD_ushiftRight, BitVec.msb_eq_getLsbD_last]
  rcases show i < 52 ∨ (52 ≤ i ∧ i < 63) ∨ i = 63 by omega with h | ⟨h, h'⟩ | h
  · simp [h]
  · simp [h', show ¬ i < 52 by omega, show i - 52 < 11 by omega, show 52 + (i - 52) = i by omega]
  · simp [h]

/-! ## Storing -/

/-- The test of `temp_to_short` for one more in the last place. -/
def shortCarry (rc : Rounding) (t : TempReal) : Prop :=
  match rc with
  | .nearest => 0x80 < t.b &&& 0xff
  | .down => t.neg ∧ t.b &&& 0xff ≠ 0
  | .up => ¬ t.neg ∧ t.b &&& 0xff ≠ 0
  | .zero => False

/-- The test of `temp_to_long`; two of the modes look at the other word. -/
def longCarry (rc : Rounding) (t : TempReal) : Prop :=
  match rc with
  | .nearest => 0x400 < t.a &&& 0x7ff
  | .down => t.neg ∧ t.b &&& 0xff ≠ 0
  | .up => ¬ t.neg ∧ t.b &&& 0xff ≠ 0
  | .zero => False

instance (rc : Rounding) (t : TempReal) : Decidable (shortCarry rc t) := by
  cases rc <;> unfold shortCarry <;> infer_instance

instance (rc : Rounding) (t : TempReal) : Decidable (longCarry rc t) := by
  cases rc <;> unfold longCarry <;> infer_instance

/-- One more in the last place, or not. -/
theorem ite_add_one {w : Nat} {c : Prop} (d d' : Decidable c) (x : BitVec w) :
    @ite _ c d (x + 1) x = x + @ite _ c d' 1 0 := by
  by_cases h : c <;> simp [h]

theorem join_incr (r : LongReal) : join r.incr.b r.incr.a = join r.b r.a + 1 := join_high_low _

theorem ite_incr {c : Prop} (d d' : Decidable c) (r : LongReal) :
    join (@ite _ c d r.incr r).b (@ite _ c d r.incr r).a = join r.b r.a + @ite _ c d' 1 0 := by
  by_cases h : c <;> simp [h, join_incr]

theorem pack_short (x y : BitVec 32) (s : Bool) :
    (let b := (x <<< 23) &&& 0x7f800000
     let b := if s then b ||| 0x80000000 else b
     b ||| (y &&& 0x007fffff)) = shortFields s (x.setWidth 8) (y.setWidth 23) := by
  apply BitVec.eq_of_getLsbD_eq
  intro i hi
  rw [getLsbD_shortFields _ _ _ hi, getLsbD_pack (by decide) (by decide) (by decide) x y s hi]
  rcases show i < 23 ∨ (23 ≤ i ∧ i < 31) ∨ i = 31 by omega with h | ⟨h, h'⟩ | h
  · simp [h]
  · simp [h', show ¬ i < 23 by omega, show i - 23 < 8 by omega]
  · simp [h]

/-- **`temp_to_short`, by fields.** -/
theorem tempToShort_eq (rc : Rounding) {t : TempReal} (h : t.exp ≠ 0) :
    tempToShort rc t =
      shortFields t.neg (t.exponent.setWidth 8 + 128) ((t.mant >>> 40).setWidth 23) +
        if shortCarry rc t then 1 else 0 := by
  have hpack := pack_short (t.exponent.signExtend 32 - 16383 + 127) (t.b.sshiftRight 8) t.neg
  have he : (t.exponent.signExtend 32 - 16383 + 127).setWidth 8 = t.exponent.setWidth 8 + 128 := by
    rw [BitVec.setWidth_add _ _ (by decide), BitVec.sub_eq_add_neg, BitVec.setWidth_add _ _ (by decide),
      setWidth_signExtend _ (by decide) (by decide), BitVec.add_assoc]
    rfl
  have hf : (t.b.sshiftRight 8).setWidth 23 = (t.mant >>> 40).setWidth 23 := by
    rw [setWidth_sshiftRight _ (by decide)]
    apply BitVec.eq_of_getLsbD_eq
    intro i hi
    simp only [TempReal.mant, join, BitVec.getLsbD_setWidth, BitVec.getLsbD_ushiftRight, BitVec.getLsbD_append]
    simp [show ¬ 40 + i < 32 by omega, show 40 + i - 32 = 8 + i by omega]
  rw [he, hf] at hpack
  unfold tempToShort
  rw [if_neg h]
  rw [← hpack]
  cases rc
  case zero => exact (BitVec.add_zero _).symm
  all_goals exact ite_add_one _ _ _

/-- The two words that `temp_to_long` puts together before it rounds. -/
theorem pack_long (x b a : BitVec 32) (s : Bool) :
    join (let w := (x <<< 20) &&& 0x7ff00000
          let w := if s then w ||| 0x80000000 else w
          w ||| ((b.sshiftRight 11) &&& 0x000fffff))
        ((b <<< 21) ||| ((a.sshiftRight 11) &&& 0x001fffff)) =
      longFields s (x.setWidth 11) ((join b a >>> 11).setWidth 52) := by
  have hmask : ∀ i < 32, (0x001fffff : BitVec 32).getLsbD i = decide (i < 21) := by decide
  apply BitVec.eq_of_getLsbD_eq
  intro i hi
  rw [getLsbD_longFields _ _ _ hi, join, BitVec.getLsbD_append]
  by_cases hlow : i < 32
  · rw [if_pos hlow, if_pos (by omega)]
    simp only [join, BitVec.getLsbD_or, BitVec.getLsbD_and, BitVec.getLsbD_shiftLeft, BitVec.getLsbD_sshiftRight,
      hmask i hlow, BitVec.getLsbD_setWidth, BitVec.getLsbD_ushiftRight, BitVec.getLsbD_append]
    by_cases h : i < 21
    · simp [h, show i < 52 by omega, show 11 + i < 32 by omega, show ¬ 32 ≤ i by omega]
    · simp [h, hlow, show i < 52 by omega, show ¬ 11 + i < 32 by omega, show 11 + i - 32 = i - 21 by omega]
  · rw [if_neg hlow, getLsbD_pack (by decide) (by decide) (by decide) x _ s (by omega)]
    simp only [join, BitVec.getLsbD_sshiftRight, BitVec.getLsbD_setWidth, BitVec.getLsbD_ushiftRight,
      BitVec.getLsbD_append]
    rcases show i < 52 ∨ (52 ≤ i ∧ i < 63) ∨ i = 63 by omega with h | ⟨h, h'⟩ | h
    · simp [h, show i - 32 < 20 by omega, show 11 + (i - 32) < 32 by omega, show ¬ 32 ≤ i - 32 by omega,
        show ¬ 11 + i < 32 by omega, show 11 + i - 32 = 11 + (i - 32) by omega]
    · simp [h', show ¬ i < 52 by omega, show ¬ i - 32 < 20 by omega, show i - 32 < 31 by omega,
        show i - 52 < 11 by omega, show i - 32 - 20 = i - 52 by omega]
    · simp [h]

/-- **`temp_to_long`, by fields.** -/
theorem tempToLong_eq (rc : Rounding) {t : TempReal} (h : t.exp ≠ 0) :
    join (tempToLong rc t).b (tempToLong rc t).a =
      longFields t.neg (t.exponent.setWidth 11 + 1024) ((t.mant >>> 11).setWidth 52) +
        if longCarry rc t then 1 else 0 := by
  have hpack := pack_long ((0x7fff &&& t.exponent.signExtend 32) - 16383 + 1023) t.b t.a t.neg
  have he : ((0x7fff &&& t.exponent.signExtend 32) - 16383 + 1023).setWidth 11 = t.exponent.setWidth 11 + 1024 := by
    rw [BitVec.setWidth_add _ _ (by decide), BitVec.sub_eq_add_neg, BitVec.setWidth_add _ _ (by decide),
      BitVec.setWidth_and, setWidth_signExtend _ (by decide) (by decide), BitVec.add_assoc, BitVec.and_comm]
    have hones : (0x7fff : BitVec 32).setWidth 11 = BitVec.allOnes 11 := by decide
    rw [hones, BitVec.and_allOnes]
    rfl
  rw [he] at hpack
  unfold tempToLong TempReal.mant
  rw [if_neg h, ← hpack]
  cases rc
  case zero => exact (BitVec.add_zero _).symm
  all_goals exact ite_incr _ _ _

/-! ## Loading -/

theorem and_ff_toNat_lt (x : BitVec 32) : (x &&& 0xff).toNat < 2 ^ 8 := by
  rw [BitVec.toNat_and]
  exact Nat.and_lt_two_pow _ (by decide)

theorem and_7ff_toNat_lt (x : BitVec 32) : (x &&& 0x7ff).toNat < 2 ^ 11 := by
  rw [BitVec.toNat_and]
  exact Nat.and_lt_two_pow _ (by decide)

/-- The rebiased exponent of a short real fits below the sign. -/
theorem short_exponent_toNat (x : BitVec 32) :
    (((x &&& 0xff) - 127 + 16383).setWidth 16).toNat = (x &&& 0xff).toNat + 16256 := by
  have hlt := and_ff_toNat_lt x
  rw [BitVec.toNat_setWidth]
  bv_omega

theorem long_exponent_toNat (x : BitVec 32) :
    (((x &&& 0x7ff) - 1023 + 16383).setWidth 16).toNat = (x &&& 0x7ff).toNat + 15360 := by
  have hlt := and_7ff_toNat_lt x
  rw [BitVec.toNat_setWidth]
  bv_omega

theorem and_7fffffff_eq_zero {x : BitVec 32} (h : x &&& 0x7fffffff = 0) :
    x = if x ≠ 0 then 0x80000000 else 0 := by
  have hbits : ∀ i < 32, x.getLsbD i = (decide (i = 31) && x.getLsbD 31) := by
    intro i hi
    have hmask : ∀ i < 32, (0x7fffffff : BitVec 32).getLsbD i = decide (i < 31) := by decide
    have hbit := congrArg (fun y => BitVec.getLsbD y i) h
    simp only [BitVec.getLsbD_and, hmask i hi] at hbit
    by_cases hlt : i < 31
    · simpa [hlt, show i ≠ 31 by omega] using hbit
    · simp [show i = 31 by omega]
  have hsign : ∀ i < 32, (0x80000000 : BitVec 32).getLsbD i = decide (i = 31) := by decide
  cases hmsb : x.getLsbD 31
  · have hx : x = 0 := by
      apply BitVec.eq_of_getLsbD_eq
      intro i hi
      rw [hbits i hi, hmsb]
      simp
    simp [hx]
  · have hx : x = 0x80000000 := by
      apply BitVec.eq_of_getLsbD_eq
      intro i hi
      rw [hbits i hi, hmsb, hsign i hi]
      simp
    rw [hx]
    decide

/-- What `short_to_temp` delivers of a short real that is not zero. -/
theorem shortToTemp_eq {s : ShortReal} (h : s &&& 0x7fffffff ≠ 0) :
    shortToTemp s = ⟨0, (s <<< 8) ||| 0x80000000,
      signed s.msb ((((s.sshiftRight 23) &&& 0xff) - 127 + 16383).setWidth 16)⟩ := by
  unfold shortToTemp signed
  rw [if_neg h]

theorem longToTemp_eq {d : LongReal} (h : ¬ (d.a = 0 ∧ d.b &&& 0x7fffffff = 0)) :
    longToTemp d = ⟨d.a <<< 11, (0x80000000 : BitVec 32) ||| (d.b <<< 11) ||| (d.a >>> 21),
      signed d.b.msb ((((d.b.sshiftRight 20) &&& 0x7ff) - 1023 + 16383).setWidth 16)⟩ := by
  unfold longToTemp signed
  rw [if_neg h]

theorem shortToTemp_exp {s : ShortReal} (h : s &&& 0x7fffffff ≠ 0) : (shortToTemp s).exp ≠ 0 := by
  have hlt := and_ff_toNat_lt (s.sshiftRight 23)
  have he := short_exponent_toNat (s.sshiftRight 23)
  rw [shortToTemp_eq h, TempReal.exp, signed_and (by omega)]
  intro hzero
  rw [hzero] at he
  simp at he

theorem longToTemp_exp {d : LongReal} (h : ¬ (d.a = 0 ∧ d.b &&& 0x7fffffff = 0)) : (longToTemp d).exp ≠ 0 := by
  have hlt := and_7ff_toNat_lt (d.b.sshiftRight 20)
  have he := long_exponent_toNat (d.b.sshiftRight 20)
  rw [longToTemp_eq h, TempReal.exp, signed_and (by omega)]
  intro hzero
  rw [hzero] at he
  simp at he

theorem shortToTemp_neg {s : ShortReal} (h : s &&& 0x7fffffff ≠ 0) : (shortToTemp s).neg = s.msb := by
  have hlt := and_ff_toNat_lt (s.sshiftRight 23)
  have he := short_exponent_toNat (s.sshiftRight 23)
  rw [shortToTemp_eq h, TempReal.neg, signed_msb (by omega)]

theorem longToTemp_neg {d : LongReal} (h : ¬ (d.a = 0 ∧ d.b &&& 0x7fffffff = 0)) :
    (longToTemp d).neg = d.b.msb := by
  have hlt := and_7ff_toNat_lt (d.b.sshiftRight 20)
  have he := long_exponent_toNat (d.b.sshiftRight 20)
  rw [longToTemp_eq h, TempReal.neg, signed_msb (by omega)]

/-- The exponent field comes back. -/
theorem shortToTemp_field {s : ShortReal} (h : s &&& 0x7fffffff ≠ 0) :
    (shortToTemp s).exponent.setWidth 8 + (128 : BitVec 8) = (s >>> 23).setWidth 8 := by
  rw [shortToTemp_eq h]
  dsimp only
  rw [signed_setWidth (by decide), BitVec.setWidth_setWidth_of_le _ (by decide), BitVec.sub_eq_add_neg,
    BitVec.setWidth_add _ _ (by decide), BitVec.setWidth_add _ _ (by decide), BitVec.setWidth_and,
    setWidth_sshiftRight _ (by decide)]
  have hones : (0xff : BitVec 32).setWidth 8 = BitVec.allOnes 8 := by decide
  rw [hones, BitVec.and_allOnes, BitVec.add_assoc, BitVec.add_assoc]
  exact BitVec.add_zero _

theorem longToTemp_field {d : LongReal} (h : ¬ (d.a = 0 ∧ d.b &&& 0x7fffffff = 0)) :
    (longToTemp d).exponent.setWidth 11 + (1024 : BitVec 11) = (join d.b d.a >>> 52).setWidth 11 := by
  rw [longToTemp_eq h]
  dsimp only
  rw [signed_setWidth (by decide), BitVec.setWidth_setWidth_of_le _ (by decide), BitVec.sub_eq_add_neg,
    BitVec.setWidth_add _ _ (by decide), BitVec.setWidth_add _ _ (by decide), BitVec.setWidth_and,
    setWidth_sshiftRight _ (by decide)]
  have hones : (0x7ff : BitVec 32).setWidth 11 = BitVec.allOnes 11 := by decide
  have hjoin : (join d.b d.a >>> 52).setWidth 11 = (d.b >>> 20).setWidth 11 := by
    apply BitVec.eq_of_getLsbD_eq
    intro i hi
    simp only [join, BitVec.getLsbD_setWidth, BitVec.getLsbD_ushiftRight, BitVec.getLsbD_append]
    simp [show ¬ 52 + i < 32 by omega, show 52 + i - 32 = 20 + i by omega]
  rw [hones, BitVec.and_allOnes, BitVec.add_assoc, BitVec.add_assoc, hjoin]
  exact BitVec.add_zero _

/-- The fraction comes back. -/
theorem shortToTemp_fraction {s : ShortReal} (h : s &&& 0x7fffffff ≠ 0) :
    ((shortToTemp s).mant >>> 40).setWidth 23 = s.setWidth 23 := by
  have hmask : ∀ i < 31, (0x80000000 : BitVec 32).getLsbD i = false := by decide
  rw [shortToTemp_eq h]
  apply BitVec.eq_of_getLsbD_eq
  intro i hi
  simp only [TempReal.mant, join, BitVec.getLsbD_setWidth, BitVec.getLsbD_ushiftRight, BitVec.getLsbD_append,
    BitVec.getLsbD_or, BitVec.getLsbD_shiftLeft]
  rw [if_neg (by omega), hmask _ (by omega)]
  simp [show 40 + i - 32 < 32 by omega, show ¬ 40 + i - 32 < 8 by omega, show 40 + i - 32 - 8 = i by omega]

theorem longToTemp_fraction {d : LongReal} (h : ¬ (d.a = 0 ∧ d.b &&& 0x7fffffff = 0)) :
    ((longToTemp d).mant >>> 11).setWidth 52 = (join d.b d.a).setWidth 52 := by
  have hmask : ∀ i < 31, (0x80000000 : BitVec 32).getLsbD i = false := by decide
  rw [longToTemp_eq h]
  apply BitVec.eq_of_getLsbD_eq
  intro i hi
  simp only [TempReal.mant, join, BitVec.getLsbD_setWidth, BitVec.getLsbD_ushiftRight, BitVec.getLsbD_append,
    BitVec.getLsbD_or, BitVec.getLsbD_shiftLeft]
  by_cases h21 : i < 21
  · rw [if_pos (by omega), if_pos (by omega)]
    simp [hi, show 11 + i < 32 by omega]
  · rw [if_neg (by omega), hmask _ (by omega)]
    by_cases h32 : i < 32
    · simp [h32, hi, show 11 + i - 32 < 11 by omega, show 21 + (11 + i - 32) = i by omega]
    · rw [if_neg h32, BitVec.getLsbD_of_ge d.a _ (show 32 ≤ 21 + (11 + i - 32) by omega)]
      simp [hi, show 11 + i - 32 < 32 by omega, show ¬ 11 + i - 32 < 11 by omega,
        show 11 + i - 32 - 11 = i - 32 by omega]

/-! ## Storing what was loaded -/

/-- The mantissa has no more bits than the fraction. -/
theorem shortToTemp_low {s : ShortReal} (h : s &&& 0x7fffffff ≠ 0) : (shortToTemp s).b &&& 0xff = 0 := by
  have hmask : ∀ i < 32, (0xff : BitVec 32).getLsbD i = decide (i < 8) := by decide
  have hsign : ∀ i < 8, (0x80000000 : BitVec 32).getLsbD i = false := by decide
  rw [shortToTemp_eq h]
  apply BitVec.eq_of_getLsbD_eq
  intro i hi
  simp only [BitVec.getLsbD_and, BitVec.getLsbD_or, BitVec.getLsbD_shiftLeft, hmask i hi]
  by_cases h8 : i < 8
  · rw [hsign i h8]
    simp [h8]
  · simp [h8]

theorem longToTemp_last {d : LongReal} (h : ¬ (d.a = 0 ∧ d.b &&& 0x7fffffff = 0)) :
    (longToTemp d).a &&& 0x7ff = 0 := by
  have hmask : ∀ i < 32, (0x7ff : BitVec 32).getLsbD i = decide (i < 11) := by decide
  rw [longToTemp_eq h]
  apply BitVec.eq_of_getLsbD_eq
  intro i hi
  simp only [BitVec.getLsbD_and, BitVec.getLsbD_shiftLeft, hmask i hi]
  by_cases h11 : i < 11 <;> simp [h11]

theorem shortToTemp_not_carry (rc : Rounding) {s : ShortReal} (h : s &&& 0x7fffffff ≠ 0) :
    ¬ shortCarry rc (shortToTemp s) := by
  have hlow := shortToTemp_low h
  cases rc <;> simp only [shortCarry, hlow] <;> simp

/-- **A short real comes back as it was loaded, in every mode.** -/
theorem tempToShort_shortToTemp (rc : Rounding) (s : ShortReal) : tempToShort rc (shortToTemp s) = s := by
  by_cases h : s &&& 0x7fffffff = 0
  · have hs := and_7fffffff_eq_zero h
    by_cases hz : s = 0
    · subst hz
      cases rc <;> decide
    · rw [if_pos hz] at hs
      subst hs
      cases rc <;> decide
  · rw [tempToShort_eq rc (shortToTemp_exp h), if_neg (shortToTemp_not_carry rc h), shortToTemp_neg h,
      shortToTemp_field h, shortToTemp_fraction h]
    exact (BitVec.add_zero _).trans (shortFields_self s)

/-- Bits 21 to 28 of the low word of the long real arrive where `temp_to_long` looks. -/
theorem longToTemp_low {d : LongReal} (h : ¬ (d.a = 0 ∧ d.b &&& 0x7fffffff = 0)) :
    (longToTemp d).b &&& (0xff : BitVec 32) = (d.a >>> 21) &&& (0xff : BitVec 32) := by
  have hmask : ∀ i < 32, (0xff : BitVec 32).getLsbD i = decide (i < 8) := by decide
  have hsign : ∀ i < 8, (0x80000000 : BitVec 32).getLsbD i = false := by decide
  rw [longToTemp_eq h]
  apply BitVec.eq_of_getLsbD_eq
  intro i hi
  simp only [BitVec.getLsbD_and, BitVec.getLsbD_or, BitVec.getLsbD_shiftLeft, hmask i hi]
  by_cases h8 : i < 8
  · rw [hsign i h8]
    simp [h8, show i < 11 by omega]
  · simp [h8]

theorem longToTemp_carry (rc : Rounding) {d : LongReal} (h : ¬ (d.a = 0 ∧ d.b &&& 0x7fffffff = 0)) :
    longCarry rc (longToTemp d) ↔
      ((rc = .down ∧ d.b.msb) ∨ (rc = .up ∧ ¬ d.b.msb)) ∧ (d.a >>> 21) &&& (0xff : BitVec 32) ≠ 0 := by
  have hlow := longToTemp_last h
  cases rc
  · simp only [longCarry, hlow]
    simp
  · simp only [longCarry, longToTemp_low h, longToTemp_neg h]
    simp
  · simp only [longCarry, longToTemp_low h, longToTemp_neg h]
    simp
  · simp [longCarry]

/-- The long reals that come back as they were loaded: `temp_to_long` rounds toward an infinity by the low bits of the
wrong word, so that a number that needs no rounding is rounded unless those are zero. -/
def LongKept (rc : Rounding) (d : LongReal) : Prop :=
  (d.a = 0 ∧ d.b &&& 0x7fffffff = 0) ∨ rc = .nearest ∨ rc = .zero ∨ (rc = .down ∧ ¬ d.b.msb) ∨
    (rc = .up ∧ d.b.msb) ∨ (d.a >>> 21) &&& (0xff : BitVec 32) = 0

theorem join_tempToLong_longToTemp (rc : Rounding) {d : LongReal} (h : ¬ (d.a = 0 ∧ d.b &&& 0x7fffffff = 0)) :
    join (tempToLong rc (longToTemp d)).b (tempToLong rc (longToTemp d)).a =
      join d.b d.a + if longCarry rc (longToTemp d) then 1 else 0 := by
  have hmsb : d.b.msb = (join d.b d.a).msb := by
    simp only [join, BitVec.msb_append]
    rfl
  rw [tempToLong_eq rc (longToTemp_exp h), longToTemp_neg h, longToTemp_field h, longToTemp_fraction h, hmsb,
    longFields_self]

theorem join_inj {r q : LongReal} : join r.b r.a = join q.b q.a ↔ r = q := by
  constructor
  · intro h
    have ha := congrArg low h
    have hb := congrArg high h
    rw [low_join, low_join] at ha
    rw [high_join, high_join] at hb
    cases r
    cases q
    simp_all
  · rintro rfl
    rfl

/-- **When a long real comes back as it was loaded.** -/
theorem tempToLong_longToTemp (rc : Rounding) (d : LongReal) :
    tempToLong rc (longToTemp d) = d ↔ LongKept rc d := by
  by_cases h : d.a = 0 ∧ d.b &&& 0x7fffffff = 0
  · have hd := and_7fffffff_eq_zero h.2
    have hkept : LongKept rc d := .inl h
    refine iff_of_true ?_ hkept
    have heq : d = ⟨0, if d.b ≠ 0 then 0x80000000 else 0⟩ := by
      rw [← hd, ← h.1]
    by_cases hz : d.b = 0
    · rw [if_neg (by simpa using hz)] at heq
      subst heq
      cases rc <;> decide
    · rw [if_pos hz] at heq
      subst heq
      cases rc <;> decide
  · have hcarry : longCarry rc (longToTemp d) ↔ ¬ LongKept rc d := by
      rw [longToTemp_carry rc h, LongKept, or_iff_right h]
      cases rc <;> cases d.b.msb <;> simp
    rw [← join_inj, join_tempToLong_longToTemp rc h]
    constructor
    · intro hsame
      by_contra hkept
      rw [if_pos (hcarry.2 hkept)] at hsame
      exact absurd hsame (by bv_omega)
    · intro hkept
      rw [if_neg (fun hc => hcarry.1 hc hkept)]
      exact BitVec.add_zero _

/-- **What is loaded and stored again is the same, exactly where `temp_to_long` does not round a number that needs no
rounding.** Short reals come back in every mode. -/
theorem real_load_store_iff (rc : Rounding) (s : ShortReal) (d : LongReal) :
    (tempToShort rc (shortToTemp s) = s ∧ tempToLong rc (longToTemp d) = d) ↔ LongKept rc d := by
  rw [tempToLong_longToTemp]
  exact and_iff_right (tempToShort_shortToTemp rc s)

/-- The number 2 + 2⁻³⁰ is stored as its successor when rounding up. -/
theorem real_load_store_changes :
    tempToLong .up (longToTemp ⟨0x00200000, 0x40000000⟩) ≠ ⟨0x00200000, 0x40000000⟩ := by
  decide

end Math
end Linux095
