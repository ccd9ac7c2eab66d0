import Linux095.Math.Arithmetic
import Linux095.Math.Difference
import Linux095.Math.RoundedReals

/-!
# `Math.Compare` — FCOM, FUCOM and the like in the FPU emulator

* `comparison` — what each code stands for: the operand, and how often it pops;
* `doEmu_comparison` — what `do_emu` does for such a code: two of the cases compare with a variable that is not
  initialised, and store it;
* `loaded_value` — an operand in memory is the number that it was loaded from;
* `comparison_iff` — **when the flags are those of the comparison, and nothing else changes**.
-/

namespace Linux095
namespace Math
open I387 Floats

/-! ## What the codes stand for -/

/-- An instruction that compares ST(0) with an operand. -/
structure Comparison where
  src : Operand
  pops : Nat
  deriving DecidableEq

/-- How often a code of two registers pops, by its first and its third field. -/
def comparisonPops : Nat → Nat → Option Nat
  | 0, 2 | 4, 2 | 5, 4 => some 0
  | 0, 3 | 4, 3 | 5, 5 | 6, 2 => some 1
  | _, _ => none

/-- **What a code stands for.** -/
def comparison (code : BitVec 11) : Option Comparison :=
  let first := code.toNat / 256
  let reg := code.toNat / 8 % 8
  -- FUCOMPP and FCOMPP
  if code.toNat = 0x2e9 ∨ code.toNat = 0x6d9 then some ⟨.reg 1, 2⟩
  else if code.toNat / 64 % 4 = 3 then (comparisonPops first reg).map fun n => ⟨.reg (code.toNat % 8), n⟩
  else (memoryOperand first).bind fun src =>
    if reg = 2 then some ⟨src, 0⟩ else if reg = 3 then some ⟨src, 1⟩ else none

/-! ## The flags -/

section Flags

variable (t x y : TempReal) (swd : BitVec 32)

theorem normalizeBy_fst_le {w : Nat} (n : Nat) (m : BitVec w) : (normalizeBy n m).1 ≤ n := by
  induction n generalizing m with
  | zero => exact Nat.le_refl 0
  | succ n ih =>
      unfold normalizeBy
      split
      · exact Nat.le_refl _
      · exact Nat.le_succ_of_le (ih _)

theorem normalize_of_zero {t : TempReal} (h : t.mant = 0) : normalize t = real 0 0 := by
  unfold normalize
  rw [if_pos h]

theorem normalize_mant {t : TempReal} (h : t.mant ≠ 0) : (normalize t).mant ≠ 0 := by
  unfold normalize
  rw [if_neg h]
  dsimp only
  rw [mant_real]
  exact normalizeBy_ne_zero _ h

theorem normalize_neg {t : TempReal} (h : t.mant ≠ 0) : (normalize t).neg = t.neg := by
  have hle := normalizeBy_fst_le t.exp.toNat t.mant
  have hlt := exp_lt t
  have hsmall : (BitVec.ofNat 16 (normalizeBy t.exp.toNat t.mant).1).msb = false := by
    rw [BitVec.msb_eq_false_iff_two_mul_lt, BitVec.toNat_ofNat]
    omega
  have hmask : (0x8000 : BitVec 16).msb = true := rfl
  unfold normalize
  rw [if_neg h]
  show (BitVec.ofNat 16 (normalizeBy t.exp.toNat t.mant).1 ||| (t.exponent &&& 0x8000)).msb = t.exponent.msb
  rw [BitVec.msb_or, BitVec.msb_and, hsmall, hmask, Bool.and_true, Bool.false_or]

/-- `ftst` sets C3 for zero, and C0 for what is below it. -/
theorem ftst_eq : ftst t swd = (swd &&& ~~~0x4500) |||
    (if t.mant = 0 then 0x4000 else if t.neg then 0x0100 else 0) := by
  unfold ftst
  dsimp only
  by_cases h : t.mant = 0
  · have hzero : ¬ ((normalize t).mant ≠ 0 ∨ (normalize t).exponent ≠ 0) := by
      rw [normalize_of_zero h, mant_real]
      decide
    rw [if_neg hzero, if_pos h]
  · rw [if_pos (Or.inl (normalize_mant h)), if_neg h, normalize_neg h]
    cases t.neg with
    | false => exact BitVec.or_zero.symm
    | true => rfl

/-- A flag is clear, and then set or not. -/
theorem flag_eq {k : Nat} {b : BitVec 32} (hk : (~~~0x4500 : BitVec 32).getLsbD k = false) :
    ((swd &&& ~~~0x4500) ||| b).getLsbD k = b.getLsbD k := by
  rw [BitVec.getLsbD_or, BitVec.getLsbD_and, hk, Bool.and_false, Bool.false_or]

theorem fcom_C3 : (fcom y x swd).getLsbD 14 = true ↔ (fadd y.negate x).mant = 0 := by
  unfold fcom
  rw [ftst_eq, flag_eq swd (by decide)]
  split
  · next h => exact iff_of_true rfl h
  · next h => exact iff_of_false (by split <;> decide) h

theorem fcom_C0 :
    (fcom y x swd).getLsbD 8 = true ↔ (fadd y.negate x).mant ≠ 0 ∧ (fadd y.negate x).neg = true := by
  unfold fcom
  rw [ftst_eq, flag_eq swd (by decide)]
  split
  · next h => exact iff_of_false (by decide) fun hn => hn.1 h
  · next h =>
      split
      · next hneg => exact iff_of_true rfl ⟨h, hneg⟩
      · next hneg => exact iff_of_false (by decide) fun hn => hneg hn.2

theorem fcom_C2 : (fcom y x swd).getLsbD 10 = false := by
  unfold fcom
  rw [ftst_eq, flag_eq swd (by decide)]
  split
  · rfl
  · split <;> rfl

/-- The place of the registers stays. -/
theorem fcom_place {k : Nat} (hk : k < 3) : (fcom y x swd).getLsbD (11 + k) = swd.getLsbD (11 + k) := by
  unfold fcom
  rw [ftst_eq]
  obtain rfl | rfl | rfl : k = 0 ∨ k = 1 ∨ k = 2 := by omega
  all_goals
    split
    · simp
    · split <;> simp

end Flags

/-! ## What `do_emu` does -/

/-- The operand that `do_emu` works with: a 16-bit integer is not loaded. -/
def Comparison.loaded (c : Comparison) (tmp : TempReal) (m : Mem) (s : I387) : TempReal :=
  match c.src with
  | .shortInt => tmp
  | src => src.value m s

/-- "switch (code >> 3)" has two cases for these that are not like the others. -/
def Swapped (code : BitVec 11) : Prop := code.toNat / 8 = 0x1a ∨ code.toNat / 8 = 0x1b

section Run

variable {tmp : TempReal} {m : Mem} {s : I387} {code : BitVec 11} {c : Comparison}

theorem comparisonPops_cases {first reg n : Nat} (h : comparisonPops first reg = some n) :
    (first = 0 ∧ reg = 2 ∧ n = 0) ∨ (first = 0 ∧ reg = 3 ∧ n = 1) ∨ (first = 4 ∧ reg = 2 ∧ n = 0) ∨
      (first = 4 ∧ reg = 3 ∧ n = 1) ∨ (first = 5 ∧ reg = 4 ∧ n = 0) ∨ (first = 5 ∧ reg = 5 ∧ n = 1) ∨
      (first = 6 ∧ reg = 2 ∧ n = 1) := by
  unfold comparisonPops at h
  split at h <;> cases h <;> omega

/-- The two cases compare with `tmp`, which nothing was put into, and put it into ST(0). -/
theorem doEmu_swapped (h : comparison code = some c) (hs : Swapped code) : doEmu tmp m code s =
    some (fpop^[c.pops] ((s.start.com (c.src.value m s.start) tmp).setST 0 tmp)) := by
  have hlt : code.toNat < 2048 := code.isLt
  unfold Swapped at hs
  unfold comparison at h
  dsimp only at h
  rw [if_neg (by omega), if_pos (by omega)] at h
  obtain ⟨n, hn, rfl⟩ := Option.map_eq_some_iff.1 h
  rw [doEmu_reg rfl (by omega) (by omega) (by omega)]
  rcases hs with hs | hs
  · have hn0 : n = 0 := by
      have hcases := comparisonPops_cases hn
      omega
    rw [hs, hn0]
    rfl
  · have hn1 : n = 1 := by
      have hcases := comparisonPops_cases hn
      omega
    rw [hs, hn1]
    rfl

/-- **The other cases compare with the operand.** -/
theorem doEmu_comparison (h : comparison code = some c) (hs : ¬ Swapped code) : doEmu tmp m code s =
    some (fpop^[c.pops] (s.start.com (c.loaded tmp m s.start) (s.start.ST 0))) := by
  have hlt : code.toNat < 2048 := code.isLt
  unfold Swapped at hs
  unfold comparison at h
  dsimp only at h
  split at h
  · next htwice =>
      cases h
      unfold doEmu
      dsimp only
      rcases htwice with hc | hc
      · rw [if_neg (by omega), if_neg (by omega), if_neg (by omega), if_pos hc]
        rfl
      · rw [if_neg (by omega), if_neg (by omega), if_neg (by omega), if_neg (by omega), if_pos hc]
        rfl
  next htwice =>
  split at h
  · next hmod =>
      obtain ⟨n, hn, rfl⟩ := Option.map_eq_some_iff.1 h
      obtain ⟨h0, h2, -⟩ | ⟨h0, h3, -⟩ | ⟨h4, h2, rfl⟩ | ⟨h4, h3, rfl⟩ | ⟨h5, h4, rfl⟩ | ⟨h5, h5', rfl⟩ |
        ⟨h6, h2, rfl⟩ := comparisonPops_cases hn
      · omega
      · omega
      · have hg : code.toNat / 8 = 0x9a := by omega
        rw [doEmu_reg hg (by decide) (by decide) (by decide)]
        rfl
      · have hg : code.toNat / 8 = 0x9b := by omega
        rw [doEmu_reg hg (by decide) (by decide) (by decide)]
        rfl
      · have hg : code.toNat / 8 = 0xbc := by omega
        rw [doEmu_reg hg (by decide) (by decide) (by decide)]
        rfl
      · have hg : code.toNat / 8 = 0xbd := by omega
        rw [doEmu_reg hg (by decide) (by decide) (by decide)]
        rfl
      · have hg : code.toNat / 8 = 0xda := by omega
        rw [doEmu_reg hg (by decide) (by decide) (by decide)]
        rfl
  · next hmod =>
      obtain ⟨src, hsrc, hrest⟩ := Option.bind_eq_some_iff.1 h
      obtain ⟨other, hrun⟩ := doEmu_memory tmp m s hmod hsrc .add
      have hloaded : Instr.loaded ⟨.add, 0, src, 0⟩ tmp m s.start = Comparison.loaded ⟨src, 0⟩ tmp m s.start := by
        cases src <;> rfl
      rw [hrun, hloaded]
      split at hrest
      · next h2 =>
          cases hrest
          rw [h2]
          rfl
      split at hrest
      · next h3' =>
          cases hrest
          rw [h3']
          rfl
      · cases hrest

end Run

/-! ## The operands -/

/-- Normalised and finite, or zero. -/
def ShortReal.Ordinary (x : ShortReal) : Prop :=
  (1 ≤ x.toNat % 2 ^ 31 / 2 ^ 23 ∧ x.toNat % 2 ^ 31 / 2 ^ 23 < 0xff) ∨ x.toNat % 2 ^ 31 = 0

def LongReal.Ordinary (x : LongReal) : Prop :=
  (1 ≤ (join x.b x.a).toNat % 2 ^ 63 / 2 ^ 52 ∧ (join x.b x.a).toNat % 2 ^ 63 / 2 ^ 52 < 0x7ff) ∨
    (join x.b x.a).toNat % 2 ^ 63 = 0

/-- The operand is the number `q`: a real is normalised and finite, or zero. -/
def Operand.Holds (m : Mem) (s : I387) (q : ℚ) : Operand → Prop
  | .reg i => (s.ST i).Ordinary ∧ (s.ST i).value = q
  | .shortReal => ShortReal.Ordinary m.shortReal ∧ ShortReal.value m.shortReal = some q
  | .longReal => LongReal.Ordinary m.longReal ∧ LongReal.value m.longReal = some q
  | .longInt => (m.longInt.toInt : ℚ) = q
  | .shortInt => (m.shortInt.toInt : ℚ) = q

section Operands

variable {t : TempReal} {q : ℚ}

/-- A number that is not zero, with `p` bits of fraction. -/
theorem value_of_fields {p w off e f : ℕ} {neg : Bool} (hp : p ≤ 63) (hw : e < 2 ^ w - 1) (he : 1 ≤ e) (hf : f < 2 ^ p)
    (hneg : t.neg = neg) (hexp : t.exp.toNat = e + off) (hmant : t.mant.toNat = (2 ^ p + f) * 2 ^ (63 - p)) :
    realValue p w ((off + 64 - p : ℕ) - 16446) neg (e * 2 ^ p + f) = some t.value := by
  obtain ⟨k, rfl⟩ : ∃ k, e = k + 1 := ⟨e - 1, by omega⟩
  have hmax : max t.exp.toNat 1 = t.exp.toNat := Nat.max_eq_left (by omega)
  have hsum : 63 - p + (k + 1 + off) = k + (off + 64 - p) := by omega
  have hpow : ∀ n : ℕ, (2 : ℚ) ^ ((n : ℤ) - 16446) = 2 ^ n * 2 ^ (-16446 : ℤ) := by
    intro n
    rw [sub_eq_add_neg, zpow_add₀ two_ne_zero, zpow_natCast]
  unfold realValue
  rw [field_div hf, if_neg (by omega), pattern_succ hf.le, TempReal.value, hmax, hexp, hneg, hmant, hpow, hpow]
  have hmul : ((2 ^ p + f) * 2 ^ (63 - p) * 2 ^ (k + 1 + off) : ℕ) = (2 ^ p + f) * 2 ^ k * 2 ^ (off + 64 - p) := by
    rw [Nat.mul_assoc, ← Nat.pow_add, hsum, Nat.pow_add, Nat.mul_assoc]
  have hcast := congrArg (Nat.cast : ℕ → ℚ) hmul
  rw [Nat.cast_mul, Nat.cast_mul _ (2 ^ (off + 64 - p)), Nat.cast_pow, Nat.cast_pow, Nat.cast_ofNat] at hcast
  rw [Option.some_inj, mul_assoc, mul_assoc, ← mul_assoc (Nat.cast _), ← mul_assoc (Nat.cast _), hcast]

theorem short_exp {x : ShortReal} (h : x &&& 0x7fffffff ≠ 0) :
    (shortToTemp x).exp.toNat = x.toNat % 2 ^ 31 / 2 ^ 23 + 16256 := by
  have hlt := and_ff_toNat_lt (x.sshiftRight 23)
  have he := short_exponent_toNat (x.sshiftRight 23)
  have hfield : ((x.sshiftRight 23) &&& 0xff).toNat = x.toNat % 2 ^ 31 / 2 ^ 23 := by
    rw [and_ff_toNat]
    have hset := congrArg BitVec.toNat (setWidth_sshiftRight x (show 23 + 8 ≤ 32 by decide))
    rw [BitVec.toNat_setWidth, BitVec.toNat_setWidth, BitVec.toNat_ushiftRight, Nat.shiftRight_eq_div_pow] at hset
    omega
  rw [shortToTemp_eq h, TempReal.exp, signed_and (by omega), he, hfield]

theorem long_exp {x : LongReal} (h : ¬ (x.a = 0 ∧ x.b &&& 0x7fffffff = 0)) :
    (longToTemp x).exp.toNat = (join x.b x.a).toNat % 2 ^ 63 / 2 ^ 52 + 15360 := by
  have hlt := and_7ff_toNat_lt (x.b.sshiftRight 20)
  have he := long_exponent_toNat (x.b.sshiftRight 20)
  have hfield : ((x.b.sshiftRight 20) &&& 0x7ff).toNat = (join x.b x.a).toNat % 2 ^ 63 / 2 ^ 52 := by
    rw [and_7ff_toNat, toNat_join]
    have hset := congrArg BitVec.toNat (setWidth_sshiftRight x.b (show 20 + 11 ≤ 32 by decide))
    have ha := x.a.isLt
    rw [BitVec.toNat_setWidth, BitVec.toNat_setWidth, BitVec.toNat_ushiftRight, Nat.shiftRight_eq_div_pow] at hset
    omega
  rw [longToTemp_eq h, TempReal.exp, signed_and (by omega), he, hfield]

/-- The first bit is set. -/
theorem top_of_word (h : t.b.msb = true) : 2 ^ 63 ≤ t.mant.toNat := by
  have hge := BitVec.msb_eq_true_iff_two_mul_ge.1 h
  rw [t.mant_toNat]
  omega

/-- A mantissa of the first bit, a fraction, and nothing after it. -/
theorem mant_of_parts {k p m f : ℕ} (hp : k + p = 63) (hge : 2 ^ 63 ≤ m) (hlt : m < 2 ^ 64) (hlow : m % 2 ^ k = 0)
    (hf : m / 2 ^ k % 2 ^ p = f) : m = (2 ^ p + f) * 2 ^ k := by
  have hpow : 2 ^ 63 = 2 ^ p * 2 ^ k := by rw [← Nat.pow_add, Nat.add_comm, hp]
  have hpow' : 2 ^ 64 = 2 * 2 ^ p * 2 ^ k := by
    rw [Nat.mul_assoc, ← hpow]
    rfl
  have hk := Nat.two_pow_pos k
  have hle : 2 ^ p ≤ m / 2 ^ k := (Nat.le_div_iff_mul_le hk).2 (by rwa [← hpow])
  have hless : m / 2 ^ k < 2 * 2 ^ p := (Nat.div_lt_iff_lt_mul hk).2 (by rwa [← hpow'])
  have hmod : m / 2 ^ k % 2 ^ p = m / 2 ^ k - 2 ^ p := by
    rw [Nat.mod_eq_sub_mod hle, Nat.mod_eq_of_lt (by omega)]
  have hsum : 2 ^ p + f = m / 2 ^ k := by omega
  rw [hsum, Nat.div_mul_cancel (Nat.dvd_of_mod_eq_zero hlow)]

theorem short_mant {x : ShortReal} (h : x &&& 0x7fffffff ≠ 0) :
    (shortToTemp x).mant.toNat = (2 ^ 23 + x.toNat % 2 ^ 23) * 2 ^ (63 - 23) := by
  have htop : (shortToTemp x).b.msb = true := by
    rw [shortToTemp_eq h]
    dsimp only
    rw [BitVec.msb_or]
    exact Bool.or_true _
  have hge := top_of_word htop
  have hlow := congrArg BitVec.toNat (shortToTemp_low h)
  rw [and_ff_toNat] at hlow
  have ha : (shortToTemp x).a.toNat = 0 := by
    rw [shortToTemp_eq h]
    rfl
  have hfraction := congrArg BitVec.toNat (shortToTemp_fraction h)
  rw [BitVec.toNat_setWidth, BitVec.toNat_setWidth, BitVec.toNat_ushiftRight, Nat.shiftRight_eq_div_pow] at hfraction
  refine mant_of_parts (by decide) hge (shortToTemp x).mant.isLt ?_ hfraction
  change (shortToTemp x).b.toNat % 2 ^ 8 = 0 at hlow
  rw [TempReal.mant_toNat, ha]
  omega

theorem long_mant {x : LongReal} (h : ¬ (x.a = 0 ∧ x.b &&& 0x7fffffff = 0)) :
    (longToTemp x).mant.toNat = (2 ^ 52 + (join x.b x.a).toNat % 2 ^ 52) * 2 ^ (63 - 52) := by
  have htop : (longToTemp x).b.msb = true := by
    rw [longToTemp_eq h]
    dsimp only
    rw [BitVec.msb_or, BitVec.msb_or]
    exact Bool.true_or _
  have hge := top_of_word htop
  have hlow := congrArg BitVec.toNat (longToTemp_last h)
  rw [and_7ff_toNat] at hlow
  have hfraction := congrArg BitVec.toNat (longToTemp_fraction h)
  rw [BitVec.toNat_setWidth, BitVec.toNat_setWidth, BitVec.toNat_ushiftRight, Nat.shiftRight_eq_div_pow] at hfraction
  refine mant_of_parts (by decide) hge (longToTemp x).mant.isLt ?_ hfraction
  change (longToTemp x).a.toNat % 2 ^ 11 = 0 at hlow
  rw [TempReal.mant_toNat]
  omega

theorem ordinary_of_parts {k p f : ℕ} (hp : k + p = 63) (hmant : t.mant.toNat = (2 ^ p + f) * 2 ^ k)
    (he : 1 ≤ t.exp.toNat) (he' : t.exp.toNat < 0x7fff) : t.Ordinary := by
  refine Or.inl ⟨?_, he, he'⟩
  have hpow : 2 ^ 63 = 2 ^ p * 2 ^ k := by rw [← Nat.pow_add, Nat.add_comm, hp]
  have hle : 2 ^ 63 ≤ t.mant.toNat := by
    rw [hpow, hmant]
    exact Nat.mul_le_mul_right _ (Nat.le_add_right _ _)
  rw [BitVec.msb_eq_true_iff_two_mul_ge]
  omega

/-- Zero, with a sign. -/
theorem zero_loaded {c : Prop} [Decidable c] (h : t = ⟨0, 0, if c then 0x8000 else 0⟩) :
    t.Ordinary ∧ t.value = 0 := by
  have hmant : t.mant = 0 := by
    rw [h]
    exact (by decide : join 0 0 = 0)
  have hexp : t.exp.toNat = 0 := by
    rw [h]
    split <;> rfl
  have hzero : t.mant.toNat = 0 := by
    rw [hmant]
    rfl
  refine ⟨Or.inr ⟨hmant, hexp⟩, ?_⟩
  unfold TempReal.value
  rw [hzero, Nat.cast_zero, mul_zero, zero_mul]

theorem short_value {x : ShortReal} (hx : ShortReal.Ordinary x) (hq : ShortReal.value x = some q) :
    (shortToTemp x).Ordinary ∧ (shortToTemp x).value = q := by
  have hand : (x &&& 0x7fffffff).toNat = x.toNat % 2 ^ 31 := by
    rw [BitVec.toNat_and]
    exact Nat.and_two_pow_sub_one_eq_mod _ 31
  rcases hx with ⟨hge, hlt⟩ | hzero
  · have hne : x &&& 0x7fffffff ≠ 0 := by
      intro h0
      rw [h0] at hand
      change 0 = _ at hand
      omega
    have hfields : x.toNat % 2 ^ 31 = x.toNat % 2 ^ 31 / 2 ^ 23 * 2 ^ 23 + x.toNat % 2 ^ 23 := by omega
    have hmant := short_mant hne
    have hexp := short_exp hne
    have hvalue := value_of_fields (w := 8) (by decide) (by omega) hge (Nat.mod_lt _ (by decide)) (shortToTemp_neg hne)
      hexp hmant
    refine ⟨ordinary_of_parts (by decide) hmant (by omega) (by omega), ?_⟩
    unfold ShortReal.value at hq
    rw [hfields, short_emin, hvalue] at hq
    exact Option.some.inj hq
  · have h0 : x &&& 0x7fffffff = 0 := BitVec.eq_of_toNat_eq (by rw [hand, hzero]; rfl)
    obtain ⟨hordinary, hvalue⟩ := zero_loaded (if_pos h0 : shortToTemp x = _)
    unfold ShortReal.value realValue at hq
    rw [hzero, Nat.zero_div, if_neg (by decide), pattern_zero (Nat.zero_le _), Nat.cast_zero, mul_zero, zero_mul] at hq
    exact ⟨hordinary, hvalue.trans (Option.some.inj hq)⟩

theorem long_value {x : LongReal} (hx : x.Ordinary) (hq : x.value = some q) :
    (longToTemp x).Ordinary ∧ (longToTemp x).value = q := by
  have hand : (x.b &&& 0x7fffffff).toNat = x.b.toNat % 2 ^ 31 := by
    rw [BitVec.toNat_and]
    exact Nat.and_two_pow_sub_one_eq_mod _ 31
  have hsplit := toNat_join x.b x.a
  have ha := x.a.isLt
  rcases hx with ⟨hge, hlt⟩ | hzero
  · have hne : ¬ (x.a = 0 ∧ x.b &&& 0x7fffffff = 0) := by
      rintro ⟨ha0, hb0⟩
      rw [hb0] at hand
      have ha0' : x.a.toNat = 0 := by
        rw [ha0]
        rfl
      change 0 = _ at hand
      omega
    have hneg : (longToTemp x).neg = (join x.b x.a).msb := by
      rw [longToTemp_neg hne, BitVec.msb_eq_decide, BitVec.msb_eq_decide, hsplit]
      exact decide_eq_decide.2 (by omega)
    have hfields : (join x.b x.a).toNat % 2 ^ 63 =
        (join x.b x.a).toNat % 2 ^ 63 / 2 ^ 52 * 2 ^ 52 + (join x.b x.a).toNat % 2 ^ 52 := by omega
    have hmant := long_mant hne
    have hexp := long_exp hne
    have hvalue := value_of_fields (w := 11) (by decide) (by omega) hge (Nat.mod_lt _ (by decide)) hneg hexp hmant
    refine ⟨ordinary_of_parts (by decide) hmant (by omega) (by omega), ?_⟩
    unfold LongReal.value at hq
    rw [hfields, long_emin, hvalue] at hq
    exact Option.some.inj hq
  · have h0 : x.a = 0 ∧ x.b &&& 0x7fffffff = 0 := by
      constructor
      · exact BitVec.eq_of_toNat_eq (by change _ = 0; omega)
      · exact BitVec.eq_of_toNat_eq (by rw [hand]; change _ = 0; omega)
    obtain ⟨hordinary, hvalue⟩ := zero_loaded (if_pos h0 : longToTemp x = _)
    unfold LongReal.value realValue at hq
    rw [hzero, Nat.zero_div, if_neg (by decide), pattern_zero (Nat.zero_le _), Nat.cast_zero, mul_zero, zero_mul] at hq
    exact ⟨hordinary, hvalue.trans (Option.some.inj hq)⟩

theorem ordinary_normalized {neg : Bool} {e : BitVec 16} {m : BitVec 64} (hm : m.toNat ≠ 0)
    (he : e.toNat = 16446 + if neg then 2 ^ 15 else 0) : (normalized e m).Ordinary := by
  obtain ⟨j, hj, heq, hge, hlt⟩ := normalizeLoop_spec 63 e m (Nat.le_mul_of_pos_left _ (Nat.pos_of_ne_zero hm))
  have hexponent : (normalized e m).exponent.toNat = (16446 - j) + if neg then 2 ^ 15 else 0 := by
    rw [normalized, heq]
    show (e - BitVec.ofNat 16 j).toNat = _
    rw [BitVec.toNat_sub, BitVec.toNat_ofNat, he]
    split <;> omega
  obtain ⟨-, hexp⟩ := neg_exp_of_exponent (by omega) hexponent
  have hmant : (normalized e m).mant.toNat = m.toNat * 2 ^ j := by
    rw [normalized, heq, TempReal.mant, join_high_low, BitVec.toNat_ofNat, Nat.mod_eq_of_lt hlt]
  refine Or.inl ⟨?_, by omega, by omega⟩
  rw [BitVec.msb_eq_true_iff_two_mul_ge, hmant]
  omega

/-- A 32-bit integer is loaded as it is. -/
theorem longInt_value (w : BitVec 32) : (getLongInt w).Ordinary ∧ (getLongInt w).value = (w.toInt : ℚ) := by
  by_cases hw : w = 0
  · subst hw
    have hload : getLongInt 0 = ⟨0, 0, if False then 0x8000 else 0⟩ := by decide
    obtain ⟨hordinary, hvalue⟩ := zero_loaded hload
    exact ⟨hordinary, hvalue.trans (by simp)⟩
  · have hne : ¬ ((if w.msb then -w else w) = 0 ∧ (0 : BitVec 32) = 0) := fun h => hw ((abs_eq_zero w).1 h.1)
    have hjoin : (join 0 (if w.msb then -w else w)).toNat = w.toInt.natAbs := by
      have hcond := BitVec.toInt_eq_msb_cond w
      have hlt := w.isLt
      rw [toNat_join]
      cases hmsb : w.msb with
      | false =>
          rw [hmsb, if_neg Bool.false_ne_true] at hcond
          rw [if_neg Bool.false_ne_true]
          change 0 * 2 ^ 32 + w.toNat = _
          omega
      | true =>
          have hge := BitVec.msb_eq_true_iff_two_mul_ge.1 hmsb
          rw [hmsb, if_pos rfl] at hcond
          rw [if_pos rfl, BitVec.toNat_neg]
          change 0 * 2 ^ 32 + _ = _
          omega
    have hload : getLongInt w = normalized (16383 + 63 + if w.msb then 0x8000 else 0)
        (join 0 (if w.msb then -w else w)) := if_neg hne
    have hm : (join 0 (if w.msb then -w else w)).toNat ≠ 0 := by
      rw [hjoin]
      intro h0
      exact hw (BitVec.eq_of_toInt_eq (Int.natAbs_eq_zero.1 h0))
    have he : (16383 + 63 + if w.msb then 0x8000 else 0 : BitVec 16).toNat = 16446 + if w.msb then 2 ^ 15 else 0 := by
      cases w.msb <;> rfl
    rw [hload]
    refine ⟨ordinary_normalized hm he, (value_normalized hm he).trans ?_⟩
    have hsign : sgn w.msb * (w.toInt.natAbs : ℤ) = w.toInt := by
      rw [BitVec.msb_eq_toInt]
      by_cases hneg : w.toInt < 0
      · rw [decide_eq_true hneg]
        exact (neg_one_mul _).trans (by omega)
      · rw [decide_eq_false hneg]
        exact (one_mul _).trans (by omega)
    rw [hjoin, ← hsign, Int.cast_mul, Int.cast_natCast]
    rw [hsign]

/-- **An operand in memory is the number that it was loaded from.** -/
theorem loaded_value {m : Mem} {s : I387} {src : Operand} (h : src.Holds m s q) (hsrc : src ≠ .shortInt) :
    (src.value m s).Ordinary ∧ (src.value m s).value = q := by
  cases src with
  | reg i => exact h
  | shortReal => exact short_value h.1 h.2
  | longReal => exact long_value h.1 h.2
  | longInt => exact ⟨(longInt_value _).1, (longInt_value _).2.trans h⟩
  | shortInt => exact absurd rfl hsrc

end Operands

/-! ## When the flags are those of the comparison -/

/-- The code compares ST(0) with `q`, whatever `tmp` holds at first: C3 is set for equal, C0 for less, C2 is clear, and
    nothing happens to a register but the pops. -/
def Comparison.Right (c : Comparison) (code : BitVec 11) (m : Mem) (s : I387) (q : ℚ) : Prop :=
  ∀ tmp, ∃ s', doEmu tmp m code s = some s' ∧ s'.st = s.st ∧ (∀ i, s'.place i = s.place (i + c.pops)) ∧
    (s'.swd.getLsbD 14 = true ↔ (s.ST 0).value = q) ∧ (s'.swd.getLsbD 8 = true ↔ (s.ST 0).value < q) ∧
    s'.swd.getLsbD 10 = false

/-- **The condition**: none of the two cases that compare with `tmp`, no 16-bit integer, and operands that the
    subtraction tells apart, or the same. -/
def Comparison.Meets (c : Comparison) (code : BitVec 11) (m : Mem) (s : I387) : Prop :=
  ¬ Swapped code ∧ c.src ≠ .shortInt ∧ Told (s.ST 0) (c.src.value m s)

section

variable {m : Mem} {s : I387} {code : BitVec 11} {c : Comparison} {q : ℚ}

/-- A pop leaves the flags alone. -/
theorem flag_fpops (n : Nat) (s : I387) {k : Nat} (hk : k = 14 ∨ k = 8 ∨ k = 10) :
    (fpop^[n] s).swd.getLsbD k = s.swd.getLsbD k := by
  induction n generalizing s with
  | zero => rfl
  | succ n ih =>
      show (fpop^[n] s.fpop).swd.getLsbD k = _
      rw [ih]
      unfold fpop
      rcases hk with rfl | rfl | rfl <;> simp

theorem place_com (x y : TempReal) (i : Nat) : (s.com x y).place i = s.place i :=
  place_congr (fun _ hk => fcom_place y x s.swd hk) i

/-- What the flags say of two operands. -/
theorem right_iff (h : comparison code = some c) (hs : ¬ Swapped code) :
    c.Right code m s q ↔ ∀ tmp,
      ((fadd (c.loaded tmp m s).negate (s.ST 0)).mant = 0 ↔ (s.ST 0).value = q) ∧
      ((fadd (c.loaded tmp m s).negate (s.ST 0)).mant ≠ 0 ∧ (fadd (c.loaded tmp m s).negate (s.ST 0)).neg = true ↔
        (s.ST 0).value < q) := by
  have hloaded : ∀ tmp, c.loaded tmp m s.start = c.loaded tmp m s := by
    intro tmp
    unfold Comparison.loaded
    split
    · rfl
    · exact value_start _ m s
  have hrun : ∀ tmp, doEmu tmp m code s = some (fpop^[c.pops] (s.start.com (c.loaded tmp m s) (s.ST 0))) := by
    intro tmp
    rw [doEmu_comparison h hs, hloaded, ST_start]
  have hflag : ∀ tmp {k : Nat}, k = 14 ∨ k = 8 ∨ k = 10 →
      (fpop^[c.pops] (s.start.com (c.loaded tmp m s) (s.ST 0))).swd.getLsbD k =
        (fcom (c.loaded tmp m s) (s.ST 0) s.start.swd).getLsbD k := fun tmp _ hk => flag_fpops _ _ hk
  constructor
  · intro hr tmp
    obtain ⟨s', hs', -, -, h3, h0, -⟩ := hr tmp
    rw [hrun tmp] at hs'
    rw [← Option.some.inj hs', hflag tmp (by omega), fcom_C3] at h3
    rw [← Option.some.inj hs', hflag tmp (by omega), fcom_C0] at h0
    exact ⟨h3, h0⟩
  · intro hr tmp
    refine ⟨_, hrun tmp, ?_, fun i => ?_, ?_, ?_, ?_⟩
    · rw [st_fpops]
      rfl
    · rw [place_fpops, place_com, place_start]
    · rw [hflag tmp (by omega), fcom_C3]
      exact (hr tmp).1
    · rw [hflag tmp (by omega), fcom_C0]
      exact (hr tmp).2
    · rw [hflag tmp (by omega), fcom_C2]

/-- The two cases store what they were not given. -/
theorem not_right_of_swapped (h : comparison code = some c) (hs : Swapped code) : ¬ c.Right code m s q := by
  intro hr
  obtain ⟨s', hs', hst, -⟩ := hr (s.ST 0).negate
  rw [doEmu_swapped h hs] at hs'
  rw [← Option.some.inj hs', st_fpops] at hst
  have hat := congrFun hst (s.place 0)
  have hplace : (s.start.com (c.src.value m s.start) (s.ST 0).negate).place 0 = s.place 0 := by
    rw [place_com, place_start]
  unfold setST at hat
  rw [hplace] at hat
  dsimp only at hat
  rw [Function.update_self] at hat
  have hneg := neg_negate (s.ST 0)
  rw [hat] at hneg
  change (s.ST 0).neg = _ at hneg
  cases hb : (s.ST 0).neg <;> rw [hb] at hneg <;> cases hneg

/-- A 16-bit integer is not loaded, and can be anything. -/
theorem not_right_of_unloaded (h : comparison code = some c) (hs : ¬ Swapped code) (hsrc : c.src = .shortInt)
    (hd : (s.ST 0).Ordinary) : ¬ c.Right code m s q := by
  have hloaded : ∀ tmp, c.loaded tmp m s = tmp := by
    intro tmp
    unfold Comparison.loaded
    rw [hsrc]
  rw [right_iff h hs]
  intro hr
  -- ST(0) itself, and what is far from it
  have hequal : (s.ST 0).value = q := by
    refine (hr (s.ST 0)).1.1 ?_
    rw [hloaded, fadd_comm, fadd_negate]
    exact mant_real 0 0
  have hapart : ∃ tmp : TempReal, (fadd tmp.negate (s.ST 0)).mant ≠ 0 := by
    by_cases hfar : 64 ≤ (s.ST 0).exp.toNat
    · refine ⟨(real 0 0).negate, ?_⟩
      have h0 : (real 0 0).exp.toNat = 0 := rfl
      rw [negate_negate, fadd_comm, fadd_far (by omega)]
      rcases hd with ⟨htop, -, -⟩ | ⟨-, hexp⟩
      · intro hzero
        rw [hzero] at htop
        cases htop
      · omega
    · refine ⟨(real 0x7fff 1).negate, ?_⟩
      have hexp : (real 0x7fff 1).exp.toNat = 0x7fff := rfl
      rw [negate_negate, fadd_far (by omega), mant_real]
      decide
  obtain ⟨tmp, hne⟩ := hapart
  refine hne ?_
  have htmp := (hr tmp).1.2 hequal
  rwa [hloaded] at htmp

/-- **A code of a comparison does what it stands for exactly under the condition.** -/
theorem comparison_iff (h : comparison code = some c) (hd : (s.ST 0).Ordinary) (hq : c.src.Holds m s q) :
    c.Right code m s q ↔ c.Meets code m s := by
  by_cases hs : Swapped code
  · exact iff_of_false (not_right_of_swapped h hs) fun hm => hm.1 hs
  by_cases hsrc : c.src = .shortInt
  · exact iff_of_false (not_right_of_unloaded h hs hsrc hd) fun hm => hm.2.1 hsrc
  obtain ⟨hv, rfl⟩ := loaded_value hq hsrc
  have hloaded : ∀ tmp, c.loaded tmp m s = c.src.value m s := by
    intro tmp
    unfold Comparison.loaded
    split
    · next hc => exact absurd hc hsrc
    · rfl
  have hmeets : c.Meets code m s ↔ Told (s.ST 0) (c.src.value m s) := ⟨fun hm => hm.2.2, fun ht => ⟨hs, hsrc, ht⟩⟩
  rw [right_iff h hs, hmeets, ← compared_iff hd hv]
  constructor
  · intro hr
    have htmp := hr (real 0 0)
    rwa [hloaded] at htmp
  · intro hr tmp
    rwa [hloaded]

theorem ones_ordinary (i : Nat) : (ones.ST i).Ordinary := by
  show (real 0x3fff 0x8000000000000000).Ordinary
  exact Or.inl ⟨by decide, by decide, by decide⟩

theorem ones_holds : Operand.Holds noMem ones (ones.ST 1).value (.reg 1) := ⟨ones_ordinary 1, rfl⟩

/-- FCOM of ST(1), by its second code. -/
theorem comparison_iff_ones : comparison 0x4d1 = some ⟨.reg 1, 0⟩ ∧
    Comparison.Right ⟨.reg 1, 0⟩ 0x4d1 noMem ones (ones.ST 1).value :=
  ⟨by decide, (comparison_iff (c := ⟨.reg 1, 0⟩) (by decide) (ones_ordinary 0) ones_holds).2
    ⟨by unfold Swapped; decide, by decide, Or.inl rfl⟩⟩

/-- **FCOM of ST(1), by its first code, overwrites ST(0).** -/
theorem fcom_overwrites : comparison 0x0d1 = some ⟨.reg 1, 0⟩ ∧ (ones.ST 0).Ordinary ∧
    Operand.Holds noMem ones (ones.ST 1).value (.reg 1) ∧
    ¬ Comparison.Right ⟨.reg 1, 0⟩ 0x0d1 noMem ones (ones.ST 1).value :=
  ⟨by decide, ones_ordinary 0, ones_holds, not_right_of_swapped (by decide) (Or.inl rfl)⟩

end

end Math
end Linux095
