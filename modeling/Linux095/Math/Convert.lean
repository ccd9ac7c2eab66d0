import Mathlib.Algebra.Group.Nat.Defs
import Mathlib.Data.BitVec

/-!
# `Math.Convert` — conversions of the FPU emulator (`kernel/math/convert.c`, `include/linux/math_emu.h`)

A temporary real has a sign, an exponent of 15 bits and a mantissa of 64 bits in two words, the first bit of which is
written and not implied. The emulator loads everything into this format and stores from it.

* `TempReal`, `LongReal`, `TempInt` — the formats in memory;
* `shortToTemp`, `longToTemp`, `tempToShort`, `tempToLong` — the two formats with an implied bit;
* `realToInt`, `intToReal`, `frndint` — integers;
* `normalizeLoop_spec`, `shiftRight_fst`, `shiftRight_snd` — what normalising and shifting back do to the number.

The words that the source adds or shifts together with `adcl` and `shrdl` are one bit vector of 64 bits here, and taken
apart again where the source has two words.
-/

namespace Linux095
namespace Math

/-! ## The formats -/

/-- `temp_real`; `a` is the low word. -/
structure TempReal where
  a : BitVec 32
  b : BitVec 32
  exponent : BitVec 16
  deriving DecidableEq

/-- `long_real`. -/
structure LongReal where
  a : BitVec 32
  b : BitVec 32
  deriving DecidableEq

abbrev ShortReal : Type := BitVec 32

/-- `temp_int`. -/
structure TempInt where
  a : BitVec 32
  b : BitVec 32
  sign : Bool
  deriving DecidableEq

/-- `ROUNDING`. -/
inductive Rounding where
  | nearest
  | down
  | up
  | zero
  deriving DecidableEq

/-- Bits 10 and 11 of the control word. -/
def Rounding.ofCwd (cwd : BitVec 32) : Rounding :=
  if (cwd >>> 10) &&& 3 = 0 then .nearest
  else if (cwd >>> 10) &&& 3 = 1 then .down
  else if (cwd >>> 10) &&& 3 = 2 then .up
  else .zero

/-! ## Two words -/

/-- Two words that are added or shifted together. -/
def join (b a : BitVec 32) : BitVec 64 := b ++ a

def low (x : BitVec 64) : BitVec 32 := x.extractLsb' 0 32
def high (x : BitVec 64) : BitVec 32 := x.extractLsb' 32 32

theorem join_high_low (x : BitVec 64) : join (high x) (low x) = x := by
  apply BitVec.eq_of_getLsbD_eq
  intro i hi
  simp only [join, high, low, BitVec.getLsbD_append, BitVec.getLsbD_extractLsb']
  by_cases h : i < 32
  · simp [h]
  · simp only [h, if_false]
    have h' : i - 32 < 32 := by omega
    have hadd : 32 + (i - 32) = i := by omega
    simp [h', hadd]

@[simp] theorem low_join (b a : BitVec 32) : low (join b a) = a := by
  apply BitVec.eq_of_getLsbD_eq
  intro i hi
  simp only [join, low, BitVec.getLsbD_extractLsb', BitVec.getLsbD_append]
  simp [hi]

@[simp] theorem high_join (b a : BitVec 32) : high (join b a) = b := by
  apply BitVec.eq_of_getLsbD_eq
  intro i hi
  simp only [join, high, BitVec.getLsbD_extractLsb', BitVec.getLsbD_append]
  simp [hi]

theorem setWidth_signExtend {w v k : Nat} (x : BitVec w) (h : k ≤ w) (h' : k ≤ v) :
    (x.signExtend v).setWidth k = x.setWidth k := by
  apply BitVec.eq_of_getLsbD_eq
  intro i hi
  simp only [BitVec.getLsbD_setWidth, BitVec.getLsbD_signExtend]
  simp [show i < v by omega, show i < w by omega]

namespace TempReal

def mant (t : TempReal) : BitVec 64 := join t.b t.a

/-- The exponent, without the sign. -/
def exp (t : TempReal) : BitVec 16 := t.exponent &&& 0x7fff

/-- `exponent < 0`. -/
def neg (t : TempReal) : Bool := t.exponent.msb

end TempReal

/-! ## Short and long reals -/

/-- `short_to_temp`. -/
def shortToTemp (a : ShortReal) : TempReal :=
  if a &&& 0x7fffffff = 0 then ⟨0, 0, if a ≠ 0 then 0x8000 else 0⟩
  else
    let e := (((a.sshiftRight 23) &&& 0xff) - 127 + 16383).setWidth 16
    ⟨0, (a <<< 8) ||| 0x80000000, if a.msb then e ||| 0x8000 else e⟩

/-- `long_to_temp`. -/
def longToTemp (a : LongReal) : TempReal :=
  if a.a = 0 ∧ a.b &&& 0x7fffffff = 0 then ⟨0, 0, if a.b ≠ 0 then 0x8000 else 0⟩
  else
    let e := (((a.b.sshiftRight 20) &&& 0x7ff) - 1023 + 16383).setWidth 16
    ⟨a.a <<< 11, (0x80000000 : BitVec 32) ||| (a.b <<< 11) ||| (a.a >>> 21), if a.b.msb then e ||| 0x8000 else e⟩

/-- `temp_to_short`. -/
def tempToShort (rc : Rounding) (a : TempReal) : ShortReal :=
  if a.exp = 0 then (if a.exponent ≠ 0 then 0x80000000 else 0)
  else
    let b := (((a.exponent.signExtend 32) - 16383 + 127) <<< 23) &&& 0x7f800000
    let b := if a.neg then b ||| 0x80000000 else b
    let b := b ||| ((a.b.sshiftRight 8) &&& 0x007fffff)
    match rc with
    | .nearest => if 0x80 < a.b &&& 0xff then b + 1 else b
    | .down => if a.neg ∧ a.b &&& 0xff ≠ 0 then b + 1 else b
    | .up => if ¬ a.neg ∧ a.b &&& 0xff ≠ 0 then b + 1 else b
    | .zero => b

/-- `addl $1,%0 ; adcl $0,%1`. -/
def LongReal.incr (r : LongReal) : LongReal := ⟨low (join r.b r.a + 1), high (join r.b r.a + 1)⟩

/-- `temp_to_long`. -/
def tempToLong (rc : Rounding) (a : TempReal) : LongReal :=
  if a.exp = 0 then ⟨0, if a.exponent ≠ 0 then 0x80000000 else 0⟩
  else
    let b := (((0x7fff &&& a.exponent.signExtend 32) - 16383 + 1023) <<< 20) &&& 0x7ff00000
    let b := if a.neg then b ||| 0x80000000 else b
    let r : LongReal :=
      ⟨(a.b <<< 21) ||| ((a.a.sshiftRight 11) &&& 0x001fffff), b ||| ((a.b.sshiftRight 11) &&& 0x000fffff)⟩
    match rc with
    | .nearest => if 0x400 < a.a &&& 0x7ff then r.incr else r
    | .down => if a.neg ∧ a.b &&& 0xff ≠ 0 then r.incr else r
    | .up => if ¬ a.neg ∧ a.b &&& 0xff ≠ 0 then r.incr else r
    | .zero => r

/-! ## Integers -/

/-- `addl %0,%0 ; adcl %1,%1` until the first bit is set, counting down. It is set after 63 rounds at the latest. -/
def normalizeLoop : Nat → BitVec 16 → BitVec 64 → BitVec 16 × BitVec 64
  | 0, e, m => (e, m)
  | k + 1, e, m => if m.msb then (e, m) else normalizeLoop k (e - 1) (m + m)

/-- `int_to_real`. -/
def intToReal (i : TempInt) : TempReal :=
  if i.a = 0 ∧ i.b = 0 then ⟨i.a, i.b, 0⟩
  else
    let r := normalizeLoop 63 (16383 + 63 + if i.sign then 0x8000 else 0) (join i.b i.a)
    ⟨low r.2, high r.2, r.1⟩

/-- What `frndint` and `real_to_int` shift: the mantissa, the word below it, and by how much it is still to be shifted,
which is less than 32. `shift` is by how much it is to be shifted in all. -/
def shiftWords (a : TempReal) (shift : Nat) : BitVec 64 × BitVec 32 × Nat :=
  if shift < 32 then (join a.b a.a, 0, shift)
  else if shift < 64 then (join 0 a.b, a.a, shift - 32)
  else if shift < 96 then (0, a.b, shift - 64)
  else (0, 1, 0)

/-- `shrdl` twice, and `shrl`: the mantissa and the word below it. -/
def shiftRight (m : BitVec 64) (underflow : BitVec 32) (shift : Nat) : BitVec 64 × BitVec 32 :=
  (m >>> shift, ((low m ++ underflow : BitVec 64) >>> shift).setWidth 32)

/-- The rounding of `frndint` and `real_to_int`. -/
def roundWords (rc : Rounding) (neg : Bool) (m : BitVec 64) (underflow : BitVec 32) : BitVec 64 :=
  match rc with
  | .nearest =>
      -- the carry of "addl %4,%5" goes into the mantissa
      if 2 ^ 32 ≤ (0x7fffffff + (low m &&& 1)).toNat + underflow.toNat then m + 1 else m
  | .up => if ¬ neg ∧ underflow ≠ 0 then m + 1 else m
  | .down => if neg ∧ underflow ≠ 0 then m + 1 else m
  | .zero => m

/-- `real_to_int`; the flag is OE. -/
def realToInt (rc : Rounding) (a : TempReal) : TempInt × Bool :=
  if 16383 + 63 < a.exp.toNat then (⟨0, 0, a.neg⟩, true)
  else
    let w := shiftWords a (16383 + 63 - a.exp.toNat)
    let r := shiftRight w.1 w.2.1 w.2.2
    let m := roundWords rc a.neg r.1 r.2
    (⟨low m, high m, a.neg⟩, false)

/-- `frndint`. -/
def frndint (rc : Rounding) (a : TempReal) : TempReal :=
  if 16383 + 63 < a.exp.toNat ∨ a.exp = 0 then a
  else
    let shift := 16383 + 63 - a.exp.toNat
    let w := shiftWords a shift
    -- "b->exponent += 32" or 64, and then what is left of shift; beyond 96 nothing is added
    let e := a.exponent + BitVec.ofNat 16 (if shift < 96 then shift else 0)
    let r := shiftRight w.1 w.2.1 w.2.2
    let m := roundWords rc e.msb r.1 r.2
    if m = 0 then ⟨0, 0, 0⟩
    else
      let n := normalizeLoop 63 e m
      ⟨low n.2, high n.2, n.1⟩

/-! ## Normalising and shifting back -/

/-- After `normalizeLoop` the exponent has gone down by as much as the mantissa has been shifted. -/
theorem normalizeLoop_spec (k : Nat) (e : BitVec 16) (m : BitVec 64) (hk : 2 ^ 63 ≤ m.toNat * 2 ^ k) :
    ∃ j ≤ k, normalizeLoop k e m = (e - BitVec.ofNat 16 j, BitVec.ofNat 64 (m.toNat * 2 ^ j)) ∧
      2 ^ 63 ≤ m.toNat * 2 ^ j ∧ m.toNat * 2 ^ j < 2 ^ 64 := by
  induction k generalizing e m with
  | zero =>
    have hlt := m.isLt
    refine ⟨0, Nat.le_refl 0, ?_, by simpa using hk, by simpa using hlt⟩
    simp [normalizeLoop]
  | succ k ih =>
    unfold normalizeLoop
    have hlt := m.isLt
    by_cases hmsb : m.msb = true
    · have hge := BitVec.msb_eq_true_iff_two_mul_ge.1 hmsb
      refine ⟨0, Nat.zero_le _, ?_, by omega, by omega⟩
      simp [hmsb]
    · have hsmall : 2 * m.toNat < 2 ^ 64 := BitVec.msb_eq_false_iff_two_mul_lt.1 (by simpa using hmsb)
      have hadd : (m + m).toNat = 2 * m.toNat := by
        rw [BitVec.toNat_add]
        omega
      have hpow : ∀ j, 2 * m.toNat * 2 ^ j = m.toNat * 2 ^ (j + 1) := by
        intro j
        rw [Nat.mul_comm 2, Nat.mul_assoc, ← Nat.pow_succ']
      rw [if_neg hmsb]
      obtain ⟨j, hj, heq, hle, hlt'⟩ := ih (e - 1) (m + m) (by rw [hadd, hpow]; exact hk)
      rw [hadd, hpow] at heq hle hlt'
      refine ⟨j + 1, by omega, ?_, hle, hlt'⟩
      rw [heq, BitVec.sub_sub]
      congr 2
      bv_omega

theorem toNat_join (b a : BitVec 32) : (join b a).toNat = b.toNat * 2 ^ 32 + a.toNat := by
  rw [join, BitVec.toNat_append, ← Nat.shiftLeft_add_eq_or_of_lt a.isLt, Nat.shiftLeft_eq]

theorem toNat_low (x : BitVec 64) : (low x).toNat = x.toNat % 2 ^ 32 := by
  simp [low]

theorem TempReal.mant_toNat (t : TempReal) : t.mant.toNat = t.b.toNat * 2 ^ 32 + t.a.toNat := toNat_join _ _

theorem TempReal.exp_toNat (t : TempReal) : t.exp.toNat = t.exponent.toNat % 2 ^ 15 := by
  unfold TempReal.exp
  rw [BitVec.toNat_and]
  exact Nat.and_two_pow_sub_one_eq_mod _ 15

theorem toNat_shiftRight_fst (m : BitVec 64) (u : BitVec 32) (k : Nat) :
    (shiftRight m u k).1.toNat = m.toNat / 2 ^ k := by
  simp [shiftRight, Nat.shiftRight_eq_div_pow]

theorem toNat_shiftRight_snd (m : BitVec 64) (u : BitVec 32) (k : Nat) :
    (shiftRight m u k).2.toNat = (m.toNat % 2 ^ 32 * 2 ^ 32 + u.toNat) / 2 ^ k % 2 ^ 32 := by
  have hjoin := toNat_join (low m) u
  rw [toNat_low] at hjoin
  simp only [shiftRight, BitVec.toNat_setWidth, BitVec.toNat_ushiftRight, Nat.shiftRight_eq_div_pow]
  rw [← hjoin, join]

/-- The first word of what is shifted right is the mantissa without its last bits. -/
theorem shiftRight_fst (t : TempReal) {shift : Nat} (h : shift < 96) :
    (shiftRight (shiftWords t shift).1 (shiftWords t shift).2.1 (shiftWords t shift).2.2).1.toNat =
      t.mant.toNat / 2 ^ shift := by
  have hb := t.b.isLt
  have ha := t.a.isLt
  rw [toNat_shiftRight_fst, t.mant_toNat]
  unfold shiftWords
  split
  · rw [toNat_join]
  split
  · -- the upper word alone is left
    obtain ⟨k, rfl⟩ : ∃ k, shift = 32 + k := ⟨shift - 32, by omega⟩
    have hdiv : (t.b.toNat * 2 ^ 32 + t.a.toNat) / 2 ^ 32 = t.b.toNat := by omega
    rw [toNat_join, Nat.pow_add, ← Nat.div_div_eq_div_mul, hdiv, show 32 + k - 32 = k by omega]
    simp
  · have hpow : 2 ^ 64 ≤ 2 ^ shift := Nat.pow_le_pow_right (by decide) (by omega)
    have hzero : (t.b.toNat * 2 ^ 32 + t.a.toNat) / 2 ^ shift = 0 := Nat.div_eq_of_lt (by omega)
    rw [hzero]
    simp

/-- The word below it holds the first 32 of the bits that are shifted out. -/
theorem shiftRight_snd (t : TempReal) {shift : Nat} (h : shift < 96) :
    (shiftRight (shiftWords t shift).1 (shiftWords t shift).2.1 (shiftWords t shift).2.2).2.toNat =
      t.mant.toNat * 2 ^ 32 / 2 ^ shift % 2 ^ 32 := by
  have hb := t.b.isLt
  have ha := t.a.isLt
  have hpos : 0 < 2 ^ 32 := by decide
  rw [toNat_shiftRight_snd]
  unfold shiftWords
  split
  · -- the upper word goes beyond the word below the mantissa
    obtain ⟨k, hk⟩ : ∃ k, 32 = shift + k := ⟨32 - shift, by omega⟩
    have hsplit : (t.b.toNat * 2 ^ 32 + t.a.toNat) * 2 ^ 32 =
        t.a.toNat * 2 ^ 32 + 2 ^ shift * (2 ^ 32 * (t.b.toNat * 2 ^ k)) := by
      have hpow : 2 ^ shift * 2 ^ k = 2 ^ 32 := by rw [← Nat.pow_add, ← hk]
      calc (t.b.toNat * 2 ^ 32 + t.a.toNat) * 2 ^ 32
          = t.a.toNat * 2 ^ 32 + t.b.toNat * 2 ^ 32 * 2 ^ 32 := by rw [Nat.add_mul, Nat.add_comm]
        _ = t.a.toNat * 2 ^ 32 + t.b.toNat * 2 ^ 32 * (2 ^ shift * 2 ^ k) := by rw [hpow]
        _ = t.a.toNat * 2 ^ 32 + 2 ^ shift * (2 ^ 32 * (t.b.toNat * 2 ^ k)) := by ac_rfl
    have hlow : (join t.b t.a).toNat % 2 ^ 32 = t.a.toNat := by
      rw [toNat_join]
      omega
    rw [hlow, t.mant_toNat, hsplit, Nat.add_mul_div_left _ _ (Nat.two_pow_pos shift), Nat.add_mul_mod_self_left]
    simp
  split
  · obtain ⟨k, rfl⟩ : ∃ k, shift = 32 + k := ⟨shift - 32, by omega⟩
    have hlow : (join 0 t.b).toNat % 2 ^ 32 = t.b.toNat := by
      rw [toNat_join]
      simp [hb]
    rw [hlow, ← t.mant_toNat, Nat.pow_add, Nat.mul_comm t.mant.toNat, Nat.mul_div_mul_left _ _ hpos,
      show 32 + k - 32 = k by omega]
  · obtain ⟨k, rfl⟩ : ∃ k, shift = 32 + (32 + k) := ⟨shift - 64, by omega⟩
    have hdiv : t.mant.toNat / 2 ^ 32 = t.b.toNat := by
      rw [t.mant_toNat]
      omega
    rw [Nat.pow_add, Nat.mul_comm t.mant.toNat, Nat.mul_div_mul_left _ _ hpos, Nat.pow_add,
      ← Nat.div_div_eq_div_mul, hdiv, show 32 + (32 + k) - 64 = k by omega]
    simp

/-- Nothing is added to what has left nothing behind. -/
theorem roundWords_zero (rc : Rounding) (neg : Bool) (m : BitVec 64) : roundWords rc neg m 0 = m := by
  have hlt : (0x7fffffff + (low m &&& 1)).toNat < 2 ^ 32 := (0x7fffffff + (low m &&& 1)).isLt
  cases rc
  · have hzero : (0 : BitVec 32).toNat = 0 := rfl
    simp only [roundWords, hzero, Nat.add_zero]
    rw [if_neg (by omega)]
  · simp [roundWords]
  · simp [roundWords]
  · rfl

end Math
end Linux095
