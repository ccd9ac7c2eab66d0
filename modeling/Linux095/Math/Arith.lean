import Linux095.Math.Rounded

/-!
# `Math.Arith` — arithmetic of the FPU emulator (`kernel/math/add.c`, `mul.c`, `div.c`, `compare.c`)

* `fadd`, `fmul`, `fdiv` — the source's functions; where one returns without a result there is none, and the flags are
  what is set in the status word;
* `fcom` — comparison, by a subtraction;
* `fadd_comm`, `fmul_comm`, `fadd_negate` — what does not depend on the order, and a difference that is zero.

Subtraction is addition of the operand with its sign flipped. The four words of a product or a quotient are one bit
vector here.
-/

namespace Linux095
namespace Math

/-! ## Two words and an exponent -/

/-- The temporary real of an exponent with its sign and a mantissa. -/
def real (e : BitVec 16) (m : BitVec 64) : TempReal := ⟨low m, high m, e⟩

@[simp] theorem mant_real (e : BitVec 16) (m : BitVec 64) : (real e m).mant = m := join_high_low m

@[simp] theorem exponent_real (e : BitVec 16) (m : BitVec 64) : (real e m).exponent = e := rfl

theorem real_mant (t : TempReal) : real t.exponent t.mant = t := by
  unfold real TempReal.mant
  rw [low_join, high_join]

theorem real_inj {e e' : BitVec 16} {m m' : BitVec 64} (h : real e m = real e' m') : e = e' ∧ m = m' :=
  ⟨congrArg TempReal.exponent h, by rw [← mant_real e m, h, mant_real]⟩

/-- `exponent ^= 0x8000`. -/
def TempReal.negate (t : TempReal) : TempReal := { t with exponent := t.exponent ^^^ 0x8000 }

/-- Shifting to the left until the first bit is set, as often as the exponent allows. -/
def normalizeBy {w : Nat} : Nat → BitVec w → Nat × BitVec w
  | 0, m => (0, m)
  | i + 1, m => if m.msb then (i + 1, m) else normalizeBy i (m + m)

/-! ## `add.c` -/

/-- `signify`: the sign is moved into the mantissa. -/
def signify (a : TempReal) : TempReal :=
  let e := a.exponent + 2
  let m := a.mant >>> 2
  -- NEGINT
  real (e &&& 0x7fff) (if e.msb then -m else m)

/-- `unsignify`: and back. -/
def unsignify (a : TempReal) : TempReal :=
  if a.mant = 0 then real 0 0
  else
    let e := a.exponent &&& 0x7fff
    let r := if a.mant.msb then normalizeLoop 63 (e ||| 0x8000) (-a.mant) else normalizeLoop 63 e a.mant
    real r.1 r.2

/-- `fadd`, when the first of the two has the larger exponent or the same. -/
def addOrdered (a b : TempReal) : TempReal :=
  let shift := a.exp.toNat - b.exp.toNat
  if 64 ≤ shift then a
  else
    let a := signify a
    let b := signify (real b.exponent (b.mant >>> shift))
    unsignify (real a.exponent (a.mant + b.mant))

/-- `fadd`. -/
def fadd (src1 src2 : TempReal) : TempReal :=
  if src2.exp < src1.exp then addOrdered src1 src2 else addOrdered src2 src1

/-! ## `mul.c` -/

/-- `set_DE()` and the others. -/
def DE : BitVec 32 := 2
def ZE : BitVec 32 := 4
def OE : BitVec 32 := 8
def UE : BitVec 32 := 16

/-- The sign of a product or a quotient. -/
def signOf (src1 src2 : TempReal) : BitVec 16 := (src1.exponent ^^^ src2.exponent) &&& 0x8000

/-- `mul64`. -/
def mul64 (a b : BitVec 64) : BitVec 128 := a.setWidth 128 * b.setWidth 128

/-- `fmul`. -/
def fmul (src1 src2 : TempReal) : Option TempReal × BitVec 32 :=
  let sign := signOf src1 src2
  let i : Int := src1.exp.toNat + src2.exp.toNat - 16383 + 1
  if i < 0 then (some (real sign 0), 0)
  else if 0x7fff < i then (none, OE)
  else
    let tmp := mul64 src1.mant src2.mant
    let r := if tmp = 0 then (0, tmp) else normalizeBy i.toNat tmp
    (some (real (BitVec.ofNat 16 r.1 ||| sign) (r.2.extractLsb' 64 64)), 0)

/-! ## `div.c` -/

/-- The loop of `div64`; the quotient is in the two upper words. -/
def div64 : Nat → BitVec 128 → BitVec 128 → BitVec 64 → BitVec 64
  | 0, _, _, c => c
  | n + 1, a, b, c =>
      -- `try_sub`
      if b ≤ a then div64 n (a - b) (b >>> 1) (c ||| (1 : BitVec 64) <<< n) else div64 n a (b >>> 1) c

/-- `fdiv`. -/
def fdiv (src1 src2 : TempReal) : Option TempReal × BitVec 32 :=
  let sign := signOf src1 src2
  if src2.mant = 0 then (none, ZE)
  else
    let i : Int := src1.exp.toNat - src2.exp.toNat + 16383
    if i < 0 then (some (real sign 0), UE)
    else
      -- "while (b[3] >= 0)", at most 63 times
      let b := normalizeBy 63 src2.mant
      let i := i.toNat + (63 - b.1)
      let tmp := div64 64 (src1.mant ++ 0#64) (b.2 ++ 0#64) 0
      let r := if tmp = 0 then (0, tmp) else normalizeBy i tmp
      let flags := if tmp ≠ 0 ∧ r.2.msb = false then DE else 0
      if 0x7fff < r.1 then (none, flags ||| OE) else (some (real (BitVec.ofNat 16 r.1 ||| sign) r.2), flags)

/-! ## `compare.c` -/

/-- `normalize`. -/
def normalize (a : TempReal) : TempReal :=
  if a.mant = 0 then real 0 0
  else
    let r := normalizeBy a.exp.toNat a.mant
    real (BitVec.ofNat 16 r.1 ||| (a.exponent &&& 0x8000)) r.2

/-- `ftst`, in the status word. -/
def ftst (a : TempReal) (swd : BitVec 32) : BitVec 32 :=
  let b := normalize a
  -- `clear_Cx`
  let swd := swd &&& ~~~0x4500
  if b.mant ≠ 0 ∨ b.exponent ≠ 0 then (if b.neg then swd ||| 0x0100 else swd) else swd ||| 0x4000

/-- `fcom`. -/
def fcom (src1 src2 : TempReal) (swd : BitVec 32) : BitVec 32 := ftst (fadd src1.negate src2) swd

/-- `fucom`. -/
def fucom (src1 src2 : TempReal) (swd : BitVec 32) : BitVec 32 := fcom src1 src2 swd

/-! ## Signs -/

section Signs

variable (t : TempReal)

@[simp] theorem mant_negate : t.negate.mant = t.mant := rfl

@[simp] theorem neg_negate : t.negate.neg = !t.neg := by
  unfold TempReal.neg TempReal.negate
  rw [BitVec.msb_xor]
  cases t.exponent.msb <;> rfl

@[simp] theorem exp_negate : t.negate.exp = t.exp := by
  unfold TempReal.exp TempReal.negate
  apply BitVec.eq_of_getLsbD_eq
  intro i hi
  simp only [BitVec.getLsbD_and, BitVec.getLsbD_xor]
  by_cases h15 : i = 15
  · subst h15
    simp
  · have hbit : (0x8000 : BitVec 16).getLsbD i = false := by
      have hall : ∀ j : Fin 16, j.val ≠ 15 → (0x8000 : BitVec 16).getLsbD j = false := by decide
      exact hall ⟨i, hi⟩ h15
    rw [hbit, Bool.xor_false]

@[simp] theorem negate_negate : t.negate.negate = t := by
  unfold TempReal.negate
  simp only [BitVec.xor_assoc, BitVec.xor_self, BitVec.xor_zero]

theorem exp_lt : t.exp.toNat < 2 ^ 15 := by
  rw [t.exp_toNat]
  exact Nat.mod_lt _ (by decide)

/-- The sign that `signify` goes by: that of the operand, unless the two that are added to the exponent carry into
    it. -/
def signBit : Bool := t.neg != decide (0x7ffe ≤ t.exp.toNat)

theorem signBit_negate : signBit t.negate = !signBit t := by
  unfold signBit
  rw [neg_negate, exp_negate]
  cases t.neg <;> cases decide (0x7ffe ≤ t.exp.toNat) <;> rfl

theorem msb_add_two : (t.exponent + 2).msb = signBit t := by
  have hexp := exponent_toNat t
  have hlt := exp_lt t
  have hadd : (t.exponent + 2).toNat = (t.exponent.toNat + 2) % 2 ^ 16 := BitVec.toNat_add _ _
  unfold signBit
  cases hneg : t.neg with
  | false =>
      rw [hneg, if_neg Bool.false_ne_true] at hexp
      by_cases he : 0x7ffe ≤ t.exp.toNat
      · rw [decide_eq_true he]
        exact BitVec.msb_eq_true_iff_two_mul_ge.2 (by omega)
      · rw [decide_eq_false he]
        exact BitVec.msb_eq_false_iff_two_mul_lt.2 (by omega)
  | true =>
      rw [hneg, if_pos rfl] at hexp
      by_cases he : 0x7ffe ≤ t.exp.toNat
      · rw [decide_eq_true he]
        exact BitVec.msb_eq_false_iff_two_mul_lt.2 (by omega)
      · rw [decide_eq_false he]
        exact BitVec.msb_eq_true_iff_two_mul_ge.2 (by omega)

theorem mant_signify : (signify t).mant = if signBit t then -(t.mant >>> 2) else t.mant >>> 2 := by
  unfold signify
  rw [mant_real, msb_add_two]

theorem exponent_signify : (signify t).exponent.toNat = (t.exp.toNat + 2) % 2 ^ 15 := by
  have hexp := exponent_toNat t
  have hand : (signify t).exponent.toNat = (t.exponent + 2).toNat % 2 ^ 15 := by
    unfold signify
    rw [exponent_real, BitVec.toNat_and]
    exact Nat.and_two_pow_sub_one_eq_mod _ 15
  rw [hand, BitVec.toNat_add, hexp]
  have h2 : (2 : BitVec 16).toNat = 2 := rfl
  rw [h2]
  split <;> omega

end Signs

/-! ## The order of the operands -/

theorem addOrdered_comm {x y : TempReal} (h : x.exp = y.exp) : addOrdered x y = addOrdered y x := by
  have hzero : ∀ t : TempReal, real t.exponent (t.mant >>> 0) = t := by
    intro t
    rw [BitVec.ushiftRight_zero]
    exact real_mant t
  have hexponent : (signify x).exponent = (signify y).exponent := by
    apply BitVec.eq_of_toNat_eq
    rw [exponent_signify, exponent_signify, h]
  unfold addOrdered
  have hshift : ¬ 64 ≤ y.exp.toNat - y.exp.toNat := by omega
  rw [h, if_neg hshift, if_neg hshift, Nat.sub_self]
  dsimp only
  rw [hzero, hzero, hexponent, BitVec.add_comm]

/-- **`fadd` does not depend on the order.** -/
theorem fadd_comm (x y : TempReal) : fadd x y = fadd y x := by
  unfold fadd
  rcases Nat.lt_trichotomy x.exp.toNat y.exp.toNat with hlt | heq | hlt
  · rw [if_neg (by rw [BitVec.lt_def]; omega), if_pos (by rw [BitVec.lt_def]; omega)]
  · rw [if_neg (by rw [BitVec.lt_def]; omega), if_neg (by rw [BitVec.lt_def]; omega)]
    exact (addOrdered_comm (BitVec.eq_of_toNat_eq heq)).symm
  · rw [if_pos (by rw [BitVec.lt_def]; omega), if_neg (by rw [BitVec.lt_def]; omega)]

theorem fmul_comm (x y : TempReal) : fmul x y = fmul y x := by
  have hsign : signOf x y = signOf y x := by
    unfold signOf
    rw [BitVec.xor_comm]
  have hmul : mul64 x.mant y.mant = mul64 y.mant x.mant := BitVec.mul_comm _ _
  have hexp : (x.exp.toNat + y.exp.toNat - 16383 + 1 : Int) = y.exp.toNat + x.exp.toNat - 16383 + 1 := by omega
  unfold fmul
  rw [hsign, hmul, hexp]

/-! ## Sums of equal exponents -/

theorem fadd_of_exp_eq {x y : TempReal} (h : x.exp = y.exp) :
    fadd x y = unsignify (real (signify y).exponent ((signify y).mant + (signify x).mant)) := by
  have hzero : real x.exponent (x.mant >>> 0) = x := by
    rw [BitVec.ushiftRight_zero]
    exact real_mant x
  have hlt : ¬ y.exp < x.exp := by
    rw [h, BitVec.lt_def]
    exact Nat.lt_irrefl _
  unfold fadd addOrdered
  rw [if_neg hlt, h, Nat.sub_self, if_neg (by decide)]
  dsimp only
  rw [hzero]

/-- **A difference of a number and itself is zero.** -/
theorem fadd_negate (x : TempReal) : fadd x x.negate = real 0 0 := by
  have hsum : (signify x.negate).mant + (signify x).mant = 0 := by
    rw [mant_signify, mant_signify, signBit_negate, mant_negate]
    cases signBit x with
    | false =>
        simp only [Bool.not_false, if_true, Bool.false_eq_true, if_false]
        exact BitVec.add_left_neg _
    | true =>
        simp only [Bool.not_true, Bool.false_eq_true, if_false, if_true]
        exact BitVec.add_right_neg _
  rw [fadd_of_exp_eq (exp_negate x).symm, hsum]
  unfold unsignify
  rw [mant_real, if_pos rfl]

/-- Nothing but zero becomes zero. -/
theorem unsignify_mant (a : TempReal) : (unsignify a).mant = 0 ↔ a.mant = 0 := by
  have hloop : ∀ (e : BitVec 16) (m : BitVec 64), m ≠ 0 → (normalizeLoop 63 e m).2 ≠ 0 := by
    intro e m hm h0
    have hpos : 0 < m.toNat := Nat.pos_of_ne_zero fun h => hm (BitVec.eq_of_toNat_eq h)
    obtain ⟨j, -, heq, hge, hlt⟩ := normalizeLoop_spec 63 e m (Nat.le_mul_of_pos_left _ hpos)
    rw [heq] at h0
    have htoNat := congrArg BitVec.toNat h0
    rw [BitVec.toNat_ofNat, Nat.mod_eq_of_lt hlt] at htoNat
    change _ = 0 at htoNat
    omega
  unfold unsignify
  split
  · next h0 =>
      rw [mant_real]
      exact ⟨fun _ => h0, fun _ => rfl⟩
  · next hne =>
      dsimp only
      rw [mant_real]
      refine ⟨fun h0 => absurd h0 ?_, fun h0 => absurd h0 hne⟩
      split
      · exact hloop _ _ fun hneg => hne (BitVec.neg_eq_zero_iff.1 hneg)
      · exact hloop _ _ hne

/-- A number that is added to itself is lost only if there is nothing but its last two bits. -/
theorem fadd_self_mant (x : TempReal) : (fadd x x).mant = 0 ↔ x.mant.toNat < 4 := by
  have hshift : (x.mant >>> 2).toNat = x.mant.toNat / 4 := by
    rw [BitVec.toNat_ushiftRight, Nat.shiftRight_eq_div_pow]
  have hlt := x.mant.isLt
  have hzero : ∀ m : BitVec 64, m.toNat < 2 ^ 62 → (m + m = 0 ↔ m.toNat = 0) := by
    intro m hm
    rw [BitVec.toNat_eq, BitVec.toNat_add]
    change _ = 0 ↔ _
    omega
  rw [fadd_of_exp_eq rfl, unsignify_mant, mant_real, mant_signify]
  cases signBit x with
  | false =>
      rw [if_neg Bool.false_ne_true, hzero _ (by omega), hshift]
      omega
  | true =>
      have hneg : ∀ m : BitVec 64, -m + -m = -(m + m) := by
        intro m
        rw [BitVec.neg_add, BitVec.sub_eq_add_neg]
      have hneg0 : ∀ m : BitVec 64, -m = 0 ↔ m = 0 := fun _ => BitVec.neg_eq_zero_iff
      rw [if_pos rfl, hneg, hneg0, hzero _ (by omega), hshift]
      omega

/-- **What holds of every sum**, normalised or not. -/
theorem fadd_laws (x y : TempReal) :
    fadd x y = fadd y x ∧ fadd x x.negate = real 0 0 ∧ ((fadd x x).mant = 0 ↔ x.mant.toNat < 4) :=
  ⟨fadd_comm x y, fadd_negate x, fadd_self_mant x⟩

theorem fadd_self_of_small {x : TempReal} (h : x.mant.toNat < 4) : fadd x x = real 0 0 := by
  have hzero := (fadd_self_mant x).2 h
  rw [fadd_of_exp_eq rfl] at hzero ⊢
  rw [unsignify_mant] at hzero
  unfold unsignify
  rw [if_pos hzero]

/-! ## What an operand that is not loaded does -/

/-- An operand of a much smaller exponent does not count. -/
theorem fadd_far {x y : TempReal} (h : 64 ≤ x.exp.toNat - y.exp.toNat) : fadd x y = x := by
  unfold fadd addOrdered
  rw [if_pos (by rw [BitVec.lt_def]; omega), if_pos h]

/-- **A sum depends on its second operand.** -/
theorem fadd_depends (d : TempReal) : ∃ j j', fadd d j ≠ fadd d j' := by
  by_cases hd : 64 ≤ d.exp.toNat
  · -- a zero, and what makes the sum zero
    refine ⟨real 0 0, d.negate, ?_⟩
    have h0 : (real 0 0).exp.toNat = 0 := rfl
    rw [fadd_far (by omega), fadd_negate]
    intro h
    rw [h, h0] at hd
    omega
  · have hfar : ∀ m, fadd d (real 0x7fff m) = real 0x7fff m := by
      intro m
      have hexp : (real 0x7fff m).exp.toNat = 0x7fff := by
        unfold TempReal.exp
        rw [exponent_real]
        rfl
      rw [fadd_comm, fadd_far (by omega)]
    refine ⟨real 0x7fff 0, real 0x7fff 1, ?_⟩
    rw [hfar, hfar]
    decide

/-- A product with zero is zero, with the sign of the product. -/
theorem fmul_zero {x y : TempReal} (hx : x.mant = 0) (he : x.exp.toNat = 0) :
    (fmul x y).1 = some (real (signOf x y) 0) := by
  have hlt := exp_lt y
  have hmul : mul64 x.mant y.mant = 0 := by
    unfold mul64
    rw [hx]
    exact BitVec.zero_mul
  unfold fmul
  dsimp only
  split
  · rfl
  · have hzero : BitVec.ofNat 16 0 ||| signOf x y = signOf x y := BitVec.zero_or
    rw [if_neg (by omega), hmul]
    show some (real (BitVec.ofNat 16 0 ||| signOf x y) 0) = _
    rw [hzero]

theorem normalizeBy_ne_zero {m : BitVec 64} (n : Nat) (h : m ≠ 0) : (normalizeBy n m).2 ≠ 0 := by
  induction n generalizing m with
  | zero => exact h
  | succ n ih =>
      unfold normalizeBy
      split
      · exact h
      · next hmsb =>
          have hlt := BitVec.msb_eq_false_iff_two_mul_lt.1 (Bool.eq_false_iff.2 hmsb)
          apply ih
          intro h0
          have htoNat := congrArg BitVec.toNat h0
          rw [BitVec.toNat_add] at htoNat
          change _ = 0 at htoNat
          exact h (BitVec.eq_of_toNat_eq (by change _ = 0; omega))

/-- Nothing can be subtracted from zero. -/
theorem div64_zero (n : Nat) {b : BitVec 128} (c : BitVec 64) (hb : 2 ^ n ≤ b.toNat) : div64 n 0 b c = c := by
  induction n generalizing b with
  | zero => rfl
  | succ n ih =>
      have hpow : 2 ^ (n + 1) = 2 * 2 ^ n := Nat.pow_succ'
      have hpos : 0 < 2 ^ n := Nat.two_pow_pos n
      have hnot : ¬ b ≤ 0 := by
        rw [BitVec.le_def]
        change ¬ b.toNat ≤ 0
        omega
      unfold div64
      rw [if_neg hnot]
      apply ih
      rw [BitVec.toNat_ushiftRight, Nat.shiftRight_eq_div_pow]
      omega

/-- A quotient of zero is zero, with the sign of the quotient. -/
theorem fdiv_zero {x y : TempReal} (hx : x.mant = 0) (hy : y.mant ≠ 0) :
    (fdiv x y).1 = some (real (signOf x y) 0) := by
  have hquotient : div64 64 (x.mant ++ 0#64) ((normalizeBy 63 y.mant).2 ++ 0#64) 0 = 0 := by
    rw [hx]
    apply div64_zero
    have hpos : 0 < (normalizeBy 63 y.mant).2.toNat :=
      Nat.pos_of_ne_zero fun h0 => normalizeBy_ne_zero 63 hy (BitVec.eq_of_toNat_eq h0)
    rw [BitVec.toNat_append, ← Nat.shiftLeft_add_eq_or_of_lt (BitVec.isLt _), Nat.shiftLeft_eq]
    omega
  unfold fdiv
  dsimp only
  rw [if_neg hy]
  split
  · rfl
  · have hzero : BitVec.ofNat 16 0 ||| signOf x y = signOf x y := BitVec.zero_or
    rw [hquotient, if_neg (by decide)]
    show some (real (BitVec.ofNat 16 0 ||| signOf x y) 0) = _
    rw [hzero]

theorem fdiv_by_zero {x y : TempReal} (hy : y.mant = 0) : (fdiv x y).1 = none := by
  unfold fdiv
  dsimp only
  rw [if_pos hy]

/-! ## Where there is a result -/

theorem fmul_isSome (x y : TempReal) : (fmul x y).1.isSome ↔ x.exp.toNat + y.exp.toNat ≤ 0xbffd := by
  unfold fmul
  dsimp only
  split
  · exact ⟨fun _ => by omega, fun _ => rfl⟩
  split
  · exact ⟨nofun, fun _ => by omega⟩
  · exact ⟨fun _ => by omega, fun _ => rfl⟩

/-- Shifting ends with the first bit, or with the last time. -/
theorem normalizeBy_spec (n : Nat) (m : BitVec 64) : ∃ j ≤ n,
    normalizeBy n m = (n - j, BitVec.ofNat 64 (m.toNat * 2 ^ j)) ∧ m.toNat * 2 ^ j < 2 ^ 64 ∧
      (j = n ∨ 2 ^ 63 ≤ m.toNat * 2 ^ j) := by
  induction n generalizing m with
  | zero =>
      refine ⟨0, Nat.le_refl 0, ?_, ?_, Or.inl rfl⟩
      · rw [Nat.pow_zero, Nat.mul_one, BitVec.ofNat_toNat, BitVec.setWidth_eq]
        rfl
      · rw [Nat.pow_zero, Nat.mul_one]
        exact m.isLt
  | succ n ih =>
      unfold normalizeBy
      split
      · next hmsb =>
          have hge := BitVec.msb_eq_true_iff_two_mul_ge.1 hmsb
          refine ⟨0, Nat.zero_le _, ?_, ?_, Or.inr ?_⟩
          · rw [Nat.pow_zero, Nat.mul_one, BitVec.ofNat_toNat, BitVec.setWidth_eq]
            rfl
          · rw [Nat.pow_zero, Nat.mul_one]
            exact m.isLt
          · omega
      · next hmsb =>
          have hlt := BitVec.msb_eq_false_iff_two_mul_lt.1 (Bool.eq_false_iff.2 hmsb)
          have hdouble : (m + m).toNat = 2 * m.toNat := by
            rw [BitVec.toNat_add]
            omega
          obtain ⟨j, hj, heq, hbound, hend⟩ := ih (m + m)
          have hpow : 2 * m.toNat * 2 ^ j = m.toNat * 2 ^ (j + 1) := by
            rw [Nat.pow_succ']
            ac_rfl
          rw [hdouble, hpow] at heq hbound hend
          refine ⟨j + 1, Nat.succ_le_succ hj, ?_, hbound, hend.imp_left (congrArg Nat.succ)⟩
          rw [heq, Nat.add_sub_add_right]

/-- A bit that is set below all others is added. -/
theorem toNat_or_bit {n : Nat} {c : BitVec 64} (hn : n < 64) (hc : c.toNat % 2 ^ (n + 1) = 0) :
    (c ||| (1 : BitVec 64) <<< n).toNat = c.toNat + 2 ^ n := by
  obtain ⟨q, hq⟩ := Nat.dvd_of_mod_eq_zero hc
  have hone : ((1 : BitVec 64) <<< n).toNat = 2 ^ n := by
    have h1 : (1 : BitVec 64).toNat = 1 := rfl
    rw [BitVec.toNat_shiftLeft, h1, Nat.shiftLeft_eq, Nat.one_mul,
      Nat.mod_eq_of_lt (Nat.pow_lt_pow_right (by decide) hn)]
  have hlt : 2 ^ n < 2 ^ (n + 1) := Nat.pow_lt_pow_right (by decide) (Nat.lt_succ_self n)
  rw [BitVec.toNat_or, hone, hq, ← Nat.two_pow_add_eq_or_of_lt hlt]

/-- **`div64` divides.** -/
theorem div64_toNat (n : Nat) {a b : BitVec 128} {c : BitVec 64} {d : Nat} (hn : n ≤ 64) (hb : b.toNat = d * 2 ^ n)
    (ha : a.toNat < 2 * b.toNat) (hc : c.toNat % 2 ^ n = 0) :
    (div64 n a b c).toNat = c.toNat + a.toNat / (2 * d) := by
  induction n generalizing a b c with
  | zero =>
      rw [Nat.pow_zero, Nat.mul_one] at hb
      rw [Nat.div_eq_of_lt (by omega)]
      rfl
  | succ n ih =>
      have hpow : 2 ^ (n + 1) = 2 * 2 ^ n := Nat.pow_succ'
      have hhalf : (b >>> 1).toNat = d * 2 ^ n := by
        rw [BitVec.toNat_ushiftRight, Nat.shiftRight_eq_div_pow, hb, hpow]
        have hmul : d * (2 * 2 ^ n) = d * 2 ^ n * 2 := by ac_rfl
        rw [hmul]
        exact Nat.mul_div_cancel _ (by decide)
      have htwice : b.toNat = 2 * (b >>> 1).toNat := by
        rw [hhalf, hb, hpow]
        ac_rfl
      have hmod : c.toNat % 2 ^ n = 0 := by
        have hdvd : 2 ^ n ∣ 2 ^ (n + 1) := Nat.pow_dvd_pow 2 (Nat.le_succ n)
        exact Nat.mod_eq_zero_of_dvd (Nat.dvd_trans hdvd (Nat.dvd_of_mod_eq_zero hc))
      unfold div64
      split
      · next hle =>
          rw [BitVec.le_def] at hle
          have hd : 0 < d := by
            apply Nat.pos_of_ne_zero
            rintro rfl
            omega
          have hsub : (a - b).toNat = a.toNat - b.toNat := BitVec.toNat_sub_of_le (BitVec.le_def.2 hle)
          have hor := toNat_or_bit (by omega) hc
          rw [ih (by omega) hhalf (by omega) (by rw [hor, Nat.add_mod_right]; exact hmod), hor, hsub]
          have hsplit : a.toNat = a.toNat - b.toNat + 2 * d * 2 ^ n := by
            have hb' : b.toNat = 2 * d * 2 ^ n := by
              rw [hb, hpow]
              ac_rfl
            omega
          have hquotient : a.toNat / (2 * d) = (a.toNat - b.toNat) / (2 * d) + 2 ^ n := by
            conv_lhs => rw [hsplit]
            exact Nat.add_mul_div_left _ _ (by omega)
          omega
      · next hlt =>
          rw [BitVec.le_def] at hlt
          exact ih (by omega) hhalf (by omega) hmod

/-- The quotient is less than the powers of two that an exponent stands for, or it is so small that `div64` makes it
    zero: the exponent of a zero is not looked at. -/
def Divides (x y : TempReal) : Prop :=
  y.mant ≠ 0 ∧ (x.mant.toNat * 2 ^ (x.exp.toNat + 16383) < y.mant.toNat * 2 ^ (y.exp.toNat + 0x8000) ∨
    x.mant = 1 ∧ ∀ j, y.mant.toNat ≠ 2 ^ j)

/-- What is left of a quotient after `q` shifts. -/
theorem quotient_shifted {a d q : Nat} (ha : a < 2 ^ 64) (hd : 2 ^ 63 ≤ d) (hd' : d < 2 ^ 64) :
    a * 2 ^ 64 / (2 * d) * 2 ^ q < 2 ^ 64 ↔ a * 2 ^ q < 2 * d ∨ a = 1 ∧ d ≠ 2 ^ 63 := by
  have hdiv : ∀ k, a * 2 ^ 64 / (2 * d) < k ↔ a * 2 ^ 64 < k * (2 * d) := fun k => Nat.div_lt_iff_lt_mul (by omega)
  have hone := hdiv 1
  rw [Nat.one_mul] at hone
  by_cases hq : q ≤ 64
  · have hpow : 2 ^ 64 = 2 ^ (64 - q) * 2 ^ q := by rw [← Nat.pow_add, Nat.sub_add_cancel hq]
    have hpos := Nat.two_pow_pos q
    have hpos' := Nat.two_pow_pos (64 - q)
    have hleft : a * 2 ^ 64 / (2 * d) * 2 ^ q < 2 ^ 64 ↔ a * 2 ^ 64 / (2 * d) < 2 ^ (64 - q) := by
      rw [show a * 2 ^ 64 / (2 * d) * 2 ^ q < 2 ^ 64 ↔
        a * 2 ^ 64 / (2 * d) * 2 ^ q < 2 ^ (64 - q) * 2 ^ q from by rw [← hpow]]
      exact Nat.mul_lt_mul_right hpos
    have hright : a * 2 ^ 64 < 2 ^ (64 - q) * (2 * d) ↔ a * 2 ^ q < 2 * d := by
      have hmul : a * 2 ^ 64 = 2 ^ (64 - q) * (a * 2 ^ q) := by
        rw [hpow]
        ac_rfl
      rw [hmul]
      exact Nat.mul_lt_mul_left hpos'
    rw [hleft, hdiv, hright]
    refine ⟨Or.inl, fun h => h.elim id fun ⟨h1, hne⟩ => ?_⟩
    have hle : 2 ^ q ≤ 2 ^ 64 := Nat.pow_le_pow_right (by decide) hq
    rw [h1]
    omega
  · have hle : 2 ^ 65 ≤ 2 ^ q := Nat.pow_le_pow_right (by decide) (by omega)
    have hgrow : ∀ k, 0 < k → 2 ^ 65 ≤ k * 2 ^ q := fun k hk => Nat.le_trans hle (Nat.le_mul_of_pos_left _ hk)
    have hleft : a * 2 ^ 64 / (2 * d) * 2 ^ q < 2 ^ 64 ↔ a * 2 ^ 64 / (2 * d) < 1 := by
      rcases Nat.eq_zero_or_pos (a * 2 ^ 64 / (2 * d)) with h0 | hpos
      · rw [h0, Nat.zero_mul]
        decide
      · have hge := hgrow _ hpos
        constructor <;> intro h <;> omega
    rw [hleft, hone]
    rcases Nat.eq_zero_or_pos a with h0 | hpos
    · rw [h0, Nat.zero_mul, Nat.zero_mul]
      exact ⟨fun _ => Or.inl (by omega), fun _ => by omega⟩
    · have hge := hgrow a hpos
      constructor <;> intro h <;> omega

/-- The exponent after `e` shifts at most. -/
theorem normalizeBy_le {e l : Nat} {m : BitVec 64} :
    (if m = 0 then (0, m) else normalizeBy e m).1 ≤ l ↔ m.toNat * 2 ^ (e - l) < 2 ^ 64 := by
  split
  · next h0 =>
      rw [h0]
      refine ⟨fun _ => ?_, fun _ => Nat.zero_le _⟩
      show 0 * 2 ^ (e - l) < 2 ^ 64
      rw [Nat.zero_mul]
      decide
  · next hne =>
      obtain ⟨j, hj, heq, hlt, hend⟩ := normalizeBy_spec e m
      rw [heq]
      show e - j ≤ l ↔ _
      constructor
      · intro hle
        have hpow : 2 ^ (e - l) ≤ 2 ^ j := Nat.pow_le_pow_right (by decide) (by omega)
        exact Nat.lt_of_le_of_lt (Nat.mul_le_mul_left _ hpow) hlt
      · intro hsmall
        rcases hend with rfl | hge
        · omega
        · -- more shifts than these are too many
          apply Nat.le_of_not_lt
          intro hlarge
          have hpow : 2 ^ (j + 1) ≤ 2 ^ (e - l) := Nat.pow_le_pow_right (by decide) (by omega)
          have hmul := Nat.mul_le_mul_left m.toNat hpow
          rw [Nat.pow_succ, ← Nat.mul_assoc] at hmul
          omega

/-- The bound on a quotient, by the numbers that are divided. -/
theorem quotient_bound {a m k e e' c l : Nat} (ha : a < 2 * (m * 2 ^ k)) (he : e' ≤ e + c) :
    a * 2 ^ (e + c - e' + k - l) < 2 * (m * 2 ^ k) ↔ a * 2 ^ (e + c) < m * 2 ^ (e' + (l + 1)) := by
  have hright : m * 2 ^ (e' + (l + 1)) * 2 ^ k = 2 * (m * 2 ^ k) * 2 ^ l * 2 ^ e' := by
    rw [Nat.pow_add, Nat.pow_succ]
    ac_rfl
  have hleft : a * 2 ^ (e + c) * 2 ^ k = a * 2 ^ (e + c - e' + k) * 2 ^ e' := by
    rw [Nat.mul_assoc, Nat.mul_assoc, ← Nat.pow_add, ← Nat.pow_add]
    congr 2
    omega
  rw [← Nat.mul_lt_mul_right (b := a * 2 ^ (e + c)) (Nat.two_pow_pos k), hright, hleft,
    Nat.mul_lt_mul_right (Nat.two_pow_pos e')]
  by_cases hl : l ≤ e + c - e' + k
  · have hsplit : a * 2 ^ (e + c - e' + k) = a * 2 ^ (e + c - e' + k - l) * 2 ^ l := by
      rw [Nat.mul_assoc, ← Nat.pow_add, Nat.sub_add_cancel hl]
    rw [hsplit, Nat.mul_lt_mul_right (Nat.two_pow_pos l)]
  · have hzero : e + c - e' + k - l = 0 := by omega
    have hle : 2 ^ (e + c - e' + k) ≤ 2 ^ l := Nat.pow_le_pow_right (by decide) (by omega)
    rw [hzero, Nat.pow_zero, Nat.mul_one]
    refine ⟨fun _ => ?_, fun _ => ha⟩
    calc a * 2 ^ (e + c - e' + k) ≤ a * 2 ^ l := Nat.mul_le_mul_left _ hle
      _ < 2 * (m * 2 ^ k) * 2 ^ l := Nat.mul_lt_mul_of_pos_right ha (Nat.two_pow_pos l)

theorem shifted_power {m k : Nat} (hk : k ≤ 63) (hge : 2 ^ 63 ≤ m * 2 ^ k) (hlt : m * 2 ^ k < 2 ^ 64) :
    m * 2 ^ k ≠ 2 ^ 63 ↔ ∀ j, m ≠ 2 ^ j := by
  refine ⟨fun hne j hj => ?_, fun h heq => ?_⟩
  · rw [hj, ← Nat.pow_add] at hge hlt hne
    have h63 := (Nat.pow_le_pow_iff_right (by decide)).1 hge
    have h64 := (Nat.pow_lt_pow_iff_right (by decide)).1 hlt
    have hsum : j + k = 63 := by omega
    exact hne (by rw [hsum])
  · apply h (63 - k)
    have hsplit : 2 ^ 63 = 2 ^ (63 - k) * 2 ^ k := by rw [← Nat.pow_add, Nat.sub_add_cancel hk]
    rw [hsplit] at heq
    exact Nat.eq_of_mul_eq_mul_right (Nat.two_pow_pos k) heq

/-- What `div64` makes of two mantissas, the second of which is shifted first. -/
theorem quotient_mant {x y : BitVec 64} (hy : y ≠ 0) : ∃ k ≤ 63, (normalizeBy 63 y).1 = 63 - k ∧
    2 ^ 63 ≤ y.toNat * 2 ^ k ∧ y.toNat * 2 ^ k < 2 ^ 64 ∧
    (div64 64 (x ++ 0#64) ((normalizeBy 63 y).2 ++ 0#64) 0).toNat = x.toNat * 2 ^ 64 / (2 * (y.toNat * 2 ^ k)) := by
  have hpos : 0 < y.toNat := Nat.pos_of_ne_zero fun h => hy (BitVec.eq_of_toNat_eq h)
  obtain ⟨k, hk, hb, hlt, hend⟩ := normalizeBy_spec 63 y
  have hge : 2 ^ 63 ≤ y.toNat * 2 ^ k := by
    rcases hend with rfl | hge
    · exact Nat.le_mul_of_pos_left _ hpos
    · exact hge
  have hdivisor : (normalizeBy 63 y).2.toNat = y.toNat * 2 ^ k := by
    rw [hb]
    show (BitVec.ofNat 64 _).toNat = _
    rw [BitVec.toNat_ofNat, Nat.mod_eq_of_lt hlt]
  have happend : ∀ m : BitVec 64, (m ++ 0#64).toNat = m.toNat * 2 ^ 64 := by
    intro m
    rw [BitVec.toNat_append, ← Nat.shiftLeft_add_eq_or_of_lt (BitVec.isLt _), Nat.shiftLeft_eq]
    exact Nat.add_zero _
  have hless : (x ++ 0#64).toNat < 2 * ((normalizeBy 63 y).2 ++ 0#64).toNat := by
    have hx := x.isLt
    rw [happend, happend, hdivisor]
    omega
  refine ⟨k, hk, by rw [hb], hge, hlt, ?_⟩
  rw [div64_toNat 64 (Nat.le_refl _) ((happend _).trans (by rw [hdivisor])) hless rfl, happend]
  exact Nat.zero_add _

theorem small_quotient {a m e e' : Nat} (ha : a < 2 ^ 64) (hm : 0 < m) (he : 64 + e ≤ e') :
    a * 2 ^ e < m * 2 ^ e' := by
  calc a * 2 ^ e < 2 ^ 64 * 2 ^ e := Nat.mul_lt_mul_of_pos_right ha (Nat.two_pow_pos e)
    _ = 2 ^ (64 + e) := (Nat.pow_add _ _ _).symm
    _ ≤ 2 ^ e' := Nat.pow_le_pow_right (by decide) he
    _ ≤ m * 2 ^ e' := Nat.le_mul_of_pos_left _ hm

/-- **A quotient is stored if it is not too large, or zero.** -/
theorem fdiv_isSome (x y : TempReal) : (fdiv x y).1.isSome ↔ Divides x y := by
  have hunder : (x.exp.toNat - y.exp.toNat + 16383 : Int) < 0 → 64 + (x.exp.toNat + 16383) ≤ y.exp.toNat + 0x8000 := by
    omega
  have ha := x.mant.isLt
  unfold fdiv Divides
  dsimp only
  split
  · next h0 => exact ⟨nofun, fun h => absurd h0 h.1⟩
  next hne =>
  have hpos : 0 < y.mant.toNat := Nat.pos_of_ne_zero fun h => hne (BitVec.eq_of_toNat_eq h)
  obtain ⟨k, hk, hfst, hge, hlt, hquotient⟩ := quotient_mant (x := x.mant) hne
  have hsmall : x.mant.toNat < 2 * (y.mant.toNat * 2 ^ k) := by omega
  split
  · next hneg =>
      -- then the quotient is not large
      refine ⟨fun _ => ⟨hne, Or.inl ?_⟩, fun _ => rfl⟩
      exact small_quotient ha hpos (hunder hneg)
  · next hi =>
      have he : y.exp.toNat ≤ x.exp.toNat + 16383 := by omega
      have htoNat : (x.exp.toNat - y.exp.toNat + 16383 : Int).toNat = x.exp.toNat + 16383 - y.exp.toNat := by omega
      have hbound := quotient_bound (c := 16383) (l := 0x7fff) hsmall he
      have hone : x.mant = 1 ↔ x.mant.toNat = 1 := BitVec.toNat_eq
      rw [hone, ← shifted_power hk hge hlt, ← hbound, ← quotient_shifted ha hge hlt, ← hquotient,
        ← normalizeBy_le, hfst, Nat.sub_sub_self hk, htoNat]
      generalize (if div64 64 (x.mant ++ 0#64) ((normalizeBy 63 y.mant).2 ++ 0#64) 0 = 0 then _ else _) = r
      split
      · next hlarge => exact ⟨nofun, fun h => absurd h.2 (Nat.not_le_of_lt hlarge)⟩
      · next hle => exact ⟨fun _ => ⟨hne, Nat.le_of_not_lt hle⟩, fun _ => rfl⟩

end Math
end Linux095
