import Linux095.Math.Arith
import Linux095.Words.Carry

/-!
# `Math.MulDiv` — `mul.c` and `div.c` word by word

`Math.Arith` has the products and quotients of `mul64` and `div64` as bit vectors. The source has them in four words and
hands the carries on from one instruction to the next; here its functions are once more, with these words.

* `Quad` — `int c[4]`; `Quad.mul64`, `Quad.div64`, `Quad.fmul`, `Quad.fdiv` — the source's functions;
* `Quad.value_mul64` — **the product is exact**; `Quad.divLoop_eq` — the loop of `div64` is that of `Math.div64`;
* `Quad.fmul_eq`, `Quad.fdiv_eq` — the functions are those of `Math.Arith`;
* `fmul_truncates`, `fdiv_close` — **a product is cut off after 64 bits, and a quotient is close from below**.
-/

namespace Linux095
namespace Math

/-! ## The source's functions -/

/-- `int c[4]`, the lowest word first. -/
abbrev Quad : Type := List (BitVec 32)

/-- `set_PE()`. -/
def PE : BitVec 32 := 32

/-- 128 bits are enough for a product. -/
theorem mul64_toNat (a b : BitVec 64) : (mul64 a b).toNat = a.toNat * b.toNat := by
  have ha := a.isLt
  have hb := b.isLt
  have hle : a.toNat * b.toNat ≤ (2 ^ 64 - 1) * (2 ^ 64 - 1) :=
    Nat.mul_le_mul (Nat.le_pred_of_lt ha) (Nat.le_pred_of_lt hb)
  have hwide : ∀ z : BitVec 64, (z.setWidth 128).toNat = z.toNat := by
    intro z
    have hz := z.isLt
    rw [BitVec.toNat_setWidth]
    exact Nat.mod_eq_of_lt (by omega)
  unfold mul64
  rw [BitVec.toNat_mul, hwide, hwide, Nat.mod_eq_of_lt (by omega)]

namespace Quad

open Words (value)

/-- `mull`: what is in `%eax`, and in `%edx`. -/
def mull (x y : BitVec 32) : BitVec 32 × BitVec 32 :=
  let p := x.setWidth 64 * y.setWidth 64
  (low p, high p)

/-- `shift` of `mul.c`, and `shift_left` of `div.c`. -/
def shift (c : Quad) : Quad := (Words.add c c false).1

/-- `mul64`. -/
def mul64 (a b : TempReal) : Quad :=
  let p := mull a.a b.a
  let q := mull a.b b.b
  -- "addl %%eax,4(%2) ; adcl %%edx,8(%2) ; adcl $0,12(%2)", twice
  let r := mull a.a b.b
  let c := (Words.add [p.2, q.1, q.2] [r.1, r.2, 0] false).1
  let r := mull a.b b.a
  p.1 :: (Words.add c [r.1, r.2, 0] false).1

/-- "while (i && tmp[3] >= 0)": what is left of `i`, and the words. -/
def normalize : Nat → Quad → Nat × Quad
  | 0, c => (0, c)
  | i + 1, c => if (c.getD 3 0).msb then (i + 1, c) else normalize i (shift c)

/-- `fmul`. -/
def fmul (src1 src2 : TempReal) : Option TempReal × BitVec 32 :=
  let sign := signOf src1 src2
  let i : Int := src1.exp.toNat + src2.exp.toNat - 16383 + 1
  if i < 0 then (some (real sign 0), 0)
  else if 0x7fff < i then (none, OE)
  else
    let tmp := mul64 src1 src2
    let r := if tmp = [0, 0, 0, 0] then (0, tmp) else normalize i.toNat tmp
    (some ⟨r.2.getD 2 0, r.2.getD 3 0, BitVec.ofNat 16 r.1 ||| sign⟩, 0)

/-- `shift_right`. -/
def shiftRight (c : Quad) : Quad := (Words.shiftRight c).1

/-- `try_sub`: what it returns, and what it leaves of `b`. -/
def trySub (a b : Quad) : Bool × Quad :=
  let r := Words.sub b a false
  -- `setae`
  (!r.2, r.1)

/-- The loop of `div64`: so many times, at the word `p` of the quotient. -/
def divLoop : Nat → Quad → Quad → Quad → Nat → BitVec 32 → Quad
  | 0, _, _, c, _, _ => c
  | n + 1, a, b, c, p, mask =>
      let next := mask >>> 1
      let p := if next = 0 then p - 1 else p
      let mask := if next = 0 then 0x80000000 else next
      let tmp := trySub b a
      if tmp.1 then divLoop n tmp.2 (shiftRight b) (c.modify p (· ||| mask)) p mask
      else divLoop n a (shiftRight b) c p mask

/-- `div64`. -/
def div64 (a b c : Quad) : Quad := divLoop 64 a b c 4 0

/-- `fdiv`. -/
def fdiv (src1 src2 : TempReal) : Option TempReal × BitVec 32 :=
  let sign := signOf src1 src2
  if src2.a = 0 ∧ src2.b = 0 then (none, ZE)
  else
    let i : Int := src1.exp.toNat - src2.exp.toNat + 16383
    if i < 0 then (some (real sign 0), UE)
    else
      -- "while (b[3] >= 0)", at most 63 times
      let b := normalize 63 [0, 0, src2.a, src2.b]
      let i := i.toNat + (63 - b.1)
      let tmp := div64 [0, 0, src1.a, src1.b] b.2 [0, 0, 0, 0]
      let r := if tmp = [0, 0, 0, 0] then (0, tmp) else normalize i tmp
      let flags := if tmp ≠ [0, 0, 0, 0] ∧ (r.2.getD 3 0).msb = false then DE else 0
      if 0x7fff < r.1 then (none, flags ||| OE)
      else
        let flags := if r.2.getD 0 0 ≠ 0 ∨ r.2.getD 1 0 ≠ 0 then flags ||| PE else flags
        (some ⟨r.2.getD 2 0, r.2.getD 3 0, BitVec.ofNat 16 r.1 ||| sign⟩, flags)

/-! ## Products -/

/-- A product of two words leaves room for two carries. -/
theorem product_le (x y : BitVec 32) : x.toNat * y.toNat ≤ (2 ^ 32 - 1) * (2 ^ 32 - 1) :=
  Nat.mul_le_mul (Nat.le_pred_of_lt x.isLt) (Nat.le_pred_of_lt y.isLt)

theorem mull_eq (x y : BitVec 32) : (mull x y).1.toNat + 2 ^ 32 * (mull x y).2.toNat = x.toNat * y.toNat := by
  have hwide : ∀ z : BitVec 32, (z.setWidth 64).toNat = z.toNat := by
    intro z
    have hz := z.isLt
    rw [BitVec.toNat_setWidth]
    exact Nat.mod_eq_of_lt (by omega)
  have hle := product_le x y
  have hmul : (x.setWidth 64 * y.setWidth 64).toNat = x.toNat * y.toNat := by
    rw [BitVec.toNat_mul, hwide, hwide]
    exact Nat.mod_eq_of_lt (by omega)
  have hjoin := toNat_join (mull x y).2 (mull x y).1
  have hwhole : join (mull x y).2 (mull x y).1 = x.setWidth 64 * y.setWidth 64 := join_high_low _
  rw [hwhole, hmul] at hjoin
  omega

/-- Three words to which two are added, without a carry out of them. -/
theorem value_addPair {x y z u v : BitVec 32}
    (h : x.toNat + 2 ^ 32 * (y.toNat + 2 ^ 32 * z.toNat) + (u.toNat + 2 ^ 32 * v.toNat) < 2 ^ 96) :
    value (Words.add [x, y, z] [u, v, 0] false).1 =
      x.toNat + 2 ^ 32 * (y.toNat + 2 ^ 32 * z.toNat) + (u.toNat + 2 ^ 32 * v.toNat) := by
  have hsum := Words.value_add [x, y, z] [u, v, 0] false rfl
  have hzero : (0 : BitVec 32).toNat = 0 := rfl
  simp only [Words.value_cons, Words.value_nil, List.length_cons, List.length_nil, Bool.toNat_false, hzero,
    Nat.mul_zero, Nat.add_zero] at hsum
  cases hc : (Words.add [x, y, z] [u, v, 0] false).2 with
  | false =>
      rw [hc, Bool.toNat_false] at hsum
      omega
  | true =>
      rw [hc, Bool.toNat_true] at hsum
      omega

/-- **The product is exact.** -/
theorem value_mul64 (a b : TempReal) : value (mul64 a b) = a.mant.toNat * b.mant.toNat := by
  have hp := mull_eq a.a b.a
  have hq := mull_eq a.b b.b
  have hr := mull_eq a.a b.b
  have hs := mull_eq a.b b.a
  have hple := product_le a.a b.a
  have hqle := product_le a.b b.b
  have hrle := product_le a.a b.b
  have hsle := product_le a.b b.a
  have hlow := (mull a.a b.a).1.isLt
  have hfirst := value_addPair (x := (mull a.a b.a).2) (y := (mull a.b b.b).1) (z := (mull a.b b.b).2)
    (u := (mull a.a b.b).1) (v := (mull a.a b.b).2) (by omega)
  -- the words of the first sum
  obtain ⟨x, y, z, hwords⟩ : ∃ x y z, (Words.add [(mull a.a b.a).2, (mull a.b b.b).1, (mull a.b b.b).2]
      [(mull a.a b.b).1, (mull a.a b.b).2, 0] false).1 = [x, y, z] :=
    ⟨_, _, _, rfl⟩
  have hmant : a.mant.toNat * b.mant.toNat = a.a.toNat * b.a.toNat +
      2 ^ 32 * (a.a.toNat * b.b.toNat + a.b.toNat * b.a.toNat) + 2 ^ 64 * (a.b.toNat * b.b.toNat) := by
    unfold TempReal.mant
    rw [toNat_join, toNat_join]
    ring
  rw [hwords] at hfirst
  simp only [Words.value_cons, Words.value_nil, Nat.mul_zero, Nat.add_zero] at hfirst
  have hsecond := value_addPair (x := x) (y := y) (z := z) (u := (mull a.b b.a).1) (v := (mull a.b b.a).2) (by omega)
  unfold mul64
  dsimp only
  rw [hwords, Words.value_cons, hsecond, hmant]
  omega

/-! ## Shifts -/

theorem length_shift {c : Quad} (h : c.length = 4) : (shift c).length = 4 := by
  unfold shift
  rw [Words.length_add false rfl, h]

/-- A shift doubles what has room for it. -/
theorem value_shift {c : Quad} (h : c.length = 4) (hlt : value c < 2 ^ 127) : value (shift c) = 2 * value c := by
  have hsum := Words.value_add c c false rfl
  rw [h, Bool.toNat_false] at hsum
  unfold shift
  cases hc : (Words.add c c false).2 with
  | false =>
      rw [hc, Bool.toNat_false] at hsum
      omega
  | true =>
      rw [hc, Bool.toNat_true] at hsum
      omega

/-- The words that hold a bit vector, shifted to the left by `s` bits, are normalised as it is. -/
theorem normalize_eq {s w : ℕ} (hw : 0 < w) (hsw : s + w = 128) (n : ℕ) {c : Quad} {m : BitVec w} (hlen : c.length = 4)
    (hc : value c = 2 ^ s * m.toNat) : (normalize n c).1 = (normalizeBy n m).1 ∧
      (normalize n c).2.length = 4 ∧ value (normalize n c).2 = 2 ^ s * (normalizeBy n m).2.toNat := by
  induction n generalizing c m with
  | zero => exact ⟨rfl, hlen, hc⟩
  | succ n ih =>
      have hhalf : 2 ^ 127 = 2 ^ s * 2 ^ (w - 1) := by
        rw [← Nat.pow_add]
        congr 1
        omega
      have hpow : 2 ^ w = 2 * 2 ^ (w - 1) := by rw [← Nat.pow_succ', Nat.succ_eq_add_one, Nat.sub_add_cancel hw]
      have hmsb : (c.getD 3 0).msb = m.msb := by
        rw [Bool.eq_iff_iff, Words.msb_last (by decide) hlen, BitVec.msb_eq_true_iff_two_mul_ge, hc]
        show 2 ^ 127 ≤ _ ↔ _
        rw [hhalf, Nat.mul_le_mul_left_iff (Nat.two_pow_pos s)]
        omega
      unfold normalize normalizeBy
      rw [hmsb]
      by_cases htop : m.msb = true
      · rw [if_pos htop, if_pos htop]
        exact ⟨rfl, hlen, hc⟩
      · have hsmall : 2 * m.toNat < 2 ^ w := BitVec.msb_eq_false_iff_two_mul_lt.1 (Bool.eq_false_iff.2 htop)
        have hlt : value c < 2 ^ 127 := by
          rw [hc, hhalf]
          exact Nat.mul_lt_mul_of_pos_left (by omega) (Nat.two_pow_pos s)
        rw [if_neg htop, if_neg htop]
        apply ih (length_shift hlen)
        rw [value_shift hlen hlt, hc, BitVec.toNat_add, Nat.mod_eq_of_lt (by omega)]
        ring

/-- The upper two words are the mantissa. -/
theorem upper_words {c : Quad} (h : c.length = 4) :
    (join (c.getD 3 0) (c.getD 2 0)).toNat = value c / 2 ^ 64 ∧
      (value c % 2 ^ 64 = 0 ↔ c.getD 0 0 = 0 ∧ c.getD 1 0 = 0) := by
  obtain ⟨x, y, z, u, rfl⟩ : ∃ x y z u, c = [x, y, z, u] := by
    rcases c with _ | ⟨x, _ | ⟨y, _ | ⟨z, _ | ⟨u, _ | ⟨v, c⟩⟩⟩⟩⟩ <;> cases h
    exact ⟨x, y, z, u, rfl⟩
  have hx := x.isLt
  have hy := y.isLt
  have hzero : ∀ v : BitVec 32, v = 0 ↔ v.toNat = 0 := fun v => BitVec.toNat_eq
  simp only [List.getD_cons_zero, List.getD_cons_succ, toNat_join, Words.value_cons, Words.value_nil, Nat.mul_zero,
    Nat.add_zero, hzero]
  omega

theorem real_words {c : Quad} {m : BitVec 64} (e : BitVec 16) (h : c.length = 4) (hm : value c / 2 ^ 64 = m.toNat) :
    (⟨c.getD 2 0, c.getD 3 0, e⟩ : TempReal) = real e m := by
  have hjoin : join (c.getD 3 0) (c.getD 2 0) = m :=
    BitVec.eq_of_toNat_eq ((upper_words h).1.trans hm)
  unfold real
  rw [← hjoin, low_join, high_join]

theorem quad_eq_zero {c : Quad} (h : c.length = 4) : c = [0, 0, 0, 0] ↔ value c = 0 := by
  rw [Words.value_eq_zero]
  constructor
  · rintro rfl
    simp
  · intro hzero
    exact List.eq_replicate_iff.2 ⟨h, hzero⟩

theorem msb_upper {c : Quad} {m : BitVec 64} (h : c.length = 4) (hc : value c = 2 ^ 64 * m.toNat) :
    (c.getD 3 0).msb = m.msb := by
  rw [Bool.eq_iff_iff, Words.msb_last (by decide) h, BitVec.msb_eq_true_iff_two_mul_ge, hc]
  omega

theorem length_mul64 (a b : TempReal) : (mul64 a b).length = 4 := by
  unfold mul64
  simp [Words.add]

/-- **`fmul` is what it is with bit vectors.** -/
theorem fmul_eq (x y : TempReal) : fmul x y = Math.fmul x y := by
  have hlen := length_mul64 x y
  have hvalue : value (mul64 x y) = 2 ^ 0 * (Math.mul64 x.mant y.mant).toNat := by
    rw [value_mul64, mul64_toNat, Nat.pow_zero, Nat.one_mul]
  have hzero : mul64 x y = [0, 0, 0, 0] ↔ Math.mul64 x.mant y.mant = 0 := by
    rw [quad_eq_zero hlen, hvalue, Nat.pow_zero, Nat.one_mul, BitVec.toNat_eq]
    rfl
  have hupper : ∀ (m : BitVec 128), m.toNat / 2 ^ 64 = (m.extractLsb' 64 64).toNat := by
    intro m
    have hm := m.isLt
    rw [BitVec.extractLsb'_toNat, Nat.shiftRight_eq_div_pow]
    exact (Nat.mod_eq_of_lt (by omega)).symm
  unfold fmul Math.fmul
  dsimp only
  split
  · rfl
  split
  · rfl
  by_cases h0 : Math.mul64 x.mant y.mant = 0
  · rw [if_pos (hzero.2 h0), if_pos h0]
    rw [real_words _ hlen (by rw [hvalue, Nat.pow_zero, Nat.one_mul]; exact hupper _)]
  · obtain ⟨hfst, hlen', hsnd⟩ :=
      normalize_eq (by decide) rfl (x.exp.toNat + y.exp.toNat - 16383 + 1 : Int).toNat hlen hvalue
    rw [if_neg fun h => h0 (hzero.1 h), if_neg h0, hfst]
    rw [real_words _ hlen' (by rw [hsnd, Nat.pow_zero, Nat.one_mul]; exact hupper _)]

/-! ## Quotients -/

theorem length_divLoop (n : ℕ) (a b : Quad) {c : Quad} (p : ℕ) (mask : BitVec 32) :
    (divLoop n a b c p mask).length = c.length := by
  induction n generalizing a b c p mask with
  | zero => rfl
  | succ n ih =>
      unfold divLoop
      dsimp only
      split
      · rw [ih, List.length_modify]
      · rw [ih]

/-- The word and the bit that come next: `n` bits are left. -/
def Places (n p : ℕ) (mask : BitVec 32) : Prop :=
  p = 2 + n / 32 ∧ mask >>> 1 = if n % 32 = 0 then 0 else BitVec.ofNat 32 (2 ^ (n % 32 - 1))

/-- "if (!(mask >>= 1))": on to the next bit, or to the next word. -/
theorem places_next {n p : ℕ} {mask : BitVec 32} (h : Places (n + 1) p mask) :
    (if mask >>> 1 = 0 then p - 1 else p) = 2 + n / 32 ∧
      (if mask >>> 1 = 0 then (0x80000000 : BitVec 32) else mask >>> 1) = BitVec.ofNat 32 (2 ^ (n % 32)) := by
  obtain ⟨hp, hmask⟩ := h
  by_cases h0 : (n + 1) % 32 = 0
  · have hlast : n % 32 = 31 := by omega
    rw [if_pos h0] at hmask
    rw [if_pos hmask, if_pos hmask, hlast, hp]
    exact ⟨by omega, rfl⟩
  · have hexp : (n + 1) % 32 - 1 = n % 32 := by omega
    have hne : mask >>> 1 ≠ 0 := by
      have hlt : 2 ^ (n % 32) < 2 ^ 32 := Nat.pow_lt_pow_right (by decide) (Nat.mod_lt n (by decide))
      have hpos := Nat.two_pow_pos (n % 32)
      rw [if_neg h0, hexp] at hmask
      rw [hmask, ne_eq, BitVec.toNat_eq, BitVec.toNat_ofNat, Nat.mod_eq_of_lt hlt]
      exact hpos.ne'
    rw [if_neg h0, hexp] at hmask
    rw [if_neg hne, if_neg hne, hp]
    exact ⟨by omega, hmask⟩

theorem places_of_bit (n : ℕ) : Places n (2 + n / 32) (BitVec.ofNat 32 (2 ^ (n % 32))) := by
  refine ⟨rfl, ?_⟩
  have hlt : n % 32 < 32 := Nat.mod_lt n (by decide)
  have hpow : 2 ^ (n % 32) < 2 ^ 32 := Nat.pow_lt_pow_right (by decide) hlt
  apply BitVec.eq_of_toNat_eq
  rw [BitVec.toNat_ushiftRight, BitVec.toNat_ofNat, Nat.mod_eq_of_lt hpow, Nat.shiftRight_eq_div_pow]
  by_cases h0 : n % 32 = 0
  · rw [if_pos h0, h0]
    rfl
  · obtain ⟨k, hk⟩ : ∃ k, n % 32 = k + 1 := ⟨n % 32 - 1, by omega⟩
    rw [if_neg h0, hk, Nat.add_sub_cancel, BitVec.toNat_ofNat, Nat.pow_succ, Nat.pow_one,
      Nat.mul_div_cancel _ (by decide), Nat.mod_eq_of_lt]
    exact Nat.pow_lt_pow_right (by decide) (by omega)

/-- **The loop divides as that of `Math.div64` does**, and the lower two words of the quotient stay zero. -/
theorem divLoop_eq {n p : ℕ} {a b c : Quad} {mask : BitVec 32} {A B : BitVec 128} {C : BitVec 64} (hn : n ≤ 64)
    (hla : a.length = 4) (hlb : b.length = 4) (hlc : c.length = 4) (ha : value a = A.toNat) (hb : value b = B.toNat)
    (hc : value c = 2 ^ 64 * C.toNat) (hclear : C.toNat % 2 ^ n = 0) (hp : Places n p mask) :
    value (divLoop n a b c p mask) = 2 ^ 64 * (Math.div64 n A B C).toNat := by
  induction n generalizing p a b c mask A B C with
  | zero => exact hc
  | succ n ih =>
      obtain ⟨hword, hbit⟩ := places_next hp
      have hborrow := Words.borrow_sub (hla.trans hlb.symm)
      have hshift : value (shiftRight b) = (B >>> 1).toNat := by
        unfold shiftRight
        rw [(Words.value_shiftRight (by decide) b).1, hb, BitVec.toNat_ushiftRight, Nat.shiftRight_eq_div_pow,
          Nat.pow_one]
      have hlshift : (shiftRight b).length = 4 := (Words.length_shiftRight b).trans hlb
      have hrest : C.toNat % 2 ^ n = 0 := by
        have hdvd : 2 ^ n ∣ 2 ^ (n + 1) := Nat.pow_dvd_pow 2 (Nat.le_succ n)
        exact Nat.mod_eq_zero_of_dvd (Nat.dvd_trans hdvd (Nat.dvd_of_mod_eq_zero hclear))
      unfold divLoop Math.div64 trySub
      dsimp only
      rw [hword, hbit, hborrow, ha, hb]
      by_cases hle : B ≤ A
      · rw [BitVec.le_def] at hle
        have hsub : value (Words.sub a b false).1 = (A - B).toNat := by
          rw [Words.value_sub_of_le (hla.trans hlb.symm) (by rwa [ha, hb]), ha, hb,
            BitVec.toNat_sub_of_le (BitVec.le_def.2 hle)]
        have hlsub : (Words.sub a b false).1.length = 4 :=
          (Words.length_sub false (hla.trans hlb.symm)).trans hla
        have hplace : 32 * (2 + n / 32) + n % 32 = 64 + n := by omega
        have hmod : value c % 2 ^ (32 * (2 + n / 32) + (n % 32 + 1)) = 0 := by
          have hexp : 32 * (2 + n / 32) + (n % 32 + 1) = 64 + (n + 1) := by omega
          rw [hc, hexp, Nat.pow_add, Nat.mul_mod_mul_left, hclear, Nat.mul_zero]
        have hor := toNat_or_bit (by omega) hclear
        have hset : value (c.modify (2 + n / 32) (· ||| BitVec.ofNat 32 (2 ^ (n % 32)))) =
            2 ^ 64 * (C ||| (1 : BitVec 64) <<< n).toNat := by
          rw [Words.value_or (by omega) (Nat.mod_lt n (by decide)) hmod, hc, hplace, hor, Nat.mul_add, ← Nat.pow_add]
        rw [decide_eq_false (Nat.not_lt_of_le hle), Bool.not_false, if_pos rfl, if_pos (BitVec.le_def.2 hle)]
        exact ih (by omega) hlsub hlshift ((List.length_modify _ _ _).trans hlc) hsub hshift hset
          (by rw [hor, Nat.add_mod_right]; exact hrest) (places_of_bit n)
      · rw [BitVec.le_def] at hle
        rw [decide_eq_true (Nat.lt_of_not_le hle), Bool.not_true, if_neg Bool.false_ne_true,
          if_neg fun h => hle (BitVec.le_def.1 h)]
        exact ih (by omega) hla hlshift hlc ha hshift hc hrest (places_of_bit n)

/-- A mantissa in the upper two words. -/
theorem value_upper (x : TempReal) : value [0, 0, x.a, x.b] = 2 ^ 64 * x.mant.toNat := by
  have hzero : (0 : BitVec 32).toNat = 0 := rfl
  unfold TempReal.mant
  rw [toNat_join]
  simp only [Words.value_cons, Words.value_nil, hzero]
  omega

theorem toNat_append_zero (m : BitVec 64) : (m ++ 0#64).toNat = 2 ^ 64 * m.toNat := by
  rw [BitVec.toNat_append, ← Nat.shiftLeft_add_eq_or_of_lt (BitVec.isLt _), Nat.shiftLeft_eq, Nat.mul_comm]
  exact Nat.add_zero _

/-- What `div64` makes of two mantissas. -/
theorem div64_eq {a b : Quad} {m d : BitVec 64} (hla : a.length = 4) (hlb : b.length = 4)
    (ha : value a = 2 ^ 64 * m.toNat) (hb : value b = 2 ^ 64 * d.toNat) :
    value (div64 a b [0, 0, 0, 0]) = 2 ^ 64 * (Math.div64 64 (m ++ 0#64) (d ++ 0#64) 0).toNat := by
  unfold div64
  exact divLoop_eq (Nat.le_refl 64) hla hlb rfl (ha.trans (toNat_append_zero m).symm)
    (hb.trans (toNat_append_zero d).symm) rfl rfl ⟨rfl, rfl⟩

/-- **The quotient is rounded down, and nothing else is lost.** -/
theorem value_div64 (a : TempReal) {b : TempReal} (h : b.mant.msb = true) :
    value (div64 [0, 0, a.a, a.b] [0, 0, b.a, b.b] [0, 0, 0, 0]) =
      2 ^ 64 * (2 ^ 63 * a.mant.toNat / b.mant.toNat) := by
  have hge := BitVec.msb_eq_true_iff_two_mul_ge.1 h
  have ha := a.mant.isLt
  have hless : (a.mant ++ 0#64).toNat < 2 * (b.mant ++ 0#64).toNat := by
    rw [toNat_append_zero, toNat_append_zero]
    omega
  have hdivisor : (b.mant ++ 0#64).toNat = b.mant.toNat * 2 ^ 64 := by rw [toNat_append_zero, Nat.mul_comm]
  have htwice : 2 ^ 64 * a.mant.toNat = 2 * (2 ^ 63 * a.mant.toNat) := by omega
  rw [div64_eq rfl rfl (value_upper a) (value_upper b), div64_toNat 64 (Nat.le_refl 64) hdivisor hless rfl,
    toNat_append_zero, htwice, Nat.mul_div_mul_left _ _ (by decide)]
  exact congrArg (2 ^ 64 * ·) (Nat.zero_add _)

theorem length_div64 (a b : Quad) : (div64 a b [0, 0, 0, 0]).length = 4 := length_divLoop 64 a b 4 0

/-- **`fdiv` is what it is with bit vectors.** -/
theorem fdiv_eq (x y : TempReal) : fdiv x y = Math.fdiv x y := by
  have hzero : y.a = 0 ∧ y.b = 0 ↔ y.mant = 0 := by
    have ha : y.a = 0 ↔ y.a.toNat = 0 := BitVec.toNat_eq
    have hb : y.b = 0 ↔ y.b.toNat = 0 := BitVec.toNat_eq
    have hm : y.mant = 0 ↔ y.mant.toNat = 0 := BitVec.toNat_eq
    rw [ha, hb, hm]
    unfold TempReal.mant
    rw [toNat_join]
    omega
  obtain ⟨hfst, hlb, hb⟩ := normalize_eq (by decide) rfl 63 rfl (value_upper y)
  have htmp := div64_eq (a := [0, 0, x.a, x.b]) rfl hlb (value_upper x) hb
  have hlt := length_div64 [0, 0, x.a, x.b] (normalize 63 [0, 0, y.a, y.b]).2
  unfold fdiv Math.fdiv
  dsimp only
  rw [hfst]
  generalize div64 [0, 0, x.a, x.b] (normalize 63 [0, 0, y.a, y.b]).2 [0, 0, 0, 0] = tmp at *
  generalize Math.div64 64 (x.mant ++ 0#64) ((normalizeBy 63 y.mant).2 ++ 0#64) 0 = q at *
  generalize (x.exp.toNat - y.exp.toNat + 16383 : Int).toNat + (63 - (normalizeBy 63 y.mant).1) = i
  by_cases h0 : y.mant = 0
  · rw [if_pos (hzero.2 h0), if_pos h0]
  rw [if_neg fun h => h0 (hzero.1 h), if_neg h0]
  split
  · rfl
  have hq : tmp = [0, 0, 0, 0] ↔ q = 0 := by
    rw [quad_eq_zero hlt, htmp, BitVec.toNat_eq]
    show _ ↔ q.toNat = 0
    omega
  -- the two loops end with the same words
  have hloops : ∃ j c m, (if tmp = [0, 0, 0, 0] then (0, tmp) else normalize i tmp) = (j, c) ∧
      (if q = 0 then (0, q) else normalizeBy i q) = (j, m) ∧ c.length = 4 ∧ value c = 2 ^ 64 * m.toNat := by
    by_cases hq0 : q = 0
    · rw [if_pos (hq.2 hq0), if_pos hq0]
      exact ⟨0, tmp, q, rfl, rfl, hlt, htmp⟩
    · obtain ⟨hj, hlen, hvalue⟩ := normalize_eq (by decide) rfl i hlt htmp
      rw [if_neg fun h => hq0 (hq.1 h), if_neg hq0]
      exact ⟨_, _, _, Prod.mk.eta.symm, Prod.ext hj.symm rfl, hlen, hvalue⟩
  obtain ⟨j, c, m, hc, hm, hlen, hvalue⟩ := hloops
  have hlow : ¬ (c.getD 0 0 ≠ 0 ∨ c.getD 1 0 ≠ 0) := by
    have hwords := (upper_words hlen).2.1 (by rw [hvalue, Nat.mul_mod_right])
    rw [not_or, not_not, not_not]
    exact hwords
  rw [hc, hm]
  dsimp only
  rw [msb_upper hlen hvalue, if_neg hlow,
    real_words _ hlen (by rw [hvalue, Nat.mul_div_cancel_left _ (by decide)])]
  simp only [ne_eq, hq]

end Quad

/-! ## The numbers -/

open Floats

section Numbers

variable {x y : TempReal}

/-- Normalised, with an exponent that is not zero. -/
def TempReal.Normalised (t : TempReal) : Prop := t.mant.msb = true ∧ 1 ≤ t.exp.toNat

/-- The exponent field of a number that is written with the first bit set. -/
def exponentOf (q : ℚ) : ℤ := Int.log 2 |q| + 16383

theorem abs_normalised {t : TempReal} (h : t.Normalised) :
    |t.value| = t.mant.toNat * 2 ^ ((t.exp.toNat : ℤ) - 16446) := by
  have hmax : max t.exp.toNat 1 = t.exp.toNat := Nat.max_eq_left h.2
  have hpos : (0 : ℚ) < 2 ^ ((t.exp.toNat : ℤ) - 16446) := zpow_pos two_pos _
  have hsgn : |((sgn t.neg : ℤ) : ℚ)| = 1 := by
    cases t.neg <;> simp [sgn]
  unfold TempReal.value
  rw [hmax, abs_mul, abs_mul, hsgn, one_mul, Nat.abs_cast, abs_of_pos hpos]

theorem value_eq_sgn (t : TempReal) : t.value = sgn t.neg * |t.value| := by
  have hpos : (0 : ℚ) < 2 ^ ((max t.exp.toNat 1 : ℕ) - 16446 : ℤ) := zpow_pos two_pos _
  have hsgn : |((sgn t.neg : ℤ) : ℚ)| = 1 := by
    cases t.neg <;> simp [sgn]
  unfold TempReal.value
  rw [abs_mul, abs_mul, hsgn, one_mul, Nat.abs_cast, abs_of_pos hpos, mul_assoc]

theorem sgn_bne (b b' : Bool) : sgn (b != b') = sgn b * sgn b' := by
  cases b <;> cases b' <;> rfl

theorem two_pow_le_mant {t : TempReal} (h : t.Normalised) : 2 ^ 63 ≤ t.mant.toNat := by
  have := BitVec.msb_eq_true_iff_two_mul_ge.1 h.1
  omega

theorem and_sign (v : BitVec 16) : v &&& 0x8000 = if v.msb then 0x8000 else 0 := by
  have hmask : ∀ i : Fin 16, (0x8000 : BitVec 16).getLsbD i = decide (i.val = 15) := by decide
  apply BitVec.eq_of_getLsbD_eq
  intro i hi
  rw [BitVec.getLsbD_and, hmask ⟨i, hi⟩]
  by_cases h15 : i = 15
  · subst h15
    rw [BitVec.msb_eq_getLsbD_last]
    cases h : v.getLsbD (16 - 1) <;> simp_all
  · rw [decide_eq_false h15, Bool.and_false]
    split
    · rw [hmask ⟨i, hi⟩, decide_eq_false h15]
    · exact BitVec.getLsbD_zero.symm

/-- A result of an exponent, a sign and a mantissa. -/
theorem real_signed {e : ℕ} (he : e < 2 ^ 15) (m : BitVec 64) (x y : TempReal) :
    (real (BitVec.ofNat 16 e ||| signOf x y) m).neg = (x.neg != y.neg) ∧
      (real (BitVec.ofNat 16 e ||| signOf x y) m).exp.toNat = e := by
  have hsmall : (BitVec.ofNat 16 e).toNat = e := by
    rw [BitVec.toNat_ofNat]
    exact Nat.mod_eq_of_lt (by omega)
  have hsign : signOf x y = if x.neg != y.neg then 0x8000 else 0 := by
    unfold signOf
    rw [and_sign, BitVec.msb_xor]
    rfl
  apply neg_exp_of_exponent he
  rw [exponent_real, hsign]
  cases x.neg != y.neg with
  | false =>
      have hor : BitVec.ofNat 16 e ||| 0 = BitVec.ofNat 16 e := BitVec.or_zero
      rw [if_neg Bool.false_ne_true, if_neg Bool.false_ne_true, hor, hsmall, Nat.add_zero]
  | true =>
      have hmask : (0x8000 : BitVec 16).toNat = 2 ^ 15 * 1 := rfl
      rw [if_pos rfl, if_pos rfl, BitVec.toNat_or, hsmall, hmask, Nat.or_comm, ← Nat.two_pow_add_eq_or_of_lt he]
      exact Nat.add_comm _ _

theorem normalizeBy_top {w : ℕ} {m : BitVec w} (h : m.msb = true) (i : ℕ) : normalizeBy i m = (i, m) := by
  cases i with
  | zero => rfl
  | succ i =>
      unfold normalizeBy
      rw [if_pos h]

/-- Up to one shift makes a mantissa normalised that has its first or its second bit. -/
theorem normalizeBy_shift {w : ℕ} (hw : 0 < w) {m : BitVec w} {s : ℕ} (hs : s ≤ 1)
    (hge : 2 ^ (w - 1) ≤ m.toNat * 2 ^ s) (hlt : m.toNat * 2 ^ s < 2 ^ w) (i : ℕ) :
    ∃ n, normalizeBy (i + s) m = (i, n) ∧ n.toNat = m.toNat * 2 ^ s ∧ n.msb = true := by
  have hpow : 2 ^ w = 2 * 2 ^ (w - 1) := by rw [← Nat.pow_succ', Nat.succ_eq_add_one, Nat.sub_add_cancel hw]
  obtain rfl | rfl : s = 0 ∨ s = 1 := by omega
  · have htop : m.msb = true := by
      rw [BitVec.msb_eq_true_iff_two_mul_ge]
      omega
    exact ⟨m, normalizeBy_top htop i, by rw [Nat.pow_zero, Nat.mul_one], htop⟩
  · rw [Nat.pow_one] at hge hlt ⊢
    by_cases htop : m.msb = true
    · rw [BitVec.msb_eq_true_iff_two_mul_ge] at htop
      omega
    · have hdouble : (m + m).toNat = m.toNat * 2 := by
        rw [BitVec.toNat_add, Nat.mod_eq_of_lt (by omega)]
        omega
      have htop' : (m + m).msb = true := by
        rw [BitVec.msb_eq_true_iff_two_mul_ge, hdouble]
        omega
      refine ⟨m + m, ?_, hdouble, htop'⟩
      have hstep : normalizeBy (i + 1) m = normalizeBy i (m + m) := by
        rw [normalizeBy, if_neg htop]
      rw [hstep, normalizeBy_top htop']

/-! ### Products -/

/-- The exponent field of a product or a quotient of normalised numbers, from the first bit of the magnitude. -/
theorem exponentOf_scaled {q : ℚ} {n d : ℕ} {k : ℕ} {z : ℤ} (hd : 0 < d) (hq : |q| = (n / d : ℚ) * 2 ^ z)
    (hlo : d * 2 ^ k ≤ n) (hhi : n < d * 2 ^ (k + 1)) : exponentOf q = k + z + 16383 := by
  have hd' : (0 : ℚ) < d := by exact_mod_cast hd
  have hn : 0 < n := Nat.lt_of_lt_of_le (Nat.mul_pos hd (Nat.two_pow_pos k)) hlo
  have hpos : (0 : ℚ) < n / d := div_pos (by exact_mod_cast hn) hd'
  have hle : (2 : ℚ) ^ (k : ℤ) ≤ n / d := by
    rw [zpow_natCast, le_div_iff₀ hd', mul_comm]
    exact_mod_cast hlo
  have hlt : (n / d : ℚ) < 2 ^ ((k : ℤ) + 1) := by
    have hexp : ((k : ℤ) + 1) = ((k + 1 : ℕ) : ℤ) := rfl
    rw [hexp, zpow_natCast, div_lt_iff₀ hd', mul_comm]
    exact_mod_cast hhi
  have hlog : Int.log 2 (n / d : ℚ) = k := by
    have hge := (Int.zpow_le_iff_le_log (b := 2) (x := (k : ℤ)) (by decide) hpos).1 (by rwa [Nat.cast_ofNat])
    have hle := (Int.lt_zpow_iff_log_lt (b := 2) (x := (k : ℤ) + 1) (by decide) hpos).1 (by rwa [Nat.cast_ofNat])
    omega
  unfold exponentOf
  rw [hq, log_mul_two_zpow hpos, hlog]

/-- How often a product is shifted. -/
theorem exists_shift {n j : ℕ} (hlo : 2 ^ j ≤ n) (hhi : n < 2 ^ (j + 2)) :
    ∃ s ≤ 1, 2 ^ (j + 1) ≤ n * 2 ^ s ∧ n * 2 ^ s < 2 ^ (j + 2) := by
  have h1 : 2 ^ (j + 1) = 2 ^ j * 2 := Nat.pow_succ 2 j
  have h2 : 2 ^ (j + 2) = 2 ^ j * 2 * 2 := by rw [Nat.pow_succ, h1]
  by_cases h : 2 ^ (j + 1) ≤ n
  · exact ⟨0, by omega, by omega, by omega⟩
  · exact ⟨1, by omega, by omega, by omega⟩

/-- A mantissa of 128 bits, cut off after the upper half. -/
theorem truncated_value {r : TempReal} {N k : ℕ} (hlo : 2 ^ 127 ≤ N) (hhi : N < 2 ^ 128) (hexp : r.exp.toNat = k + 1)
    (hmant : r.mant.toNat = N / 2 ^ 64) : r.value =
      roundTo .zero 64 (-16445) (sgn r.neg * ((N * 2 ^ k : ℕ) / (2 ^ 64 : ℕ) : ℚ) * 2 ^ (-16445 : ℤ)) := by
  have hquot : N * 2 ^ k / (2 ^ 64 * 2 ^ k) = N / 2 ^ 64 := Nat.mul_div_mul_right _ _ (Nat.two_pow_pos k)
  have hge : 2 ^ (64 - 1 + k) ≤ N * 2 ^ k / 2 ^ 64 := by
    rw [Nat.le_div_iff_mul_le (by decide), Nat.pow_add, Nat.mul_right_comm]
    exact Nat.mul_le_mul_right _ hlo
  have hlt : N * 2 ^ k / 2 ^ 64 < 2 ^ (64 + k) := by
    rw [Nat.div_lt_iff_lt_mul (by decide), Nat.pow_add, Nat.mul_right_comm]
    exact Nat.mul_lt_mul_of_pos_right hhi (Nat.two_pow_pos k)
  have hdir : Mode.zero.dir r.neg = .toward := by cases r.neg <;> rfl
  have hmax : max r.exp.toNat 1 = k + 1 := by omega
  have hz : (((k + 1 : ℕ) : ℤ) - 16446) = (k : ℤ) + -16445 := by omega
  rw [roundTo_signed .zero (by decide) (-16445) r.neg (N * 2 ^ k) (by decide), hdir,
    roundMag_of_le .toward (by decide) hge hlt, roundNat_toward, hquot]
  unfold TempReal.value
  rw [hmax, hmant, hz, zpow_add₀ two_ne_zero, zpow_natCast, Nat.cast_mul, Nat.cast_pow, Nat.cast_ofNat]
  ring

/-- **The result of a multiplication is the exact product, cut off after 64 bits.** -/
theorem fmul_truncates (hx : x.Normalised) (hy : y.Normalised) (hlo : 1 ≤ exponentOf (x.value * y.value))
    (hhi : exponentOf (x.value * y.value) ≤ 0x7ffe) :
    ∃ r, (fmul x y).1 = some r ∧ r.mant.msb = true ∧ r.value = roundTo .zero 64 (-16445) (x.value * y.value) := by
  have hmx := two_pow_le_mant hx
  have hmy := two_pow_le_mant hy
  have hplo : 2 ^ 126 ≤ x.mant.toNat * y.mant.toNat := by
    calc 2 ^ 126 = 2 ^ 63 * 2 ^ 63 := by rw [← Nat.pow_add]
      _ ≤ x.mant.toNat * y.mant.toNat := Nat.mul_le_mul hmx hmy
  have hphi : x.mant.toNat * y.mant.toNat < 2 ^ 128 := by
    rw [← mul64_toNat]
    exact BitVec.isLt _
  obtain ⟨s, hs, hge, hlt⟩ := exists_shift hplo hphi
  -- the exact product
  have habs : |x.value * y.value| = ((x.mant.toNat * y.mant.toNat * 2 ^ s : ℕ) / (1 : ℕ) : ℚ) *
      2 ^ ((x.exp.toNat + y.exp.toNat : ℤ) - 32892 - s) := by
    have hexp : ((x.exp.toNat + y.exp.toNat : ℤ) - 32892 - s) =
        (x.exp.toNat : ℤ) - 16446 + ((y.exp.toNat : ℤ) - 16446) - s := by ring
    have htwo : (2 : ℚ) ^ s ≠ 0 := pow_ne_zero _ two_ne_zero
    rw [abs_mul, abs_normalised hx, abs_normalised hy, hexp]
    generalize (x.exp.toNat : ℤ) - 16446 = p
    generalize (y.exp.toNat : ℤ) - 16446 = q
    rw [zpow_sub₀ two_ne_zero (p + q), zpow_add₀ two_ne_zero, zpow_natCast]
    push_cast
    field_simp
  have hfield : exponentOf (x.value * y.value) = (127 : ℕ) + ((x.exp.toNat + y.exp.toNat : ℤ) - 32892 - s) + 16383 :=
    exponentOf_scaled (n := x.mant.toNat * y.mant.toNat * 2 ^ s) one_pos habs (by omega) (by omega)
  obtain ⟨k, hk⟩ : ∃ k : ℕ, x.exp.toNat + y.exp.toNat = k + 16383 + s :=
    ⟨x.exp.toNat + y.exp.toNat - 16383 - s, by omega⟩
  have htmp : (mul64 x.mant y.mant).toNat = x.mant.toNat * y.mant.toNat := mul64_toNat _ _
  obtain ⟨n, hn, hmant, -⟩ := normalizeBy_shift (m := mul64 x.mant y.mant) (by decide) hs (by rw [htmp]; exact hge)
    (by rw [htmp]; exact hlt) (k + 1)
  rw [htmp] at hmant
  have hupper : (n.extractLsb' 64 64).toNat = n.toNat / 2 ^ 64 := by
    have hbound := n.isLt
    rw [BitVec.extractLsb'_toNat, Nat.shiftRight_eq_div_pow]
    exact Nat.mod_eq_of_lt (by omega)
  obtain ⟨hneg, hexp⟩ := real_signed (e := k + 1) (by omega) (n.extractLsb' 64 64) x y
  refine ⟨real (BitVec.ofNat 16 (k + 1) ||| signOf x y) (n.extractLsb' 64 64), ?_, ?_, ?_⟩
  · have hi : (x.exp.toNat + y.exp.toNat - 16383 + 1 : Int).toNat = k + 1 + s := by omega
    have hne : mul64 x.mant y.mant ≠ 0 := by
      intro h0
      rw [h0] at htmp
      change 0 = _ at htmp
      omega
    unfold fmul
    dsimp only
    rw [if_neg (by omega), if_neg (by omega), if_neg hne, hi, hn]
  · rw [mant_real, BitVec.msb_eq_true_iff_two_mul_ge, hupper, hmant]
    omega
  · -- the magnitude, with the unit of the format
    have hsplit : |x.value * y.value| =
        ((x.mant.toNat * y.mant.toNat * 2 ^ s * 2 ^ k : ℕ) / (2 ^ 64 : ℕ) : ℚ) * 2 ^ (-16445 : ℤ) := by
      have hz : ((x.exp.toNat + y.exp.toNat : ℤ) - 32892 - s) = (k : ℤ) - (64 : ℕ) + -16445 := by omega
      rw [habs, hz, zpow_add₀ two_ne_zero, zpow_sub₀ two_ne_zero, zpow_natCast, zpow_natCast]
      generalize (2 : ℚ) ^ (-16445 : ℤ) = u
      push_cast
      ring
    have hprod : x.value * y.value = sgn (x.neg != y.neg) *
        ((x.mant.toNat * y.mant.toNat * 2 ^ s * 2 ^ k : ℕ) / (2 ^ 64 : ℕ) : ℚ) * 2 ^ (-16445 : ℤ) := by
      have hsign : x.value * y.value = sgn (x.neg != y.neg) * |x.value * y.value| := by
        conv_lhs => rw [value_eq_sgn x, value_eq_sgn y]
        rw [sgn_bne, abs_mul]
        push_cast
        ring
      rw [hsign, hsplit, ← mul_assoc]
    rw [hprod, ← hneg]
    exact truncated_value hge hlt hexp (by rw [mant_real, hupper, hmant])

/-! ### Quotients -/

/-- **The result of a division is normalised, has the right sign, and is less than two units of its last place below the
    exact quotient.** -/
theorem fdiv_close (hx : x.Normalised) (hy : y.Normalised) (hlo : 1 ≤ exponentOf (x.value / y.value))
    (hhi : exponentOf (x.value / y.value) ≤ 0x7ffe) :
    ∃ r, (fdiv x y).1 = some r ∧ r.mant.msb = true ∧ r.neg = (x.neg != y.neg) ∧
      0 ≤ |x.value / y.value| - |r.value| ∧
      |x.value / y.value| - |r.value| < 2 * 2 ^ ((r.exp.toNat : ℤ) - 16446) := by
  have hmx := two_pow_le_mant hx
  have hmy := two_pow_le_mant hy
  have hltx := x.mant.isLt
  have hlty := y.mant.isLt
  have hmy' : 0 < y.mant.toNat := Nat.lt_of_lt_of_le (Nat.two_pow_pos 63) hmy
  have hdivle : ∀ c, c ≤ 2 ^ 63 * x.mant.toNat / y.mant.toNat ↔ c * y.mant.toNat ≤ 2 ^ 63 * x.mant.toNat :=
    fun c => Nat.le_div_iff_mul_le hmy'
  have hdivlt : ∀ c, 2 ^ 63 * x.mant.toNat / y.mant.toNat < c ↔ 2 ^ 63 * x.mant.toNat < c * y.mant.toNat :=
    fun c => Nat.div_lt_iff_lt_mul hmy'
  -- the quotient of the mantissas
  obtain ⟨q, hdiv, hq⟩ : ∃ q, div64 64 (x.mant ++ 0#64) (y.mant ++ 0#64) 0 = q ∧
      q.toNat = 2 ^ 63 * x.mant.toNat / y.mant.toNat := by
    have hvalue := Quad.value_div64 x hy.1
    rw [Quad.div64_eq rfl rfl (Quad.value_upper x) (Quad.value_upper y)] at hvalue
    exact ⟨_, rfl, Nat.eq_of_mul_eq_mul_left (Nat.two_pow_pos 64) hvalue⟩
  obtain ⟨s, hs, hge, hlt⟩ := exists_shift (n := q.toNat) (j := 62) (by rw [hq, hdivle]; omega)
    (by rw [hq, hdivlt]; omega)
  have hnum : y.mant.toNat * (q.toNat * 2 ^ s) ≤ 2 ^ 63 * x.mant.toNat * 2 ^ s ∧
      2 ^ 63 * x.mant.toNat * 2 ^ s < y.mant.toNat * (q.toNat * 2 ^ s + 2 ^ s) := by
    have hle := (hdivle q.toNat).1 hq.le
    have hless := (hdivlt (q.toNat + 1)).1 (by omega)
    constructor
    · rw [← Nat.mul_assoc, Nat.mul_comm y.mant.toNat]
      exact Nat.mul_le_mul_right _ hle
    · have hmul : y.mant.toNat * (q.toNat * 2 ^ s + 2 ^ s) = (q.toNat + 1) * y.mant.toNat * 2 ^ s := by ring
      rw [hmul]
      exact Nat.mul_lt_mul_of_pos_right hless (Nat.two_pow_pos s)
  -- the exact quotient
  have habs : |x.value / y.value| = ((2 ^ 63 * x.mant.toNat * 2 ^ s : ℕ) / (y.mant.toNat : ℕ) : ℚ) *
      2 ^ ((x.exp.toNat - y.exp.toNat : ℤ) - 63 - s) := by
    have hexp : ((x.exp.toNat - y.exp.toNat : ℤ) - 63 - s) =
        (x.exp.toNat : ℤ) - 16446 - ((y.exp.toNat : ℤ) - 16446) - ((63 + s : ℕ) : ℤ) := by
      push_cast
      ring
    have hne : (y.mant.toNat : ℚ) ≠ 0 := by exact_mod_cast hmy'.ne'
    rw [abs_div, abs_normalised hx, abs_normalised hy, hexp]
    generalize (x.exp.toNat : ℤ) - 16446 = p
    generalize (y.exp.toNat : ℤ) - 16446 = p'
    have hzpow : (2 : ℚ) ^ p' ≠ 0 := zpow_ne_zero _ two_ne_zero
    rw [zpow_sub₀ two_ne_zero (p - p'), zpow_sub₀ two_ne_zero p, zpow_natCast, pow_add, Nat.cast_mul, Nat.cast_mul,
      Nat.cast_pow, Nat.cast_pow, Nat.cast_ofNat]
    field_simp
  have hbound : y.mant.toNat * 2 ^ 63 ≤ 2 ^ 63 * x.mant.toNat * 2 ^ s :=
    Nat.le_trans (Nat.mul_le_mul_left _ hge) hnum.1
  have hbound' : 2 ^ 63 * x.mant.toNat * 2 ^ s < y.mant.toNat * 2 ^ (63 + 1) := by
    refine Nat.lt_of_lt_of_le hnum.2 (Nat.mul_le_mul_left _ ?_)
    -- a multiple of `2 ^ s` below `2 ^ 64` leaves room for one more
    obtain rfl | rfl : s = 0 ∨ s = 1 := by omega
    · omega
    · omega
  have hfield := exponentOf_scaled hmy' habs hbound hbound'
  obtain ⟨e, he⟩ : ∃ e : ℕ, (x.exp.toNat : ℤ) - y.exp.toNat + 16383 = e + s :=
    ⟨((x.exp.toNat : ℤ) - y.exp.toNat + 16383 - s).toNat, by omega⟩
  obtain ⟨n, hn, hmant, htop⟩ := normalizeBy_shift (m := q) (by decide) hs hge hlt e
  obtain ⟨hneg, hexp⟩ := real_signed (e := e) (by omega) n x y
  refine ⟨real (BitVec.ofNat 16 e ||| signOf x y) n, ?_, by rwa [mant_real], hneg, ?_⟩
  · have hi : (x.exp.toNat - y.exp.toNat + 16383 : Int).toNat + (63 - 63) = e + s := by omega
    have hne : y.mant ≠ 0 := by
      intro h0
      rw [h0] at hmy'
      exact absurd hmy' (by decide)
    have hq0 : q ≠ 0 := by
      rintro rfl
      change _ ≤ 0 * _ at hge
      omega
    unfold fdiv
    dsimp only
    rw [if_neg hne, if_neg (by omega), normalizeBy_top hy.1]
    dsimp only
    rw [hi, hdiv, if_neg hq0, hn]
    exact congrArg Prod.fst (if_neg (by omega))
  · have hr : (real (BitVec.ofNat 16 e ||| signOf x y) n).Normalised := ⟨by rwa [mant_real], by omega⟩
    have hz : ((x.exp.toNat - y.exp.toNat : ℤ) - 63 - s) = (e : ℤ) - 16446 := by omega
    have hu : (0 : ℚ) < 2 ^ ((e : ℤ) - 16446) := zpow_pos two_pos _
    have hd : (0 : ℚ) < y.mant.toNat := by exact_mod_cast hmy'
    have hbelow : (n.toNat : ℚ) ≤ (2 ^ 63 * x.mant.toNat * 2 ^ s : ℕ) / (y.mant.toNat : ℕ) := by
      rw [le_div_iff₀ hd, mul_comm, hmant]
      exact_mod_cast hnum.1
    have hpow : 2 ^ s ≤ 2 := Nat.pow_le_pow_right (by decide) hs
    have habove : ((2 ^ 63 * x.mant.toNat * 2 ^ s : ℕ) / (y.mant.toNat : ℕ) : ℚ) < n.toNat + 2 := by
      have hless : 2 ^ 63 * x.mant.toNat * 2 ^ s < (n.toNat + 2) * y.mant.toNat := by
        rw [hmant, Nat.mul_comm (_ + 2)]
        exact Nat.lt_of_lt_of_le hnum.2 (Nat.mul_le_mul_left _ (Nat.add_le_add_left hpow _))
      rw [div_lt_iff₀ hd]
      exact_mod_cast hless
    rw [abs_normalised hr, hexp, mant_real, habs, hz, ← sub_mul]
    exact ⟨mul_nonneg (sub_nonneg.2 hbelow) hu.le, mul_lt_mul_of_pos_right (by linarith) hu⟩

/-! ## All together -/

/-- **Multiplication and division.** -/
theorem mul_div_exact :
    (∀ a b : TempReal, Words.value (Quad.mul64 a b) = a.mant.toNat * b.mant.toNat) ∧
    (∀ a b : TempReal, b.mant.msb = true → Words.value (Quad.div64 [0, 0, a.a, a.b] [0, 0, b.a, b.b] [0, 0, 0, 0]) =
      2 ^ 64 * (2 ^ 63 * a.mant.toNat / b.mant.toNat)) ∧
    (∀ x y : TempReal, x.Normalised → y.Normalised → 1 ≤ exponentOf (x.value * y.value) →
      exponentOf (x.value * y.value) ≤ 0x7ffe → ∃ r, (Quad.fmul x y).1 = some r ∧ r.mant.msb = true ∧
        r.value = roundTo .zero 64 (-16445) (x.value * y.value)) ∧
    (∀ x y : TempReal, x.Normalised → y.Normalised → 1 ≤ exponentOf (x.value / y.value) →
      exponentOf (x.value / y.value) ≤ 0x7ffe → ∃ r, (Quad.fdiv x y).1 = some r ∧ r.mant.msb = true ∧
        r.neg = (x.neg != y.neg) ∧ 0 ≤ |x.value / y.value| - |r.value| ∧
        |x.value / y.value| - |r.value| < 2 * 2 ^ ((r.exp.toNat : ℤ) - 16446)) := by
  refine ⟨Quad.value_mul64, fun a b h => Quad.value_div64 a h, fun x y hx hy hlo hhi => ?_, fun x y hx hy hlo hhi => ?_⟩
  · rw [Quad.fmul_eq]
    exact fmul_truncates hx hy hlo hhi
  · rw [Quad.fdiv_eq]
    exact fdiv_close hx hy hlo hhi

/-- **The loops over words compute the products and quotients of bit vectors**, for all operands: a product does not
depend on the order, and there is a result just when the exponents leave room for one. -/
theorem mul_div_words (x y : TempReal) :
    Quad.fmul x y = Math.fmul x y ∧ Quad.fdiv x y = Math.fdiv x y ∧ Quad.fmul x y = Quad.fmul y x ∧
      ((Quad.fmul x y).1.isSome ↔ x.exp.toNat + y.exp.toNat ≤ 0xbffd) ∧
      ((Quad.fdiv x y).1.isSome ↔ Divides x y) := by
  rw [Quad.fmul_eq, Quad.fmul_eq, Quad.fdiv_eq]
  exact ⟨rfl, rfl, fmul_comm x y, fmul_isSome x y, fdiv_isSome x y⟩

/-- One. -/
def unit : TempReal := ⟨0, 0x80000000, 0x3fff⟩

theorem value_unit : unit.value = 1 := by
  have hmant : unit.mant.toNat = 2 ^ 63 := by decide
  have hsgn : sgn unit.neg = 1 := by decide
  have hexp : ((max unit.exp.toNat 1 : ℕ) - 16446 : ℤ) = -(63 : ℕ) := by decide
  unfold TempReal.value
  rw [hmant, hsgn, hexp, zpow_neg, zpow_natCast]
  norm_num

theorem mul_div_exact_unit :
    (∃ r, (Quad.fmul unit unit).1 = some r ∧ r.value = roundTo .zero 64 (-16445) (unit.value * unit.value)) ∧
    (∃ r, (Quad.fdiv unit unit).1 = some r ∧ r.mant.msb = true) ∧
    Words.value (Quad.div64 [0, 0, unit.a, unit.b] [0, 0, unit.a, unit.b] [0, 0, 0, 0]) = 2 ^ 127 := by
  have hnormal : unit.Normalised := ⟨by decide, by decide⟩
  have hone : exponentOf 1 = 16383 := by simp [exponentOf]
  have hmul : exponentOf (unit.value * unit.value) = 16383 := by rw [value_unit, mul_one, hone]
  have hdiv : exponentOf (unit.value / unit.value) = 16383 := by rw [value_unit, div_one, hone]
  obtain ⟨r, hr, -, hvalue⟩ := mul_div_exact.2.2.1 unit unit hnormal hnormal (by omega) (by omega)
  obtain ⟨q, hq, htop, -⟩ := mul_div_exact.2.2.2 unit unit hnormal hnormal (by omega) (by omega)
  refine ⟨⟨r, hr, hvalue⟩, ⟨q, hq, htop⟩, ?_⟩
  rw [mul_div_exact.2.1 unit unit hnormal.1]
  decide

end Numbers

end Math
end Linux095
