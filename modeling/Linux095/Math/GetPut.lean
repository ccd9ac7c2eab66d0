import Mathlib.Algebra.Group.Nat.Defs
import Linux095.Math.Convert

/-!
# `Math.GetPut` — integers in user memory (`kernel/math/get_put.c`)

Loading makes a magnitude and a sign of what is in memory and normalises it; storing shifts the mantissa back.

* `getShortInt`, `getLongInt`, `getLonglongInt`, `getBCD` — loads;
* `putShortInt`, `putLongInt`, `putLonglongInt`, `putBCD` — stores, with the flag OE;
* `realToInt_intToReal` — what a store makes of a magnitude that was loaded, zero apart;
* `int_load_store_iff` — when an integer or a decimal that is loaded and stored again is the same.
-/

namespace Linux095
namespace Math

/-! ## Loading -/

/-- `get_short_int`. -/
def getShortInt (w : BitVec 16) : TempReal :=
  let a := w.signExtend 32
  intToReal ⟨if a.msb then -a else a, 0, a.msb⟩

/-- `get_long_int`. -/
def getLongInt (w : BitVec 32) : TempReal := intToReal ⟨if w.msb then -w else w, 0, w.msb⟩

/-- `get_longlong_int`; `a` is the low word. -/
def getLonglongInt (a b : BitVec 32) : TempReal :=
  -- "notl ; notl ; addl $1 ; adcl $0"
  let m := if b.msb then join (~~~b) (~~~a) + 1 else join b a
  intToReal ⟨low m, high m, b.msb⟩

/-- `MUL10`. -/
def mul10 (x : BitVec 64) : BitVec 64 :=
  let y := x + x
  let z := y + y
  z + z + y

/-- `ADD64`. -/
def add64 (val : BitVec 8) (x : BitVec 64) : BitVec 64 := x + val.setWidth 64

/-- A packed decimal: nine bytes with two digits each, the lowest first, and a byte with the sign. -/
structure Bcd where
  bytes : List (BitVec 8)
  sign : BitVec 8
  length_bytes : bytes.length = 9
  deriving DecidableEq

/-- What one byte of `get_BCD` does to the number so far. -/
def getByte (c : BitVec 8) (i : BitVec 64) : BitVec 64 := add64 (c &&& 0xf) (mul10 (add64 (c >>> 4) (mul10 i)))

/-- The loop of `get_BCD`, which reads the bytes from the last to the first. -/
def getBytes : List (BitVec 8) → BitVec 64
  | [] => 0
  | c :: cs => getByte c (getBytes cs)

/-- `get_BCD`. -/
def getBCD (d : Bcd) : TempReal :=
  intToReal ⟨low (getBytes d.bytes), high (getBytes d.bytes), decide (0x80 &&& d.sign ≠ 0)⟩

/-! ## Storing -/

/-- `put_short_int`. -/
def putShortInt (rc : Rounding) (t : TempReal) : BitVec 16 × Bool :=
  let ti := (realToInt rc t).1
  ((if ti.sign then -ti.a else ti.a).setWidth 16, (realToInt rc t).2)

/-- `put_long_int`. -/
def putLongInt (rc : Rounding) (t : TempReal) : BitVec 32 × Bool :=
  let ti := (realToInt rc t).1
  (if ti.sign then -ti.a else ti.a, (realToInt rc t).2)

/-- `put_longlong_int`. -/
def putLonglongInt (rc : Rounding) (t : TempReal) : (BitVec 32 × BitVec 32) × Bool :=
  let ti := (realToInt rc t).1
  let m := if ti.sign then join (~~~ti.b) (~~~ti.a) + 1 else join ti.b ti.a
  ((low m, high m), (realToInt rc t).2)

/-- `divl` by ten: quotient and remainder. The quotient fits, because `d` is less than ten. -/
def divl10 (d a : BitVec 32) : BitVec 32 × BitVec 32 := (low (join d a / 10), low (join d a % 10))

/-- `DIV10`: the remainder and the two words of the quotient. -/
def div10 (i : TempInt) : BitVec 32 × TempInt :=
  let h := divl10 0 i.b
  let l := divl10 h.2 i.a
  (l.2, ⟨l.1, h.1, i.sign⟩)

/-- The loop of `put_BCD`. -/
def putBytes : Nat → TempInt → List (BitVec 8)
  | 0, _ => []
  | k + 1, i =>
      let u := div10 i
      let v := div10 u.2
      (u.1 + (v.1 <<< 4)).setWidth 8 :: putBytes k v.2

theorem length_putBytes (k : Nat) (i : TempInt) : (putBytes k i).length = k := by
  induction k generalizing i with
  | zero => rfl
  | succ k ih => simp [putBytes, ih]

/-- `put_BCD`. -/
def putBCD (rc : Rounding) (t : TempReal) : Bcd × Bool :=
  let i := (realToInt rc t).1
  (⟨putBytes 9 i, if i.sign then 0x80 else 0, length_putBytes 9 i⟩, (realToInt rc t).2)

/-! ## A magnitude comes back -/

theorem join_ne_zero {i : TempInt} (h : ¬ (i.a = 0 ∧ i.b = 0)) : 1 ≤ (join i.b i.a).toNat := by
  by_contra hlt
  apply h
  rw [toNat_join] at hlt
  constructor <;> apply BitVec.eq_of_toNat_eq <;> simp <;> omega

theorem signExponent_toNat (sign : Bool) {j : Nat} (hj : j ≤ 63) :
    (16383 + 63 + (if sign then 0x8000 else 0) - BitVec.ofNat 16 j : BitVec 16).toNat =
      16446 - j + if sign then 2 ^ 15 else 0 := by
  cases sign
  · simp only [Bool.false_eq_true, if_false]
    bv_omega
  · simp only [if_true]
    bv_omega

/-- **`real_to_int` undoes `int_to_real`** of every magnitude but zero, in every mode. -/
theorem realToInt_intToReal (rc : Rounding) {i : TempInt} (h : ¬ (i.a = 0 ∧ i.b = 0)) :
    realToInt rc (intToReal i) = (i, false) := by
  obtain ⟨j, hj, heq, hge, hlt⟩ := normalizeLoop_spec 63 (16383 + 63 + if i.sign then 0x8000 else 0) (join i.b i.a)
    (Nat.le_mul_of_pos_left _ (join_ne_zero h))
  have hreal : intToReal i = ⟨low (BitVec.ofNat 64 ((join i.b i.a).toNat * 2 ^ j)),
      high (BitVec.ofNat 64 ((join i.b i.a).toNat * 2 ^ j)),
      16383 + 63 + (if i.sign then 0x8000 else 0) - BitVec.ofNat 16 j⟩ := by
    unfold intToReal
    rw [if_neg h, heq]
  generalize ht : intToReal i = t at *
  have hmant : t.mant.toNat = (join i.b i.a).toNat * 2 ^ j := by
    rw [hreal, TempReal.mant, join_high_low, BitVec.toNat_ofNat, Nat.mod_eq_of_lt hlt]
  have hexponent : t.exponent.toNat = 16446 - j + if i.sign then 2 ^ 15 else 0 := by
    rw [hreal]
    exact signExponent_toNat i.sign hj
  have hexp : t.exp.toNat = 16446 - j := by
    rw [t.exp_toNat, hexponent]
    split <;> omega
  have hneg : t.neg = i.sign := by
    rw [TempReal.neg]
    cases hs : i.sign
    · rw [BitVec.msb_eq_false_iff_two_mul_lt, hexponent, hs]
      simp
      omega
    · rw [BitVec.msb_eq_true_iff_two_mul_ge, hexponent, hs]
      simp
      omega
  have hshift : 16383 + 63 - t.exp.toNat = j := by omega
  have hfst := shiftRight_fst t (show j < 96 by omega)
  have hsnd := shiftRight_snd t (show j < 96 by omega)
  rw [hmant, Nat.mul_div_cancel _ (Nat.two_pow_pos j)] at hfst
  rw [hmant, Nat.mul_right_comm, Nat.mul_div_cancel _ (Nat.two_pow_pos j), Nat.mul_mod_left] at hsnd
  unfold realToInt
  rw [if_neg (by omega), hshift]
  dsimp only
  rw [BitVec.eq_of_toNat_eq (y := 0) hsnd, BitVec.eq_of_toNat_eq hfst, roundWords_zero, low_join, high_join, hneg]

/-- Zero becomes one when rounding up: all that `real_to_int` knows of it is that it has been shifted far. -/
theorem realToInt_intToReal_zero (rc : Rounding) (sign : Bool) :
    realToInt rc (intToReal ⟨0, 0, sign⟩) = (⟨if rc = .up then 1 else 0, 0, false⟩, false) := by
  cases rc <;> cases sign <;> decide

/-! ## Binary integers -/

/-- A magnitude and its sign bring the word back. -/
theorem neg_abs {w : Nat} (x : BitVec w) :
    (if x.msb then -(if x.msb then -x else x) else if x.msb then -x else x) = x := by
  cases x.msb <;> simp

theorem abs_eq_zero {w : Nat} (x : BitVec w) : (if x.msb then -x else x) = 0 ↔ x = 0 := by
  cases x.msb <;> simp

theorem short_int_iff (rc : Rounding) (w : BitVec 16) :
    (putShortInt rc (getShortInt w)).1 = w ↔ ¬ (w = 0 ∧ rc = .up) := by
  by_cases hw : w = 0
  · subst hw
    cases rc <;> decide
  · refine iff_of_true ?_ (fun h => hw h.1)
    have hself : (w.signExtend 32).setWidth 16 = w := by
      rw [setWidth_signExtend _ (by decide) (by decide), BitVec.setWidth_eq]
    have hne : ¬ ((if (w.signExtend 32).msb then -w.signExtend 32 else w.signExtend 32) = 0 ∧
        (0 : BitVec 32) = 0) := by
      rw [abs_eq_zero]
      intro h
      apply hw
      rw [← hself, h.1]
      rfl
    unfold putShortInt getShortInt
    rw [realToInt_intToReal rc hne]
    dsimp only
    rw [neg_abs, hself]

theorem long_int_iff (rc : Rounding) (w : BitVec 32) :
    (putLongInt rc (getLongInt w)).1 = w ↔ ¬ (w = 0 ∧ rc = .up) := by
  by_cases hw : w = 0
  · subst hw
    cases rc <;> decide
  · refine iff_of_true ?_ (fun h => hw h.1)
    have hne : ¬ ((if w.msb then -w else w) = 0 ∧ (0 : BitVec 32) = 0) := by
      rw [abs_eq_zero]
      exact fun h => hw h.1
    unfold putLongInt getLongInt
    rw [realToInt_intToReal rc hne]
    exact neg_abs w

theorem join_not (b a : BitVec 32) : join (~~~b) (~~~a) + 1 = -join b a := by
  have hnot : join (~~~b) (~~~a) = ~~~join b a := by
    apply BitVec.eq_of_toNat_eq
    have hb := b.isLt
    have ha := a.isLt
    rw [toNat_join, BitVec.toNat_not, BitVec.toNat_not, BitVec.toNat_not, toNat_join]
    omega
  rw [hnot, BitVec.neg_eq_not_add]
  rfl

theorem putLonglongInt_eq {rc : Rounding} {t : TempReal} {m : BitVec 64} {sign : Bool}
    (h : realToInt rc t = (⟨low m, high m, sign⟩, false)) :
    (putLonglongInt rc t).1 = (low (if sign then -m else m), high (if sign then -m else m)) := by
  unfold putLonglongInt
  rw [h]
  dsimp only
  rw [join_not, join_high_low]

theorem low_high_ne_zero {m : BitVec 64} (h : m ≠ 0) : ¬ (low m = 0 ∧ high m = 0) := by
  intro hlh
  apply h
  rw [← join_high_low m, hlh.1, hlh.2]
  rfl

theorem longlong_int_iff (rc : Rounding) (a b : BitVec 32) :
    (putLonglongInt rc (getLonglongInt a b)).1 = (a, b) ↔ ¬ ((a = 0 ∧ b = 0) ∧ rc = .up) := by
  by_cases hw : a = 0 ∧ b = 0
  · obtain ⟨rfl, rfl⟩ := hw
    cases rc <;> decide
  · refine iff_of_true ?_ (fun h => hw h.1)
    have hmsb : b.msb = (join b a).msb := by
      simp only [join, BitVec.msb_append]
      rfl
    have hjoin : join b a ≠ 0 := by
      intro h
      apply hw
      have ha := low_join b a
      have hb := high_join b a
      rw [h] at ha hb
      exact ⟨ha.symm, hb.symm⟩
    have hpair : (a, b) = (low (join b a), high (join b a)) := by
      rw [low_join, high_join]
    have hload : getLonglongInt a b = intToReal ⟨low (if (join b a).msb then -join b a else join b a),
        high (if (join b a).msb then -join b a else join b a), (join b a).msb⟩ := by
      unfold getLonglongInt
      rw [join_not, hmsb]
    rw [hload, hpair]
    generalize join b a = x at hjoin
    have hback := neg_abs x
    have habs := (abs_eq_zero x).not.2 hjoin
    generalize (if x.msb then -x else x) = m at hback habs
    rw [putLonglongInt_eq (realToInt_intToReal rc (low_high_ne_zero habs)), hback]

/-! ## Decimals -/

/-- `DIV10` divides the two words as one number. -/
theorem div10_spec (i : TempInt) :
    (div10 i).1.toNat = (join i.b i.a).toNat % 10 ∧
      (join (div10 i).2.b (div10 i).2.a).toNat = (join i.b i.a).toNat / 10 := by
  have ha := i.a.isLt
  have hb := i.b.isLt
  have hten : (10 : BitVec 64).toNat = 10 := rfl
  have hzero : (0 : BitVec 32).toNat = 0 := rfl
  have hrem : i.b.toNat % 10 % 2 ^ 32 = i.b.toNat % 10 := Nat.mod_eq_of_lt (by omega)
  simp only [div10, divl10, toNat_low, toNat_join, BitVec.toNat_umod, BitVec.toNat_udiv, hten, hzero, Nat.zero_mul,
    Nat.zero_add, hrem]
  generalize i.a.toNat = a at *
  generalize i.b.toNat = b at *
  have hquot : (b % 10 * 2 ^ 32 + a) / 10 < 2 ^ 32 := by omega
  have hsmall : (b % 10 * 2 ^ 32 + a) % 10 % 2 ^ 32 = (b % 10 * 2 ^ 32 + a) % 10 := Nat.mod_eq_of_lt (by omega)
  rw [Nat.mod_eq_of_lt hquot, hsmall, Nat.mod_eq_of_lt (show b / 10 < 2 ^ 32 by omega)]
  constructor <;> omega

/-- `get_BCD` takes a byte as two digits. -/
theorem getByte_toNat {c : BitVec 8} {i : BitVec 64} (h : i.toNat < 10 ^ 16) :
    (getByte c i).toNat = i.toNat * 100 + (c >>> 4).toNat * 10 + (c &&& 0xf).toNat := by
  have hc := (c >>> 4).isLt
  have hd := (c &&& 0xf).isLt
  simp only [getByte, add64, mul10, BitVec.toNat_add, BitVec.toNat_setWidth]
  omega

/-- Both digits of a byte are decimal. -/
def ByteValid (c : BitVec 8) : Prop := (c >>> 4).toNat < 10 ∧ (c &&& 0xf).toNat < 10

/-- A decimal of 18 digits: every digit is decimal, and the last byte has nothing but a sign. -/
def Bcd.Valid (d : Bcd) : Prop := (∀ c ∈ d.bytes, ByteValid c) ∧ (d.sign = 0 ∨ d.sign = 0x80)

/-- All digits zero, and a sign. -/
def Bcd.NegZero (d : Bcd) : Prop := (∀ c ∈ d.bytes, c = 0) ∧ d.sign = 0x80

theorem byte_eq (c : BitVec 8) : c.toNat = (c >>> 4).toNat * 16 + (c &&& 0xf).toNat := by
  have hand : (c &&& 0xf).toNat = c.toNat % 2 ^ 4 := by
    rw [BitVec.toNat_and]
    exact Nat.and_two_pow_sub_one_eq_mod _ 4
  rw [hand, BitVec.toNat_ushiftRight, Nat.shiftRight_eq_div_pow]
  omega

theorem getBytes_lt {cs : List (BitVec 8)} (hv : ∀ c ∈ cs, ByteValid c) (hlen : cs.length ≤ 9) :
    (getBytes cs).toNat < 10 ^ (2 * cs.length) := by
  induction cs with
  | nil => decide
  | cons c cs ih =>
    have hc := hv c (by simp)
    have hcs := ih (fun x hx => hv x (by simp [hx])) (by simp at hlen; omega)
    have hpow : 10 ^ (2 * cs.length) ≤ 10 ^ 16 := Nat.pow_le_pow_right (by decide) (by simp at hlen; omega)
    have hstep : 10 ^ (2 * (cs.length + 1)) = 10 ^ (2 * cs.length) * 100 := by
      rw [Nat.mul_add, Nat.pow_add]
    unfold ByteValid at hc
    rw [getBytes, getByte_toNat (by omega), List.length_cons, hstep]
    omega

/-- **The digits that are written are the digits that were read.** -/
theorem putBytes_getBytes {cs : List (BitVec 8)} (hv : ∀ c ∈ cs, ByteValid c) (hlen : cs.length ≤ 9) {i : TempInt}
    (hi : (join i.b i.a).toNat = (getBytes cs).toNat) : putBytes cs.length i = cs := by
  induction cs generalizing i with
  | nil => rfl
  | cons c cs ih =>
    have hc := hv c (by simp)
    have hcs : ∀ x ∈ cs, ByteValid x := fun x hx => hv x (by simp [hx])
    have hlen' : cs.length ≤ 8 := by simp at hlen; omega
    have hlt := getBytes_lt hcs (by omega)
    have hpow : 10 ^ (2 * cs.length) ≤ 10 ^ 16 := Nat.pow_le_pow_right (by decide) (by omega)
    have hbyte := getByte_toNat (c := c) (i := getBytes cs) (by omega)
    obtain ⟨hrem, hquot⟩ := div10_spec i
    obtain ⟨hrem', hquot'⟩ := div10_spec (div10 i).2
    unfold ByteValid at hc
    have hlow : ∀ n x y, x < 10 → y < 10 → (n * 100 + x * 10 + y) % 10 = y := by
      intro n x y hx hy
      omega
    have hhigh : ∀ n x y, x < 10 → y < 10 → (n * 100 + x * 10 + y) / 10 % 10 = x := by
      intro n x y hx hy
      omega
    have hhead : ((div10 i).1 + ((div10 (div10 i).2).1 <<< 4)).setWidth 8 = c := by
      apply BitVec.eq_of_toNat_eq
      rw [BitVec.toNat_setWidth, BitVec.toNat_add, BitVec.toNat_shiftLeft, Nat.shiftLeft_eq, hrem', hquot, hrem, hi,
        getBytes, hbyte, hlow _ _ _ hc.1 hc.2, hhigh _ _ _ hc.1 hc.2, byte_eq c]
      omega
    rw [List.length_cons, putBytes, hhead, ih hcs (by omega) (by rw [hquot', hquot, hi, getBytes, hbyte]; omega)]

theorem getBytes_eq_zero {cs : List (BitVec 8)} (hv : ∀ c ∈ cs, ByteValid c) (hlen : cs.length ≤ 9) :
    getBytes cs = 0 ↔ ∀ c ∈ cs, c = 0 := by
  induction cs with
  | nil => simp [getBytes]
  | cons c cs ih =>
    have hcs : ∀ x ∈ cs, ByteValid x := fun x hx => hv x (by simp [hx])
    have hlen' : cs.length ≤ 8 := by simp at hlen; omega
    have hlt := getBytes_lt hcs (by omega)
    have hpow : 10 ^ (2 * cs.length) ≤ 10 ^ 16 := Nat.pow_le_pow_right (by decide) (by omega)
    have hbyte := getByte_toNat (c := c) (i := getBytes cs) (by omega)
    have hzero : ∀ {w : Nat} (x : BitVec w), x = 0 ↔ x.toNat = 0 := by
      intro w x
      rw [BitVec.toNat_eq]
      simp
    rw [List.forall_mem_cons, ← ih hcs (by omega), getBytes, hzero, hbyte, hzero c, byte_eq c, hzero (getBytes cs)]
    omega

theorem getBytes_replicate (n : Nat) : getBytes (List.replicate n 0) = 0 := by
  have hbyte : getByte 0 0 = 0 := by decide
  induction n with
  | zero => rfl
  | succ n ih => rw [List.replicate_succ, getBytes, ih, hbyte]

theorem bcd_zero_iff (rc : Rounding) :
    (putBCD rc (getBCD ⟨List.replicate 9 0, 0, rfl⟩)).1 = ⟨List.replicate 9 0, 0, rfl⟩ ↔ ¬ rc = .up := by
  have hload := realToInt_intToReal_zero rc (decide (0x80 &&& (0 : BitVec 8) ≠ 0))
  unfold putBCD getBCD
  have hlow : low 0 = 0 := by decide
  have hhigh : high 0 = 0 := by decide
  simp only [getBytes_replicate, hlow, hhigh, hload, Bcd.mk.injEq]
  clear hload
  cases rc <;> decide

theorem bcd_iff (rc : Rounding) {d : Bcd} (hv : d.Valid) (hz : ¬ d.NegZero) :
    (putBCD rc (getBCD d)).1 = d ↔ ¬ ((∀ c ∈ d.bytes, c = 0) ∧ rc = .up) := by
  obtain ⟨bytes, sign, hlen⟩ := d
  obtain ⟨hbytes, hsign⟩ := hv
  have hzero := getBytes_eq_zero hbytes (Nat.le_of_eq hlen)
  by_cases h : ∀ c ∈ bytes, c = 0
  · -- a zero is positive and comes back as zero or, rounded up, as one
    have hpos : sign = 0 := hsign.resolve_right (fun hs => hz ⟨h, hs⟩)
    have hrep : bytes = List.replicate 9 0 := by
      rw [← hlen]
      exact List.eq_replicate_of_mem h
    subst hpos
    subst hrep
    exact (bcd_zero_iff rc).trans (not_congr (and_iff_right h).symm)
  · refine iff_of_true ?_ (fun hup => h hup.1)
    have hload := realToInt_intToReal rc
      (i := ⟨low (getBytes bytes), high (getBytes bytes), decide (0x80 &&& sign ≠ 0)⟩)
      (low_high_ne_zero (fun hb => h (hzero.1 hb)))
    have hback : (if decide (0x80 &&& sign ≠ 0) then 0x80 else 0 : BitVec 8) = sign := by
      rcases hsign with rfl | rfl <;> decide
    have hdigits := putBytes_getBytes hbytes (Nat.le_of_eq hlen)
      (i := ⟨low (getBytes bytes), high (getBytes bytes), decide (0x80 &&& sign ≠ 0)⟩)
      (congrArg BitVec.toNat (join_high_low _))
    rw [hlen] at hdigits
    unfold putBCD getBCD
    simp only [hload, hdigits, hback]

/-- **What is loaded and stored again is the same, except for a zero that is rounded up.** `real_to_int` takes a zero
for a number that it has shifted far, and adds one. -/
theorem int_load_store_iff (rc : Rounding) (w : BitVec 16) (l : BitVec 32) (a b : BitVec 32) {d : Bcd} (hv : d.Valid)
    (hz : ¬ d.NegZero) :
    ((putShortInt rc (getShortInt w)).1 = w ↔ ¬ (w = 0 ∧ rc = .up)) ∧
      ((putLongInt rc (getLongInt l)).1 = l ↔ ¬ (l = 0 ∧ rc = .up)) ∧
      ((putLonglongInt rc (getLonglongInt a b)).1 = (a, b) ↔ ¬ ((a = 0 ∧ b = 0) ∧ rc = .up)) ∧
      ((putBCD rc (getBCD d)).1 = d ↔ ¬ ((∀ c ∈ d.bytes, c = 0) ∧ rc = .up)) :=
  ⟨short_int_iff rc w, long_int_iff rc l, longlong_int_iff rc a b, bcd_iff rc hv hz⟩

/-- The decimal −12. -/
def minusTwelve : Bcd := ⟨0x12 :: List.replicate 8 0, 0x80, rfl⟩

theorem minusTwelve_valid : minusTwelve.Valid := by
  unfold Bcd.Valid ByteValid
  decide

theorem minusTwelve_not_negZero : ¬ minusTwelve.NegZero := by
  unfold Bcd.NegZero
  decide

theorem int_load_store_iff_minusTwelve :
    ((putShortInt .up (getShortInt 0)).1 = 0 ↔ ¬ ((0 : BitVec 16) = 0 ∧ Rounding.up = .up)) ∧
      ((putLongInt .up (getLongInt 7)).1 = 7 ↔ ¬ ((7 : BitVec 32) = 0 ∧ Rounding.up = .up)) ∧
      ((putLonglongInt .up (getLonglongInt 0 1)).1 = (0, 1) ↔
        ¬ (((0 : BitVec 32) = 0 ∧ (1 : BitVec 32) = 0) ∧ Rounding.up = .up)) ∧
      ((putBCD .up (getBCD minusTwelve)).1 = minusTwelve ↔
        ¬ ((∀ c ∈ minusTwelve.bytes, c = 0) ∧ Rounding.up = .up)) :=
  int_load_store_iff .up 0 7 0 1 minusTwelve_valid minusTwelve_not_negZero

/-- A zero that is loaded and stored when rounding up is stored as one. -/
theorem int_load_store_changes : (putShortInt .up (getShortInt 0)).1 ≠ 0 := by
  decide

end Math
end Linux095
