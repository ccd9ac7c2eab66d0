import Linux095.Math.Arith
import Linux095.Math.GetPut

/-!
# `Math.Emulate` — the FPU emulator (`kernel/math/math_emulate.c`)

`do_emu` goes through the code of an instruction with one `switch` after the other. `tmp` is a local variable that is
not initialised: what it holds at first is an argument here, and so is what user memory holds at the address of the
operand.

* `I387` — the status word and the eight registers; `I387.ST`, `fpop`, `fpush` — the stack of them;
* `switchReg`, `switchMem`, `doEmu` — the source's `switch`es;
* `place_fpop`, `st_store` — where the registers are, and what a store does to them.

Left out are loads, stores and constants, what reads or sets the other words of `I387`, and what is aborted.
-/

namespace Linux095
namespace Math

/-- `I387`, with its registers one after the other. -/
structure I387 where
  cwd : BitVec 32
  swd : BitVec 32
  st : Fin 8 → TempReal

/-- User memory at the address of the operand, as each of its types. -/
structure Mem where
  shortReal : ShortReal
  longReal : LongReal
  longInt : BitVec 32
  shortInt : BitVec 16

namespace I387

/-- `__st`. -/
def place (s : I387) (i : Nat) : Fin 8 := Fin.ofNat 8 (i + (s.swd >>> 11).toNat)

def ST (s : I387) (i : Nat) : TempReal := s.st (s.place i)

def setST (s : I387) (i : Nat) (t : TempReal) : I387 := { s with st := Function.update s.st (s.place i) t }

/-- `fpop`. -/
def fpop (s : I387) : I387 :=
  { s with swd := ((s.swd + 0x00000800) &&& 0x00003800) ||| (s.swd &&& 0xffffc7ff) }

/-- `fpush`. -/
def fpush (s : I387) : I387 :=
  { s with swd := ((s.swd + 0x00003800) &&& 0x00003800) ||| (s.swd &&& 0xffffc7ff) }

/-- A function of two operands has set `tmp`, or not, and `tmp` goes to a register. -/
def store (s : I387) (i : Nat) (tmp : TempReal) (r : Option TempReal × BitVec 32) : I387 :=
  { s with swd := s.swd ||| r.2 }.setST i (r.1.getD tmp)

/-- `fcom` of two operands. -/
def com (s : I387) (src1 src2 : TempReal) : I387 := { s with swd := fcom src1 src2 s.swd }

/-- `fucom` of two operands. -/
def ucom (s : I387) (src1 src2 : TempReal) : I387 := { s with swd := fucom src1 src2 s.swd }

/-- The summary of the errors. -/
def start (s : I387) : I387 :=
  { s with swd := if s.cwd &&& s.swd &&& 0x3f ≠ 0 then s.swd ||| 0x8000 else s.swd &&& 0x7fff }

end I387

/-- `fadd`, which always has a result and sets nothing. -/
def add (src1 src2 : TempReal) : Option TempReal × BitVec 32 := (some (fadd src1 src2), 0)

/-- "switch (code >> 3)"; `i` is "code & 7". -/
def switchReg (tmp : TempReal) (i : Nat) (s : I387) (other : Option I387) : Nat → Option I387
  | 0x18 => some (s.store 0 tmp (add (s.ST 0) (s.ST i)))
  | 0x19 => some (s.store 0 tmp (fmul (s.ST 0) (s.ST i)))
  | 0x1a => some ((s.com (s.ST i) tmp).setST 0 tmp)
  | 0x1b => some ((s.com (s.ST i) tmp).setST 0 tmp).fpop
  | 0x1c =>
      let tmp := (s.ST i).negate
      some (s.store 0 tmp (add (s.ST 0) tmp))
  | 0x1d =>
      let s := s.setST 0 (s.ST 0).negate
      some (s.store 0 tmp (add (s.ST 0) (s.ST i)))
  | 0x1e => some (s.store 0 tmp (fdiv (s.ST 0) (s.ST i)))
  | 0x1f => some (s.store 0 tmp (fdiv (s.ST i) (s.ST 0)))
  | 0x38 => some (s.fpush.setST 0 (s.fpush.ST (i + 1)))
  | 0x39 | 0xb9 | 0xf9 => some ((s.setST 0 (s.ST i)).setST i (s.ST 0))
  | 0x3b | 0xbb | 0xfa | 0xfb => some (s.setST i (s.ST 0)).fpop
  | 0x98 => some (s.store i tmp (add (s.ST 0) (s.ST i)))
  | 0x99 => some (s.store i tmp (fmul (s.ST 0) (s.ST i)))
  | 0x9a => some (s.com (s.ST i) (s.ST 0))
  | 0x9b => some (s.com (s.ST i) (s.ST 0)).fpop
  | 0x9c =>
      let s := s.setST i (s.ST i).negate
      some (s.store i tmp (add (s.ST 0) (s.ST i)))
  | 0x9d =>
      let tmp := (s.ST 0).negate
      some (s.store i tmp (add (s.ST i) tmp))
  | 0x9e => some (s.store i tmp (fdiv (s.ST 0) (s.ST i)))
  | 0x9f => some (s.store i tmp (fdiv (s.ST i) (s.ST 0)))
  | 0xba => some (s.setST i (s.ST 0))
  | 0xbc => some (s.ucom (s.ST i) (s.ST 0))
  | 0xbd => some (s.ucom (s.ST i) (s.ST 0)).fpop
  | 0xd8 => some (s.store i tmp (add (s.ST i) (s.ST 0))).fpop
  | 0xd9 => some (s.store i tmp (fmul (s.ST i) (s.ST 0))).fpop
  | 0xda => some (s.com (s.ST i) (s.ST 0)).fpop
  | 0xdc =>
      let s := s.setST i (s.ST i).negate
      some (s.store i tmp (add (s.ST 0) (s.ST i))).fpop
  | 0xdd =>
      let tmp := (s.ST 0).negate
      some (s.store i tmp (add (s.ST i) tmp)).fpop
  | 0xde => some (s.store i tmp (fdiv (s.ST 0) (s.ST i))).fpop
  | 0xdf => some (s.store i tmp (fdiv (s.ST i) (s.ST 0))).fpop
  -- `math_abort`
  | 0xb8 | 0xf8 => none
  | _ => other

/-- The cases of "switch ((code>>3) & 0xe7)", which load or store. -/
def TRANSFERS : List Nat :=
  [0x22, 0x23, 0x24, 0x25, 0x26, 0x27, 0x62, 0x63, 0x65, 0x67, 0xa2, 0xa3, 0xa4, 0xa6, 0xa7, 0xe2, 0xe3, 0xe4, 0xe5,
    0xe6, 0xe7]

/-- "switch (code >> 9)". A code has eleven bits. -/
def load (tmp : TempReal) (m : Mem) : Nat → TempReal
  | 0 => shortToTemp m.shortReal
  | 1 => getLongInt m.longInt
  | 2 => longToTemp m.longReal
  | 4 => getShortInt m.shortInt
  | _ => tmp

/-- "switch ((code>>3) & 0x27)". -/
def switchMem (tmp : TempReal) (s : I387) (other : Option I387) : Nat → Option I387
  | 0 => some (s.store 0 tmp (add tmp (s.ST 0)))
  | 1 => some (s.store 0 tmp (fmul tmp (s.ST 0)))
  | 2 => some (s.com tmp (s.ST 0))
  | 3 => some (s.com tmp (s.ST 0)).fpop
  | 4 =>
      let tmp := tmp.negate
      some (s.store 0 tmp (add tmp (s.ST 0)))
  | 5 =>
      let s := s.setST 0 (s.ST 0).negate
      some (s.store 0 tmp (add tmp (s.ST 0)))
  | 6 => some (s.store 0 tmp (fdiv (s.ST 0) tmp))
  | 7 => some (s.store 0 tmp (fdiv tmp (s.ST 0)))
  | _ => other

/-- The end of `do_emu`, for a code that is in none of the other `switch`es. -/
def emuMem (tmp : TempReal) (m : Mem) (code : Nat) (s : I387) : Option I387 :=
  if (code >>> 3) &&& 0xe7 ∈ TRANSFERS then none
  -- `ea` aborts where there is no address, if it is called
  else if code / 64 % 4 = 3 ∧ code >>> 9 ≠ 3 then none
  else
    let tmp := load tmp m (code >>> 9)
    let other := if code &&& 0x138 = 0x100 then some (s.fpush.setST 0 tmp) else none
    switchMem tmp s other ((code >>> 3) &&& 0x27)

/-- **`do_emu`.** -/
def doEmu (tmp : TempReal) (m : Mem) (code : BitVec 11) (s : I387) : Option I387 :=
  let s := s.start
  let c := code.toNat
  if c = 0x1e0 then some (s.setST 0 (s.ST 0).negate)
  else if c = 0x1e1 then some (s.setST 0 { s.ST 0 with exponent := (s.ST 0).exponent &&& 0x7fff })
  else if c = 0x1e4 then some { s with swd := ftst (s.ST 0) s.swd }
  else if c = 0x2e9 then some (s.ucom (s.ST 1) (s.ST 0)).fpop.fpop
  else if c = 0x6d9 then some (s.com (s.ST 1) (s.ST 0)).fpop.fpop
  else switchReg tmp (c % 8) s (emuMem tmp m c s) (c / 8)

/-! ## The register stack -/

namespace I387

variable {s : I387} {i j : Nat} {t u : TempReal}

/-- Where the registers are depends on three bits of the status word. -/
theorem place_congr {s' : I387} (h : ∀ k < 3, s'.swd.getLsbD (11 + k) = s.swd.getLsbD (11 + k)) (i : Nat) :
    s'.place i = s.place i := by
  have htop : ∀ x : BitVec 32, (x >>> 11).toNat % 8 = (x.extractLsb' 11 3).toNat := by
    intro x
    rw [BitVec.extractLsb'_toNat, BitVec.toNat_ushiftRight]
  have heq : s'.swd.extractLsb' 11 3 = s.swd.extractLsb' 11 3 := by
    apply BitVec.eq_of_getLsbD_eq
    intro k hk
    rw [BitVec.getLsbD_extractLsb', BitVec.getLsbD_extractLsb', h k hk]
  have hmod := congrArg BitVec.toNat heq
  rw [← htop, ← htop] at hmod
  apply Fin.ext
  show (i + _) % 8 = (i + _) % 8
  omega

theorem place_start (s : I387) (i : Nat) : s.start.place i = s.place i := by
  apply place_congr
  intro k hk
  unfold start
  dsimp only
  obtain rfl | rfl | rfl : k = 0 ∨ k = 1 ∨ k = 2 := by omega
  all_goals split <;> simp

theorem ST_start (s : I387) (i : Nat) : s.start.ST i = s.ST i := by
  unfold ST
  rw [place_start]
  rfl

theorem place_fpop (s : I387) (i : Nat) : s.fpop.place i = s.place (i + 1) := by
  have hbits : s.fpop.place i = { s with swd := s.swd + 0x800 }.place i := by
    apply place_congr
    intro k hk
    unfold fpop
    dsimp only
    obtain rfl | rfl | rfl : k = 0 ∨ k = 1 ∨ k = 2 := by omega
    all_goals simp
  have hadd : ((s.swd + 0x800) >>> 11).toNat % 8 = ((s.swd >>> 11).toNat + 1) % 8 := by
    have h800 : (0x800 : BitVec 32).toNat = 2048 := rfl
    rw [BitVec.toNat_ushiftRight, BitVec.toNat_ushiftRight, BitVec.toNat_add, h800, Nat.shiftRight_eq_div_pow,
      Nat.shiftRight_eq_div_pow]
    omega
  rw [hbits]
  apply Fin.ext
  show (i + ((s.swd + 0x800) >>> 11).toNat) % 8 = (i + 1 + (s.swd >>> 11).toNat) % 8
  omega

/-- Two registers are at one place if their numbers are the same. -/
theorem place_inj (hi : i < 8) (hj : j < 8) (h : s.place i = s.place j) : i = j := by
  have hval := congrArg Fin.val h
  change (i + _) % 8 = (j + _) % 8 at hval
  omega

theorem ST_setST : (s.setST i t).ST i = t := Function.update_self _ _ _

theorem ST_setST_ne (hi : i < 8) (hj : j < 8) (hne : j ≠ i) : (s.setST i t).ST j = s.ST j :=
  Function.update_of_ne (fun h => hne (place_inj hj hi h)) _ _

end I387

/-- The flags that are set leave the place of the registers alone. -/
def Quiet (r : Option TempReal × BitVec 32) : Prop := ∀ k < 3, r.2.getLsbD (11 + k) = false

theorem quiet_of {r : Option TempReal × BitVec 32} {f : BitVec 32} (h : r.2 = f)
    (hf : f.extractLsb' 11 3 = 0) : Quiet r := by
  intro k hk
  have hbit := congrArg (fun x => x.getLsbD k) hf
  simp only [BitVec.getLsbD_extractLsb'] at hbit
  rw [h]
  simpa [hk] using hbit

theorem add_quiet (x y : TempReal) : Quiet (add x y) := quiet_of (f := 0) rfl (by decide)

theorem fmul_quiet (x y : TempReal) : Quiet (fmul x y) := by
  unfold fmul
  dsimp only
  split
  · exact quiet_of (f := 0) rfl (by decide)
  split
  · exact quiet_of (f := OE) rfl (by decide)
  · exact quiet_of (f := 0) rfl (by decide)

theorem fdiv_quiet (x y : TempReal) : Quiet (fdiv x y) := by
  unfold fdiv
  dsimp only
  split
  · exact quiet_of (f := ZE) rfl (by decide)
  split
  · exact quiet_of (f := UE) rfl (by decide)
  -- the rest may set DE and OE
  have hflags : ∀ (c : Prop) [Decidable c], (if c then DE else 0).extractLsb' 11 3 = 0 ∧
      ((if c then DE else 0) ||| OE).extractLsb' 11 3 = 0 := by
    intro c _
    split <;> decide
  split
  all_goals
    split
    · exact quiet_of rfl (hflags _).2
    · exact quiet_of rfl (hflags _).1

namespace I387

variable {s : I387} {i j : Nat} {t : TempReal} {r : Option TempReal × BitVec 32}

theorem place_store (tmp : TempReal) (h : Quiet r) (j : Nat) : (s.store i tmp r).place j = s.place j := by
  apply place_congr
  intro k hk
  show (s.swd ||| r.2).getLsbD (11 + k) = _
  rw [BitVec.getLsbD_or, h k hk, Bool.or_false]

theorem st_store (tmp : TempReal) (h : Quiet r) :
    (s.store i tmp r).st = Function.update s.st (s.place i) (r.1.getD tmp) := by
  have hplace := place_store (s := s) (i := i) tmp h i
  show Function.update s.st ({ s with swd := s.swd ||| r.2 }.place i) _ = _
  rw [← hplace]
  rfl

/-- What a register held before does not matter. -/
theorem store_setST (tmp : TempReal) (h : Quiet r) : (s.setST i t).store i tmp r = s.store i tmp r := by
  have hst : ((s.setST i t).store i tmp r).st = (s.store i tmp r).st := by
    rw [st_store tmp h, st_store tmp h]
    exact Function.update_idem _ _ _
  show (⟨s.cwd, s.swd ||| r.2, ((s.setST i t).store i tmp r).st⟩ : I387) = ⟨s.cwd, s.swd ||| r.2, (s.store i tmp r).st⟩
  rw [hst]

end I387

end Math
end Linux095
