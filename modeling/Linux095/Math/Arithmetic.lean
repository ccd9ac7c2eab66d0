import Linux095.Math.Emulate

/-!
# `Math.Arithmetic` — FADD, FSUB, FMUL, FDIV and the like in the FPU emulator

What the codes stand for is stated apart from `do_emu`: an operation, the register that it changes, the other operand,
and whether it pops.

* `arithmetic` — what each code stands for; `Op.apply` — the operations;
* `doEmu_eq` — what `do_emu` does for such a code;
* `arithmetic_iff` — **when that is what the code stands for**.
-/

namespace Linux095
namespace Math
open I387

/-! ## What the codes stand for -/

inductive Op where
  | add
  | sub
  | subr
  | mul
  | div
  | divr
  deriving DecidableEq

inductive Operand where
  | reg (i : Nat)
  | shortReal
  | longReal
  | longInt
  | shortInt
  deriving DecidableEq

/-- An instruction that makes something of the register `dst` and another operand. -/
structure Instr where
  op : Op
  dst : Nat
  src : Operand
  pops : Nat
  deriving DecidableEq

/-- The third field of a code, for a result in ST(0). -/
def opOf : Nat → Option Op
  | 0 => some .add
  | 1 => some .mul
  | 4 => some .sub
  | 5 => some .subr
  | 6 => some .div
  | 7 => some .divr
  | _ => none

/-- The third field of a code, for a result in ST(i). -/
def opOfReversed : Nat → Option Op
  | 0 => some .add
  | 1 => some .mul
  | 4 => some .subr
  | 5 => some .sub
  | 6 => some .divr
  | 7 => some .div
  | _ => none

/-- The operand in memory, by the first field of a code. -/
def memoryOperand : Nat → Option Operand
  | 0 => some .shortReal
  | 2 => some .longInt
  | 4 => some .longReal
  | 6 => some .shortInt
  | _ => none

/-- **What a code stands for.** -/
def arithmetic (code : BitVec 11) : Option Instr :=
  let first := code.toNat / 256
  let reg := code.toNat / 8 % 8
  let i := code.toNat % 8
  if code.toNat / 64 % 4 = 3 then
    if first = 0 then (opOf reg).map fun op => ⟨op, 0, .reg i, 0⟩
    else if first = 4 then (opOfReversed reg).map fun op => ⟨op, i, .reg 0, 0⟩
    else if first = 6 then (opOfReversed reg).map fun op => ⟨op, i, .reg 0, 1⟩
    else none
  else (memoryOperand first).bind fun src => (opOf reg).map fun op => ⟨op, 0, src, 0⟩

theorem opOfReversed_ne {r : Nat} {op : Op} (h : opOfReversed r = some op) : r ≠ 3 := by
  rintro rfl
  cases h

/-- The operand, before the instruction. -/
def Operand.value (m : Mem) (s : I387) : Operand → TempReal
  | .reg i => s.ST i
  | .shortReal => shortToTemp m.shortReal
  | .longReal => longToTemp m.longReal
  | .longInt => getLongInt m.longInt
  | .shortInt => getShortInt m.shortInt

/-- The operation on the register and the other operand; for a subtraction the sign of the subtrahend is flipped. -/
def Op.apply (op : Op) (d v : TempReal) : Option TempReal × BitVec 32 :=
  match op with
  | .add => Math.add d v
  | .sub => Math.add d v.negate
  | .subr => Math.add v d.negate
  | .mul => fmul d v
  | .div => fdiv d v
  | .divr => fdiv v d

/-! ## What `do_emu` does -/

/-- The operand that `do_emu` works with: a 16-bit integer is not loaded. -/
def Instr.loaded (ins : Instr) (tmp : TempReal) (m : Mem) (s : I387) : TempReal :=
  match ins.src with
  | .shortInt => tmp
  | src => src.value m s

/-- What `tmp` holds when the operation has no result. -/
def Instr.kept (ins : Instr) (tmp : TempReal) (m : Mem) (s : I387) : TempReal :=
  match ins.src with
  | .reg _ => tmp
  | _ => ins.loaded tmp m s

theorem kept_memory {ins : Instr} {tmp : TempReal} {m : Mem} {s : I387} (h : ∀ i, ins.src ≠ .reg i) :
    ins.kept tmp m s = ins.loaded tmp m s := by
  unfold Instr.kept
  split
  · next i hi => exact absurd hi (h i)
  · rfl

theorem loaded_eq {ins : Instr} {tmp : TempReal} {m : Mem} {s : I387} (h : ins.src ≠ .shortInt) :
    ins.loaded tmp m s = ins.src.value m s := by
  unfold Instr.loaded
  split
  · next hc => exact absurd hc h
  · rfl

/-- The result: a register that is subtracted from itself is negated first, and is then both operands. -/
def Instr.made (ins : Instr) (tmp : TempReal) (m : Mem) (s : I387) : Option TempReal × BitVec 32 :=
  if ins.op = .subr ∧ ins.src = .reg ins.dst then Math.add (s.ST ins.dst).negate (s.ST ins.dst).negate
  else ins.op.apply (s.ST ins.dst) (ins.loaded tmp m s)

section

variable {tmp : TempReal} {m : Mem} {s : I387} {code : BitVec 11} {ins : Instr}

theorem add_comm' (x y : TempReal) : Math.add x y = Math.add y x := by
  unfold Math.add
  rw [fadd_comm]

/-- A code of two registers is in none of the cases of "switch (code)". -/
theorem doEmu_reg {g : Nat} (hg : code.toNat / 8 = g) (h1 : g ≠ 0x3c) (h2 : g ≠ 0x5d) (h3 : g ≠ 0xdb) :
    doEmu tmp m code s = switchReg tmp (code.toNat % 8) s.start (emuMem tmp m code.toNat s.start) g := by
  unfold doEmu
  dsimp only
  rw [if_neg (by omega), if_neg (by omega), if_neg (by omega), if_neg (by omega), if_neg (by omega), hg]

theorem made_of_op {op : Op} {dst pops : Nat} {src : Operand} (h : op ≠ .subr) :
    Instr.made ⟨op, dst, src, pops⟩ tmp m s =
      op.apply (s.ST dst) (Instr.loaded ⟨op, dst, src, pops⟩ tmp m s) := if_neg fun hc => h hc.1

theorem made_of_src (h : ins.src ≠ .reg ins.dst) :
    ins.made tmp m s = ins.op.apply (s.ST ins.dst) (ins.loaded tmp m s) := if_neg fun hc => h hc.2

/-- A register is negated, and then added to the other one, which may be the same. -/
theorem store_negated {i j : Nat} (hi : i < 8) (hj : j < 8) :
    (s.setST i (s.ST i).negate).store i tmp
      (Math.add ((s.setST i (s.ST i).negate).ST i) ((s.setST i (s.ST i).negate).ST j)) =
      s.store i tmp (Instr.made ⟨.subr, i, .reg j, 0⟩ tmp m s) := by
  rw [store_setST tmp (add_quiet _ _), ST_setST]
  by_cases hij : j = i
  · subst hij
    rw [ST_setST]
    exact congrArg (s.store j tmp) (if_pos ⟨rfl, rfl⟩).symm
  · rw [ST_setST_ne hi hj hij, made_of_src fun h => hij (Operand.reg.inj h), add_comm']
    rfl

/-- The result is in ST(0). -/
theorem switchReg_first {r i : Nat} {op : Op} {other : Option I387} (hop : opOf r = some op) (hi : i < 8) :
    switchReg tmp i s other (24 + r) = some (s.store 0 tmp (Instr.made ⟨op, 0, .reg i, 0⟩ tmp m s)) := by
  unfold opOf at hop
  split at hop <;> cases hop
  · rw [made_of_op (by decide)]
    rfl
  · rw [made_of_op (by decide)]
    rfl
  · rw [made_of_op (by decide)]
    rfl
  · rw [← store_negated (by decide) hi]
    rfl
  · rw [made_of_op (by decide)]
    rfl
  · rw [made_of_op (by decide)]
    rfl

/-- The result is in ST(i). -/
theorem switchReg_second {r i : Nat} {op : Op} {other : Option I387} (hop : opOfReversed r = some op) (hi : i < 8) :
    switchReg tmp i s other (152 + r) = some (s.store i tmp (Instr.made ⟨op, i, .reg 0, 0⟩ tmp m s)) := by
  unfold opOfReversed at hop
  split at hop <;> cases hop
  · rw [made_of_op (by decide)]
    show _ = some (s.store i tmp (Math.add (s.ST i) (s.ST 0)))
    rw [add_comm']
    rfl
  · rw [made_of_op (by decide)]
    show _ = some (s.store i tmp (fmul (s.ST i) (s.ST 0)))
    rw [fmul_comm]
    rfl
  · rw [← store_negated hi (by decide), add_comm']
    rfl
  · rw [made_of_op (by decide)]
    rfl
  · rw [made_of_op (by decide)]
    rfl
  · rw [made_of_op (by decide)]
    rfl

/-- The same, with a pop. -/
theorem switchReg_third {r i : Nat} {op : Op} {other : Option I387} (hop : opOfReversed r = some op) (hi : i < 8) :
    switchReg tmp i s other (216 + r) = some (s.store i tmp (Instr.made ⟨op, i, .reg 0, 1⟩ tmp m s)).fpop := by
  unfold opOfReversed at hop
  split at hop <;> cases hop
  · rw [made_of_op (by decide)]
    rfl
  · rw [made_of_op (by decide)]
    rfl
  · have hmade : Instr.made ⟨.subr, i, .reg 0, 1⟩ tmp m s = Instr.made ⟨.subr, i, .reg 0, 0⟩ tmp m s := rfl
    rw [hmade, ← store_negated hi (by decide), add_comm']
    rfl
  · rw [made_of_op (by decide)]
    rfl
  · rw [made_of_op (by decide)]
    rfl
  · rw [made_of_op (by decide)]
    rfl

/-- A code of an operand in memory is in no case of "switch (code >> 3)". -/
theorem switchReg_memory {g i : Nat} {other : Option I387} (hg : g % 32 < 24) : switchReg tmp i s other g = other := by
  unfold switchReg
  split <;> first | rfl | exact absurd hg (by decide)

/-- The fields of such a code, as they are tested. -/
theorem memory_fields : ∀ g < 256, g % 32 < 24 → g / 32 % 2 = 0 → g &&& 0xe7 ∉ TRANSFERS ∧ g &&& 0x27 = g % 8 := by
  decide +kernel

theorem load_memory (tmp : TempReal) (m : Mem) (s : I387) {n : Nat} {src : Operand} (h : memoryOperand n = some src) :
    n % 2 = 0 ∧ n ≤ 6 ∧ ∀ op, load tmp m (n / 2) = Instr.loaded ⟨op, 0, src, 0⟩ tmp m s := by
  unfold memoryOperand at h
  split at h <;> cases h <;> exact ⟨by decide, by decide, fun _ => rfl⟩

/-- The operand is in memory. -/
theorem switchMem_first {r : Nat} {op : Op} {src : Operand} {other : Option I387} (hop : opOf r = some op)
    (hsrc : ∀ i, src ≠ .reg i) :
    switchMem (Instr.loaded ⟨op, 0, src, 0⟩ tmp m s) s other r =
      some (s.store 0 (Instr.kept ⟨op, 0, src, 0⟩ tmp m s) (Instr.made ⟨op, 0, src, 0⟩ tmp m s)) := by
  have hkept : Instr.kept ⟨op, 0, src, 0⟩ tmp m s = Instr.loaded ⟨op, 0, src, 0⟩ tmp m s := by
    cases src with
    | reg i => exact absurd rfl (hsrc i)
    | _ => rfl
  rw [hkept, made_of_src (hsrc 0)]
  unfold opOf at hop
  split at hop <;> cases hop
  · show _ = some (s.store 0 _ (Math.add (s.ST 0) _))
    rw [add_comm']
    rfl
  · show _ = some (s.store 0 _ (fmul (s.ST 0) _))
    rw [fmul_comm]
    rfl
  · show _ = some (s.store 0 _ (Math.add (s.ST 0) (Instr.loaded _ tmp m s).negate))
    rw [add_comm']
    rfl
  · show some ((s.setST 0 (s.ST 0).negate).store 0 _ (Math.add _ ((s.setST 0 (s.ST 0).negate).ST 0))) = _
    rw [store_setST _ (add_quiet _ _), ST_setST]
    rfl
  · rfl
  · rfl

theorem memoryOperand_ne_reg {n : Nat} {src : Operand} (h : memoryOperand n = some src) (i : Nat) : src ≠ .reg i := by
  unfold memoryOperand at h
  split at h <;> cases h <;> nofun

/-- A code of an operand in memory comes to the last of the `switch`es. -/
theorem doEmu_memory (tmp : TempReal) (m : Mem) (s : I387) {src : Operand} (hmod : code.toNat / 64 % 4 ≠ 3)
    (hsrc : memoryOperand (code.toNat / 256) = some src) (op : Op) : ∃ other, doEmu tmp m code s =
      switchMem (Instr.loaded ⟨op, 0, src, 0⟩ tmp m s.start) s.start other (code.toNat / 8 % 8) := by
  have hlt : code.toNat < 2048 := code.isLt
  obtain ⟨heven, hle, hload⟩ := load_memory tmp m s.start hsrc
  obtain ⟨htransfer, hk⟩ := memory_fields (code.toNat / 8) (by omega) (by omega) (by omega)
  have h3 : code.toNat >>> 3 = code.toNat / 8 := Nat.shiftRight_eq_div_pow _ 3
  have h9 : code.toNat >>> 9 = code.toNat / 256 / 2 := by
    rw [Nat.shiftRight_eq_div_pow, Nat.div_div_eq_div_mul]
  rw [doEmu_reg rfl (by omega) (by omega) (by omega), switchReg_memory (by omega)]
  unfold emuMem
  rw [h3, if_neg htransfer, if_neg fun hc => hmod hc.1, h9, hk, hload op]
  exact ⟨_, rfl⟩

/-- **What `do_emu` does.** -/
theorem doEmu_eq (h : arithmetic code = some ins) : doEmu tmp m code s =
    some (fpop^[ins.pops] (s.start.store ins.dst (ins.kept tmp m s.start) (ins.made tmp m s.start))) := by
  have hlt : code.toNat < 2048 := code.isLt
  have hi : code.toNat % 8 < 8 := Nat.mod_lt _ (by decide)
  unfold arithmetic at h
  dsimp only at h
  split at h
  · next hmod =>
      split at h
      · next hfirst =>
          obtain ⟨op, hop, rfl⟩ := Option.map_eq_some_iff.1 h
          have hg : code.toNat / 8 = 24 + code.toNat / 8 % 8 := by omega
          rw [doEmu_reg hg (by omega) (by omega) (by omega), switchReg_first hop hi]
          rfl
      split at h
      · next hfirst =>
          obtain ⟨op, hop, rfl⟩ := Option.map_eq_some_iff.1 h
          have hg : code.toNat / 8 = 152 + code.toNat / 8 % 8 := by omega
          rw [doEmu_reg hg (by omega) (by omega) (by omega), switchReg_second hop hi]
          rfl
      split at h
      · next hfirst =>
          obtain ⟨op, hop, rfl⟩ := Option.map_eq_some_iff.1 h
          have hg : code.toNat / 8 = 216 + code.toNat / 8 % 8 := by omega
          have h3 := opOfReversed_ne hop
          rw [doEmu_reg hg (by omega) (by omega) (by omega), switchReg_third hop hi]
          rfl
      · cases h
  · next hmod =>
      obtain ⟨src, hsrc, hrest⟩ := Option.bind_eq_some_iff.1 h
      obtain ⟨op, hop, rfl⟩ := Option.map_eq_some_iff.1 hrest
      obtain ⟨other, hrun⟩ := doEmu_memory tmp m s hmod hsrc op
      rw [hrun]
      exact switchMem_first hop (memoryOperand_ne_reg hsrc)

end

/-! ## When that is what the code stands for -/

/-- The condition that the operation has a result. -/
def Op.HasResult (op : Op) (d v : TempReal) : Prop :=
  match op with
  | .add | .sub | .subr => True
  | .mul => d.exp.toNat + v.exp.toNat ≤ 0xbffd
  | .div => Divides d v
  | .divr => Divides v d

theorem apply_isSome (op : Op) (d v : TempReal) : (op.apply d v).1.isSome ↔ op.HasResult d v := by
  cases op with
  | add => exact ⟨fun _ => trivial, fun _ => rfl⟩
  | sub => exact ⟨fun _ => trivial, fun _ => rfl⟩
  | subr => exact ⟨fun _ => trivial, fun _ => rfl⟩
  | mul => exact fmul_isSome d v
  | div => exact fdiv_isSome d v
  | divr => exact fdiv_isSome v d

/-- The code puts `w` in its register, whatever `tmp` holds at first; nothing else happens to a register but the
    pop. -/
def Instr.Stores (ins : Instr) (code : BitVec 11) (m : Mem) (s : I387) (w : TempReal) : Prop :=
  ∀ tmp, ∃ s', doEmu tmp m code s = some s' ∧ s'.st = Function.update s.st (s.place ins.dst) w ∧
    ∀ i, s'.place i = s.place (i + ins.pops)

/-- The code does what it stands for: its register becomes the result of the operation on the two operands; if there
    is none, then something that does not depend on what `tmp` holds at first. -/
def Instr.Right (ins : Instr) (code : BitVec 11) (m : Mem) (s : I387) : Prop :=
  ∃ w, (∀ r, (ins.op.apply (s.ST ins.dst) (ins.src.value m s)).1 = some r → w = r) ∧ ins.Stores code m s w

/-- **The condition**: the operand is no 16-bit integer; a register that is subtracted from itself by FSUBR holds
    nothing but its last two bits; an operation on two registers has a result. -/
def Instr.Meets (ins : Instr) (s : I387) : Prop :=
  ins.src ≠ .shortInt ∧ (ins.op = .subr → ins.src = .reg ins.dst → (s.ST ins.dst).mant.toNat < 4) ∧
    ∀ i, ins.src = .reg i → ins.op.HasResult (s.ST ins.dst) (s.ST i)

/-- The result, and without one the operand in memory. -/
def Instr.result (ins : Instr) (m : Mem) (s : I387) : TempReal :=
  (ins.op.apply (s.ST ins.dst) (ins.src.value m s)).1.getD (ins.src.value m s)

section

variable {m : Mem} {s : I387} {code : BitVec 11} {ins : Instr}

theorem st_fpops (n : Nat) (s : I387) : (fpop^[n] s).st = s.st := by
  induction n generalizing s with
  | zero => rfl
  | succ n ih => exact ih s.fpop

theorem place_fpops (n : Nat) (s : I387) (i : Nat) : (fpop^[n] s).place i = s.place (i + n) := by
  induction n generalizing s with
  | zero => rfl
  | succ n ih =>
      show (fpop^[n] s.fpop).place i = _
      rw [ih, place_fpop]
      rfl

theorem value_start (src : Operand) (m : Mem) (s : I387) : src.value m s.start = src.value m s := by
  cases src with
  | reg i => exact ST_start s i
  | _ => rfl

theorem loaded_start (ins : Instr) (tmp : TempReal) : ins.loaded tmp m s.start = ins.loaded tmp m s := by
  unfold Instr.loaded
  split
  · rfl
  · exact value_start _ m s

theorem kept_start (ins : Instr) (tmp : TempReal) : ins.kept tmp m s.start = ins.kept tmp m s := by
  unfold Instr.kept
  split
  · rfl
  · exact loaded_start ins tmp

theorem made_start (ins : Instr) (tmp : TempReal) : ins.made tmp m s.start = ins.made tmp m s := by
  unfold Instr.made
  rw [ST_start, loaded_start]

theorem apply_quiet (op : Op) (d v : TempReal) : Quiet (op.apply d v) := by
  cases op with
  | add => exact add_quiet _ _
  | sub => exact add_quiet _ _
  | subr => exact add_quiet _ _
  | mul => exact fmul_quiet _ _
  | div => exact fdiv_quiet _ _
  | divr => exact fdiv_quiet _ _

theorem made_quiet (ins : Instr) (tmp : TempReal) : Quiet (ins.made tmp m s) := by
  unfold Instr.made
  split
  · exact add_quiet _ _
  · exact apply_quiet _ _ _

/-- What is stored is what there is to store for every `tmp`. -/
theorem stores_iff (h : arithmetic code = some ins) {w : TempReal} :
    ins.Stores code m s w ↔ ∀ tmp, (ins.made tmp m s).1.getD (ins.kept tmp m s) = w := by
  have hst : ∀ tmp, (fpop^[ins.pops] (s.start.store ins.dst (ins.kept tmp m s.start) (ins.made tmp m s.start))).st =
      Function.update s.st (s.place ins.dst) ((ins.made tmp m s).1.getD (ins.kept tmp m s)) := by
    intro tmp
    rw [st_fpops, st_store _ (made_quiet ins tmp), place_start, made_start, kept_start]
    rfl
  constructor
  · intro hs tmp
    obtain ⟨s', hs', hupdate, -⟩ := hs tmp
    rw [doEmu_eq h] at hs'
    rw [← Option.some.inj hs', hst] at hupdate
    have hat := congrFun hupdate (s.place ins.dst)
    rwa [Function.update_self, Function.update_self] at hat
  · intro hw tmp
    refine ⟨_, doEmu_eq h, ?_, fun i => ?_⟩
    · rw [hst, hw]
    · rw [place_fpops, place_store _ (made_quiet ins tmp), place_start]

theorem signOf_negate (x y : TempReal) : signOf x.negate y ≠ signOf x y := by
  intro h
  have hbit := congrArg (fun e => e.getLsbD 15) h
  simp [signOf, TempReal.negate] at hbit

/-- **What an operation makes of an operand that is not loaded can be one thing or another.** -/
theorem apply_depends (op : Op) (d : TempReal) : ∃ j j', (op.apply d j).1.getD j ≠ (op.apply d j').1.getD j' := by
  have hsigns : ∀ x y : TempReal, real (signOf x.negate y) 0 ≠ real (signOf x y) 0 :=
    fun x y h => signOf_negate x y (real_inj h).1
  cases op with
  | add => exact fadd_depends d
  | sub =>
      obtain ⟨j, j', hne⟩ := fadd_depends d
      refine ⟨j.negate, j'.negate, ?_⟩
      show fadd d j.negate.negate ≠ fadd d j'.negate.negate
      rwa [negate_negate, negate_negate]
  | subr =>
      obtain ⟨j, j', hne⟩ := fadd_depends d.negate
      refine ⟨j, j', ?_⟩
      show fadd j d.negate ≠ fadd j' d.negate
      rwa [fadd_comm j, fadd_comm j']
  | mul =>
      -- the two zeros
      refine ⟨(real 0 0).negate, real 0 0, ?_⟩
      show (fmul d _).1.getD _ ≠ (fmul d _).1.getD _
      rw [fmul_comm, fmul_zero rfl rfl, fmul_comm, fmul_zero rfl rfl]
      exact hsigns _ d
  | div =>
      -- two numbers that are divided by
      refine ⟨real 0 0, real 1 0, ?_⟩
      show (fdiv d _).1.getD _ ≠ (fdiv d _).1.getD _
      rw [fdiv_by_zero rfl, fdiv_by_zero rfl]
      decide
  | divr =>
      refine ⟨(real 0 0).negate, real 0 0, ?_⟩
      show (fdiv _ d).1.getD _ ≠ (fdiv _ d).1.getD _
      by_cases hd : d.mant = 0
      · rw [fdiv_by_zero hd, fdiv_by_zero hd]
        decide
      · rw [fdiv_zero rfl hd, fdiv_zero rfl hd]
        exact hsigns _ d

/-- Where `do_emu` applies the operation to the operands. -/
theorem stores_result (h : arithmetic code = some ins)
    (hmade : ∀ tmp, ins.made tmp m s = ins.op.apply (s.ST ins.dst) (ins.src.value m s))
    (hkept : (∀ tmp, ins.kept tmp m s = ins.src.value m s) ∨
      (ins.op.apply (s.ST ins.dst) (ins.src.value m s)).1.isSome) :
    ins.Stores code m s (ins.result m s) := by
  rw [stores_iff h]
  intro tmp
  rw [hmade]
  unfold Instr.result
  rcases hkept with hkept | hsome
  · rw [hkept]
  · obtain ⟨r, hr⟩ := Option.isSome_iff_exists.1 hsome
    rw [hr]
    rfl

/-- The result is what a code stores that does what it stands for. -/
theorem right_of_stores (h : ins.Stores code m s (ins.result m s)) : ins.Right code m s := by
  refine ⟨ins.result m s, fun r hr => ?_, h⟩
  unfold Instr.result
  rw [hr]
  rfl

/-- Where there is no result, `tmp` is stored. -/
theorem not_right_of_none (h : arithmetic code = some ins) (hmade : ∀ tmp, (ins.made tmp m s).1 = none)
    (hkept : ∀ tmp, ins.kept tmp m s = tmp) : ¬ ins.Right code m s := by
  rintro ⟨w, -, hs⟩
  rw [stores_iff h] at hs
  have hall : ∀ tmp, tmp = w := by
    intro tmp
    have htmp := hs tmp
    rwa [hmade, hkept] at htmp
  have hcontra : real 0 0 = real 1 0 := (hall _).trans (hall _).symm
  exact absurd hcontra (by decide)

/-- A 16-bit integer is never loaded. -/
theorem not_right_of_shortInt (h : arithmetic code = some ins) (hsrc : ins.src = .shortInt) :
    ¬ ins.Right code m s := by
  rintro ⟨w, -, hs⟩
  rw [stores_iff h] at hs
  obtain ⟨j, j', hne⟩ := apply_depends ins.op (s.ST ins.dst)
  have hall : ∀ tmp, (ins.op.apply (s.ST ins.dst) tmp).1.getD tmp = w := by
    intro tmp
    have htmp := hs tmp
    rw [made_of_src (by rw [hsrc]; nofun)] at htmp
    unfold Instr.kept Instr.loaded at htmp
    rwa [hsrc] at htmp
  exact hne ((hall j).trans (hall j').symm)

/-- FSUBR of a register with itself adds the negated register to itself. -/
theorem right_itself (h : arithmetic code = some ins) (hop : ins.op = .subr) (hsrc : ins.src = .reg ins.dst) :
    (ins.Right code m s ↔ (s.ST ins.dst).mant.toNat < 4) ∧
      ((s.ST ins.dst).mant.toNat < 4 → ins.Stores code m s (ins.result m s)) := by
  have hmade : ∀ tmp, ins.made tmp m s = Math.add (s.ST ins.dst).negate (s.ST ins.dst).negate :=
    fun tmp => if_pos ⟨hop, hsrc⟩
  have happly : (ins.op.apply (s.ST ins.dst) (ins.src.value m s)).1 = some (real 0 0) := by
    rw [hop, hsrc]
    show some (fadd (s.ST ins.dst) (s.ST ins.dst).negate) = _
    rw [fadd_negate]
  have hstores : (s.ST ins.dst).mant.toNat < 4 → ins.Stores code m s (ins.result m s) := by
    intro hsmall
    rw [stores_iff h]
    intro tmp
    unfold Instr.result
    rw [hmade, happly]
    show fadd _ _ = real 0 0
    rw [fadd_self_of_small (x := (s.ST ins.dst).negate) hsmall]
  refine ⟨⟨?_, fun hsmall => right_of_stores (hstores hsmall)⟩, hstores⟩
  rintro ⟨w, hw, hs⟩
  have hstored := (stores_iff h).1 hs (real 0 0)
  rw [hmade, hw _ happly] at hstored
  have hmant := congrArg TempReal.mant hstored
  exact (fadd_self_mant (s.ST ins.dst).negate).1 hmant

/-- Two registers. -/
theorem right_reg {i : Nat} (h : arithmetic code = some ins) (hsrc : ins.src = .reg i)
    (hself : ¬ (ins.op = .subr ∧ ins.src = .reg ins.dst)) :
    (ins.Right code m s ↔ ins.op.HasResult (s.ST ins.dst) (s.ST i)) ∧
      (ins.op.HasResult (s.ST ins.dst) (s.ST i) → ins.Stores code m s (ins.result m s)) := by
  have hvalue : ins.src.value m s = s.ST i := by
    rw [hsrc]
    rfl
  have hmade : ∀ tmp, ins.made tmp m s = ins.op.apply (s.ST ins.dst) (ins.src.value m s) := by
    intro tmp
    unfold Instr.made
    rw [if_neg hself, loaded_eq (by rw [hsrc]; nofun)]
  have hkept : ∀ tmp, ins.kept tmp m s = tmp := by
    intro tmp
    unfold Instr.kept
    rw [hsrc]
  have hstores : ins.op.HasResult (s.ST ins.dst) (s.ST i) → ins.Stores code m s (ins.result m s) := by
    intro hres
    refine stores_result h hmade (Or.inr ?_)
    rw [hvalue]
    exact (apply_isSome _ _ _).2 hres
  refine ⟨⟨fun hr => ?_, fun hres => right_of_stores (hstores hres)⟩, hstores⟩
  rw [← apply_isSome]
  by_contra hnone
  refine not_right_of_none h (fun tmp => ?_) hkept hr
  rw [hmade, hvalue]
  exact Option.not_isSome_iff_eq_none.1 hnone

/-- An operand in memory, except for a 16-bit integer. -/
theorem right_memory (h : arithmetic code = some ins) (hsrc : ∀ i, ins.src ≠ .reg i) (hshort : ins.src ≠ .shortInt) :
    ins.Stores code m s (ins.result m s) := by
  refine stores_result h (fun tmp => ?_) (Or.inl fun tmp => ?_)
  · rw [made_of_src (hsrc _), loaded_eq hshort]
  · rw [kept_memory hsrc, loaded_eq hshort]

/-- **A code of an arithmetic instruction does what it stands for exactly under the condition; and the result is then
    one of the operands alone.** -/
theorem arithmetic_iff (h : arithmetic code = some ins) (m : Mem) (s : I387) :
    (ins.Right code m s ↔ ins.Meets s) ∧ (ins.Meets s → ins.Stores code m s (ins.result m s)) := by
  by_cases hshort : ins.src = .shortInt
  · exact ⟨⟨fun hr => absurd hr (not_right_of_shortInt h hshort), fun hm => absurd hshort hm.1⟩,
      fun hm => absurd hshort hm.1⟩
  by_cases hself : ins.op = .subr ∧ ins.src = .reg ins.dst
  · obtain ⟨hop, hsrc⟩ := hself
    have hmeets : ins.Meets s ↔ (s.ST ins.dst).mant.toNat < 4 := by
      refine ⟨fun hm => hm.2.1 hop hsrc, fun hsmall => ⟨hshort, fun _ _ => hsmall, fun i _ => ?_⟩⟩
      rw [hop]
      trivial
    rw [hmeets]
    exact right_itself h hop hsrc
  have hitself : ins.op = .subr → ins.src = .reg ins.dst → (s.ST ins.dst).mant.toNat < 4 :=
    fun hop hsrc => absurd ⟨hop, hsrc⟩ hself
  by_cases hreg : ∃ i, ins.src = .reg i
  · obtain ⟨i, hsrc⟩ := hreg
    have hmeets : ins.Meets s ↔ ins.op.HasResult (s.ST ins.dst) (s.ST i) := by
      refine ⟨fun hm => hm.2.2 i hsrc, fun hres => ⟨hshort, hitself, fun j hj => ?_⟩⟩
      rw [hsrc] at hj
      rwa [← Operand.reg.inj hj]
    rw [hmeets]
    exact right_reg h hsrc hself
  · have hmemory : ∀ i, ins.src ≠ .reg i := fun i hi => hreg ⟨i, hi⟩
    have hstores := right_memory (m := m) (s := s) h hmemory hshort
    have hmeets : ins.Meets s := ⟨hshort, hitself, fun i hi => absurd hi (hmemory i)⟩
    exact ⟨⟨fun _ => hmeets, fun _ => right_of_stores hstores⟩, fun _ => hstores⟩

/-- One in every register. -/
def ones : I387 where
  cwd := 0
  swd := 0
  st := fun _ => real 0x3fff 0x8000000000000000

def noMem : Mem := ⟨0, ⟨0, 0⟩, 0, 0⟩

/-- FADD of ST(0) and itself. -/
theorem arithmetic_iff_ones : arithmetic 0x0c0 = some ⟨.add, 0, .reg 0, 0⟩ ∧
    Instr.Right ⟨.add, 0, .reg 0, 0⟩ 0x0c0 noMem ones :=
  ⟨by decide, (arithmetic_iff (by decide) noMem ones).1.2 ⟨nofun, nofun, fun _ _ => trivial⟩⟩

/-- **FSUBR of ST(0) and itself makes of one not zero, but minus two.** -/
theorem subr_itself : arithmetic 0x0e8 = some ⟨.subr, 0, .reg 0, 0⟩ ∧
    ¬ Instr.Right ⟨.subr, 0, .reg 0, 0⟩ 0x0e8 noMem ones := by
  refine ⟨by decide, ?_⟩
  rintro ⟨w, hw, hs⟩
  have hwant : w = real 0 0 := hw _ (congrArg some (fadd_negate (ones.ST 0)))
  have hmade : (Instr.made ⟨.subr, 0, .reg 0, 0⟩ (real 0 0) noMem ones).1 = some (real 0xc000 0x8000000000000000) := by
    decide +kernel
  have hstored := (stores_iff (by decide)).1 hs (real 0 0)
  rw [hmade, hwant] at hstored
  exact absurd hstored (by decide)

end

end Math
end Linux095
