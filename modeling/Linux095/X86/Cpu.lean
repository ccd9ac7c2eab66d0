import Mathlib

/-!
# `X86.Cpu` — the string-instruction fragment of the i386

A flat, byte-addressed memory, the five general registers that string code touches, the direction flag and
the three condition bits the conditional jumps read. Programs are instruction lists with absolute jump
targets; `run` executes one with fuel and ends when the program counter leaves the list.

`jl` tests `SF ≠ OF`. The pair is only ever read through that test, so it is kept as the single bit `lt`.
An instruction prefixed by `rep`/`repne` is one instruction whose loop counts `ecx` down; with `ecx = 0` it
does nothing at all, and in particular leaves `zf` as it was.
-/

namespace X86

abbrev Addr := BitVec 32
abbrev Byte := BitVec 8

/-! ## Memory -/

/-- Byte-addressed memory. -/
abbrev Mem := Addr → Byte

namespace Mem

def write (m : Mem) (a : Addr) (v : Byte) : Mem := fun x => if x = a then v else m x

/-- The little-endian 32-bit word at `a`. -/
def read32 (m : Mem) (a : Addr) : BitVec 32 := m (a + 3) ++ m (a + 2) ++ m (a + 1) ++ m a

/-- Store the 32-bit word `v` at `a`, little-endian. -/
def write32 (m : Mem) (a : Addr) (v : BitVec 32) : Mem :=
  (((m.write a (v.extractLsb' 0 8)).write (a + 1) (v.extractLsb' 8 8)).write
    (a + 2) (v.extractLsb' 16 8)).write (a + 3) (v.extractLsb' 24 8)

end Mem

/-! ## Registers, operands and instructions -/

inductive Reg where
  | eax | ecx | edx | esi | edi
  deriving DecidableEq, Repr

/-- The source operand of a two-operand instruction. -/
inductive Opd where
  | reg (r : Reg)
  | imm (v : BitVec 32)
  deriving DecidableEq, Repr

inductive Instr where
  | cld
  | std
  | lodsl
  | repStosl
  | repMovsl
  | repneScasb
  | notl (r : Reg)
  | bsfl (src dst : Reg)
  | xorl (src dst : Reg)
  | addl (src : Opd) (dst : Reg)
  | cmpl (src : Opd) (dst : Reg)
  | sall (n : Nat) (dst : Reg)
  | movl (src : Opd) (dst : Reg)
  | movb (v : Byte) (disp : BitVec 32) (base : Reg)
  | leal (disp : BitVec 32) (base dst : Reg)
  | btsl (nr base : Reg)
  | btrl (nr base : Reg)
  | setb (dst : Reg)
  | setnb (dst : Reg)
  | jne (target : Nat)
  | jl (target : Nat)
  deriving DecidableEq, Repr

/-- The machine state the fragment reads and writes. -/
structure Cpu where
  reg : Reg → BitVec 32
  zf : Bool
  cf : Bool
  lt : Bool
  df : Bool
  mem : Mem

namespace Cpu

/-- Registers, flags and memory all zero. -/
def zero : Cpu := ⟨fun _ => 0, false, false, false, false, fun _ => 0⟩

def set (c : Cpu) (r : Reg) (v : BitVec 32) : Cpu :=
  { c with reg := fun x => if x = r then v else c.reg x }

def setFlags (c : Cpu) (zf cf lt : Bool) : Cpu := { c with zf := zf, cf := cf, lt := lt }

def setZf (c : Cpu) (zf : Bool) : Cpu := { c with zf := zf }

def setDf (c : Cpu) (df : Bool) : Cpu := { c with df := df }

def setMem (c : Cpu) (m : Mem) : Cpu := { c with mem := m }

def opd (c : Cpu) : Opd → BitVec 32
  | .reg r => c.reg r
  | .imm v => v

/-- The signed step of a string instruction of operand size `n`: down when `df` is set. -/
def stride (c : Cpu) (n : BitVec 32) : BitVec 32 := if c.df then -n else n

@[simp] theorem set_reg (c : Cpu) (r x : Reg) (v : BitVec 32) :
    (c.set r v).reg x = if x = r then v else c.reg x := rfl
@[simp] theorem set_zf (c : Cpu) (r : Reg) (v : BitVec 32) : (c.set r v).zf = c.zf := rfl
@[simp] theorem set_cf (c : Cpu) (r : Reg) (v : BitVec 32) : (c.set r v).cf = c.cf := rfl
@[simp] theorem set_lt (c : Cpu) (r : Reg) (v : BitVec 32) : (c.set r v).lt = c.lt := rfl
@[simp] theorem set_df (c : Cpu) (r : Reg) (v : BitVec 32) : (c.set r v).df = c.df := rfl
@[simp] theorem set_mem (c : Cpu) (r : Reg) (v : BitVec 32) : (c.set r v).mem = c.mem := rfl

@[simp] theorem setFlags_reg (c : Cpu) (z f l : Bool) : (c.setFlags z f l).reg = c.reg := rfl
@[simp] theorem setFlags_zf (c : Cpu) (z f l : Bool) : (c.setFlags z f l).zf = z := rfl
@[simp] theorem setFlags_cf (c : Cpu) (z f l : Bool) : (c.setFlags z f l).cf = f := rfl
@[simp] theorem setFlags_lt (c : Cpu) (z f l : Bool) : (c.setFlags z f l).lt = l := rfl
@[simp] theorem setFlags_df (c : Cpu) (z f l : Bool) : (c.setFlags z f l).df = c.df := rfl
@[simp] theorem setFlags_mem (c : Cpu) (z f l : Bool) : (c.setFlags z f l).mem = c.mem := rfl

@[simp] theorem setZf_reg (c : Cpu) (z : Bool) : (c.setZf z).reg = c.reg := rfl
@[simp] theorem setZf_zf (c : Cpu) (z : Bool) : (c.setZf z).zf = z := rfl
@[simp] theorem setZf_df (c : Cpu) (z : Bool) : (c.setZf z).df = c.df := rfl
@[simp] theorem setZf_mem (c : Cpu) (z : Bool) : (c.setZf z).mem = c.mem := rfl

@[simp] theorem setDf_reg (c : Cpu) (d : Bool) : (c.setDf d).reg = c.reg := rfl
@[simp] theorem setDf_zf (c : Cpu) (d : Bool) : (c.setDf d).zf = c.zf := rfl
@[simp] theorem setDf_df (c : Cpu) (d : Bool) : (c.setDf d).df = d := rfl
@[simp] theorem setDf_mem (c : Cpu) (d : Bool) : (c.setDf d).mem = c.mem := rfl

@[simp] theorem setMem_reg (c : Cpu) (m : Mem) : (c.setMem m).reg = c.reg := rfl
@[simp] theorem setMem_zf (c : Cpu) (m : Mem) : (c.setMem m).zf = c.zf := rfl
@[simp] theorem setMem_cf (c : Cpu) (m : Mem) : (c.setMem m).cf = c.cf := rfl
@[simp] theorem setMem_df (c : Cpu) (m : Mem) : (c.setMem m).df = c.df := rfl
@[simp] theorem setMem_mem (c : Cpu) (m : Mem) : (c.setMem m).mem = m := rfl

@[simp] theorem opd_reg (c : Cpu) (r : Reg) : c.opd (.reg r) = c.reg r := rfl
@[simp] theorem opd_imm (c : Cpu) (v : BitVec 32) : c.opd (.imm v) = v := rfl

end Cpu

/-- Index of the lowest set bit, the result of `bsf` on a non-zero operand. -/
def bsf (v : BitVec 32) : Option Nat := (List.range 32).find? v.getLsbD

/-- Dword address of bit `nr` in the bit string at `base`: the bit offset of `bt`, `bts` and `btr` with a
    register operand is signed. -/
def bitDword (base nr : BitVec 32) : Addr := base + 4 * nr.sshiftRight 5

/-- Position of bit `nr` inside its dword. -/
def bitPos (nr : BitVec 32) : Nat := nr.toNat % 32

/-! ## Repeated string instructions -/

/-- `stosl` repeated `n` times. -/
def stoslLoop : Nat → Cpu → Cpu
  | 0, c => c
  | n + 1, c =>
      stoslLoop n (((c.set .edi (c.reg .edi + c.stride 4)).set .ecx (c.reg .ecx - 1)).setMem
        (c.mem.write32 (c.reg .edi) (c.reg .eax)))

/-- `movsl` repeated `n` times. -/
def movslLoop : Nat → Cpu → Cpu
  | 0, c => c
  | n + 1, c =>
      movslLoop n ((((c.set .edi (c.reg .edi + c.stride 4)).set .esi (c.reg .esi + c.stride 4)).set
        .ecx (c.reg .ecx - 1)).setMem (c.mem.write32 (c.reg .edi) (c.mem.read32 (c.reg .esi))))

/-- `scasb` repeated at most `n` times, until the byte scanned equals `al`. -/
def scasbLoop : Nat → Cpu → Cpu
  | 0, c => c
  | n + 1, c =>
      let hit := decide (c.mem (c.reg .edi) = (c.reg .eax).setWidth 8)
      let c' := ((c.set .edi (c.reg .edi + c.stride 1)).set .ecx (c.reg .ecx - 1)).setZf hit
      if hit then c' else scasbLoop n c'

/-! ## Execution -/

namespace Instr

/-- The effect of one instruction on everything but the program counter. -/
def exec (i : Instr) (c : Cpu) : Cpu :=
  match i with
  | cld => c.setDf false
  | std => c.setDf true
  | lodsl => (c.set .eax (c.mem.read32 (c.reg .esi))).set .esi (c.reg .esi + c.stride 4)
  | repStosl => stoslLoop (c.reg .ecx).toNat c
  | repMovsl => movslLoop (c.reg .ecx).toNat c
  | repneScasb => scasbLoop (c.reg .ecx).toNat c
  | notl r => c.set r (~~~ c.reg r)
  | bsfl src dst =>
      match bsf (c.reg src) with
      | some k => (c.set dst (BitVec.ofNat 32 k)).setZf false
      | none => c.setZf true
  | xorl src dst =>
      let v := c.reg dst ^^^ c.reg src
      (c.set dst v).setFlags (decide (v = 0)) false v.msb
  | addl src dst =>
      let v := c.reg dst + c.opd src
      (c.set dst v).setFlags (decide (v = 0))
        (decide (2 ^ 32 ≤ (c.reg dst).toNat + (c.opd src).toNat))
        (decide ((c.reg dst).toInt + (c.opd src).toInt < 0))
  | cmpl src dst =>
      c.setFlags (decide (c.reg dst = c.opd src)) ((c.reg dst).ult (c.opd src))
        ((c.reg dst).slt (c.opd src))
  | sall n dst =>
      let v := c.reg dst <<< n
      (c.set dst v).setFlags (decide (v = 0)) ((c.reg dst).getMsbD (n - 1)) v.msb
  | movl src dst => c.set dst (c.opd src)
  | movb v disp base => c.setMem (c.mem.write (c.reg base + disp) v)
  | leal disp base dst => c.set dst (c.reg base + disp)
  | btsl nr base =>
      let a := bitDword (c.reg base) (c.reg nr)
      let w := c.mem.read32 a
      (c.setFlags c.zf (w.getLsbD (bitPos (c.reg nr))) c.lt).setMem
        (c.mem.write32 a (w ||| BitVec.twoPow 32 (bitPos (c.reg nr))))
  | btrl nr base =>
      let a := bitDword (c.reg base) (c.reg nr)
      let w := c.mem.read32 a
      (c.setFlags c.zf (w.getLsbD (bitPos (c.reg nr))) c.lt).setMem
        (c.mem.write32 a (w &&& ~~~ BitVec.twoPow 32 (bitPos (c.reg nr))))
  | setb dst => c.set dst (if c.cf then 1 else 0)
  | setnb dst => c.set dst (if c.cf then 0 else 1)
  | jne _ => c
  | jl _ => c

/-- The program counter after the instruction at `pc`, tested in the state it leaves. -/
def next (i : Instr) (c : Cpu) (pc : Nat) : Nat :=
  match i with
  | jne t => if c.zf then pc + 1 else t
  | jl t => if c.lt then t else pc + 1
  | _ => pc + 1

end Instr

/-- Execute `code` from `pc`; `none` when the fuel runs out before the program ends. -/
def run (code : List Instr) : Nat → Nat → Cpu → Option Cpu
  | 0, pc, c => if code.length ≤ pc then some c else none
  | fuel + 1, pc, c =>
      match code[pc]? with
      | none => some c
      | some i => run code fuel (i.next c pc) (i.exec c)

end X86
