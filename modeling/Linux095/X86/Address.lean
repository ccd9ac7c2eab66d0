import Linux095.X86.Cpu

/-!
# `X86.Address` — the addressing forms of the i386

An instruction with a memory operand has a byte ModRM, and after it a byte SIB, a displacement, or both. Which of them
there are, and what address they stand for, is said here once for all forms.

* `Form` — base, index, scale and displacement; `Form.decode` — the form that ModRM and SIB stand for;
* `Form.address` — **the effective address**; `Form.length` — how many bytes follow ModRM.

An index of 4 is none, and a base of 5 is none where there is no other displacement; the displacement has four bytes
then.
-/

namespace X86

/-- A displacement. -/
inductive Disp where
  | absent
  | byte
  | long
  deriving DecidableEq

namespace Disp

def size : Disp → Nat
  | absent => 0
  | byte => 1
  | long => 4

/-- What is read at an address; a byte is extended with its sign. -/
def read (m : Mem) (a : Addr) : Disp → BitVec 32
  | absent => 0
  | byte => (m a).signExtend 32
  | long => m.read32 a

end Disp

/-- There are general registers. -/
instance registers_neZero : NeZero 8 := ⟨Nat.succ_ne_zero 7⟩

/-- An addressing form. -/
structure Form where
  base : Option (Fin 8)
  index : Option (Fin 8)
  scale : Nat
  disp : Disp
  deriving DecidableEq

namespace Form

/-- The base, by the field for it. -/
def baseOf (mod : Nat) (r : Fin 8) : Option (Fin 8) := if mod = 0 ∧ r = 5 then none else some r

/-- The displacement, by the field for the base. -/
def dispOf (mod : Nat) (r : Fin 8) : Disp :=
  if mod = 1 then .byte else if mod = 2 ∨ (mod = 0 ∧ r = 5) then .long else .absent

/-- The form without SIB, and the form of a byte SIB. -/
def plain (mod : Nat) (rm : Fin 8) : Form := ⟨baseOf mod rm, none, 0, dispOf mod rm⟩

def ofSib (mod : Nat) (sib : Byte) : Form :=
  let base := Fin.ofNat 8 sib.toNat
  let index := Fin.ofNat 8 (sib.toNat / 8)
  ⟨baseOf mod base, if index = 4 then none else some index, sib.toNat / 64, dispOf mod base⟩

/-- **The form that ModRM and the byte after it stand for.** -/
def decode (mod : Nat) (rm : Fin 8) (sib : Byte) : Form := if rm = 4 then ofSib mod sib else plain mod rm

/-- How many bytes there are between ModRM and the displacement. -/
def skipped (rm : Fin 8) : Nat := if rm = 4 then 1 else 0

/-- The bytes after ModRM. -/
def length (mod : Nat) (rm : Fin 8) (sib : Byte) : Nat := skipped rm + (decode mod rm sib).disp.size

/-- **The address**, by the registers and the displacement. -/
def address (f : Form) (regs : Fin 8 → BitVec 32) (d : BitVec 32) : BitVec 32 :=
  (f.base.elim 0 regs) + (f.index.elim 0 regs) <<< f.scale + d

end Form

/-- The effective address of the operand whose bytes after ModRM lie at `a`. -/
def effectiveAddress (m : Mem) (regs : Fin 8 → BitVec 32) (a : Addr) (mod : Nat) (rm : Fin 8) : BitVec 32 :=
  let f := Form.decode mod rm (m a)
  f.address regs (f.disp.read m (a + BitVec.ofNat 32 (Form.skipped rm)))

end X86
