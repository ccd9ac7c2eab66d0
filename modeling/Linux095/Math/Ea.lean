import Linux095.X86.Address

/-!
# `Math.Ea` — the effective address in the FPU emulator (`kernel/math/ea.c`)

* `Info` — the registers of `struct info` that an address depends on; `Ea` — what `ea` changes;
* `sib`, `ea` — the source's functions; there is no result where the source aborts;
* `sib_eq`, `ea_direct`, `ea_plain` — what they deliver for the three kinds of forms;
* `ea_iff` — **when the address, the length, the registers and `I387.foo` are all as they should be**.
-/

namespace Linux095
namespace Math

open X86

/-! ## The source's functions -/

/-- The general registers and the instruction pointer in `struct info`. -/
structure Info where
  ebx : BitVec 32
  ecx : BitVec 32
  edx : BitVec 32
  esi : BitVec 32
  edi : BitVec 32
  ebp : BitVec 32
  eax : BitVec 32
  eip : BitVec 32
  esp : BitVec 32
  deriving DecidableEq

/-- `REG`, by `__regoffset`. -/
def Info.REG (info : Info) : Fin 8 → BitVec 32
  | 0 => info.eax
  | 1 => info.ecx
  | 2 => info.edx
  | 3 => info.ebx
  | 4 => info.esp
  | 5 => info.ebp
  | 6 => info.esi
  | 7 => info.edi

/-- "EIP += n". -/
def Info.skip (info : Info) (n : Nat) : Info := { info with eip := info.eip + BitVec.ofNat 32 n }

/-- `struct info`, and the address of the operand in `I387`. -/
structure Ea where
  info : Info
  foo : BitVec 32
  fos : BitVec 32
  deriving DecidableEq

def Ea.skip (s : Ea) (n : Nat) : Ea := { s with info := s.info.skip n }

/-- "I387.foo = offset; I387.fos = 0x17". -/
def Ea.point (s : Ea) (offset : BitVec 32) : Ea := { s with foo := offset, fos := 0x17 }

def getFsByte (m : X86.Mem) (a : BitVec 32) : BitVec 8 := m a
def getFsLong (m : X86.Mem) (a : BitVec 32) : BitVec 32 := m.read32 a

/-- A register by its number in three bits. -/
def Ea.REG (s : Ea) (r : BitVec 8) : BitVec 32 := s.info.REG (Fin.ofNat 8 r.toNat)

/-- `sib`. -/
def sib (m : X86.Mem) (s : Ea) (mod : BitVec 8) : BitVec 32 × Ea :=
  let base := getFsByte m s.info.eip
  let s := s.skip 1
  let ss := base >>> 6
  let index := (base >>> 3) &&& 7
  let base := base &&& 7
  let offset := if index = 4 then 0 else s.REG index
  let offset := offset <<< ss.toNat
  let offset := if mod ≠ 0 ∨ base ≠ 5 then offset + s.REG base else offset
  if mod = 1 then
    let offset := offset + (getFsByte m s.info.eip).signExtend 32
    (offset, (s.skip 1).point offset)
  else if mod = 2 ∨ base = 5 then
    let offset := offset + getFsLong m s.info.eip
    (offset, (s.skip 4).point offset)
  else (offset, s.point offset)

/-- `ea`. -/
def ea (m : X86.Mem) (s : Ea) (code : BitVec 16) : Option (BitVec 32 × Ea) :=
  let mod : BitVec 8 := ((code >>> 6) &&& 3).setWidth 8
  let rm : BitVec 8 := (code &&& 7).setWidth 8
  if rm = 4 ∧ mod ≠ 3 then some (sib m s mod)
  else if rm = 5 ∧ mod = 0 then
    let offset := getFsLong m s.info.eip
    some (offset, (s.skip 4).point offset)
  else
    let tmp := s.REG rm
    if mod = 0 then some (0 + tmp, s.point 0)
    else if mod = 1 then
      let offset := (getFsByte m s.info.eip).signExtend 32
      some (offset + tmp, (s.skip 1).point offset)
    else if mod = 2 then
      let offset := getFsLong m s.info.eip
      some (offset + tmp, (s.skip 4).point offset)
    -- `math_abort`
    else none

/-! ## Fields and steps -/

section Steps

variable (m : X86.Mem) (s : Ea) (b : BitVec 8) (r : Fin 8)

@[simp] theorem REG_skip (info : Info) (n : Nat) : (info.skip n).REG = info.REG := by
  funext r
  fin_cases r <;> rfl

@[simp] theorem skip_skip (n k : Nat) : (s.skip n).skip k = s.skip (n + k) := by
  have hadd : s.info.eip + BitVec.ofNat 32 n + BitVec.ofNat 32 k = s.info.eip + BitVec.ofNat 32 (n + k) := by
    rw [BitVec.add_assoc, ← BitVec.ofNat_add]
  unfold Ea.skip Info.skip
  simp only [hadd]

@[simp] theorem eip_skip (n : Nat) : (s.skip n).info.eip = s.info.eip + BitVec.ofNat 32 n := rfl

/-- A field of three bits is the number of a register. -/
theorem and_seven : b &&& 7 = BitVec.ofNat 8 (Fin.ofNat 8 b.toNat).val := by
  apply BitVec.eq_of_toNat_eq
  have hmod : (b &&& 7).toNat = b.toNat % 8 := by
    rw [BitVec.toNat_and]
    exact Nat.and_two_pow_sub_one_eq_mod _ 3
  rw [hmod, BitVec.toNat_ofNat]
  show b.toNat % 8 = b.toNat % 8 % 2 ^ 8
  omega

theorem field_eq (k : Fin 8) : BitVec.ofNat 8 r.val = BitVec.ofNat 8 k.val ↔ r = k := by
  revert r k
  decide

theorem REG_field : s.REG (BitVec.ofNat 8 r.val) = s.info.REG r := by
  have hfield : ∀ r : Fin 8, Fin.ofNat 8 (BitVec.ofNat 8 r.val).toNat = r := by decide
  unfold Ea.REG
  rw [hfield]

end Steps

/-! ## The forms -/

section Forms

variable (m : X86.Mem) (s : Ea) {mod : BitVec 8}

/-- **The forms with SIB.** -/
theorem sib_eq (h : mod = 0 ∨ mod = 1 ∨ mod = 2) :
    sib m s mod = (effectiveAddress m s.info.REG s.info.eip mod.toNat 4,
      (s.skip (Form.length mod.toNat 4 (m s.info.eip))).point
        (effectiveAddress m s.info.REG s.info.eip mod.toNat 4)) := by
  have hindex : (m s.info.eip >>> 3) &&& 7 = BitVec.ofNat 8 (Fin.ofNat 8 ((m s.info.eip).toNat / 8)).val := by
    rw [and_seven, BitVec.toNat_ushiftRight, Nat.shiftRight_eq_div_pow]
  have hss : (m s.info.eip >>> 6).toNat = (m s.info.eip).toNat / 64 := by
    rw [BitVec.toNat_ushiftRight, Nat.shiftRight_eq_div_pow]
  unfold sib effectiveAddress Form.length
  dsimp only [getFsByte]
  rw [hindex, hss, and_seven, REG_field, REG_field]
  unfold Form.decode Form.ofSib Form.address
  rw [if_pos rfl]
  dsimp only
  generalize Fin.ofNat 8 (m s.info.eip).toNat = base
  generalize Fin.ofNat 8 ((m s.info.eip).toNat / 8) = index
  have hbase := field_eq base 5
  have hnone := field_eq index 4
  change BitVec.ofNat 8 base.val = 5#8 ↔ _ at hbase
  change BitVec.ofNat 8 index.val = 4 ↔ _ at hnone
  have hskipped : Form.skipped 4 = 1 := rfl
  -- what the index adds
  have hscaled : (if BitVec.ofNat 8 index.val = 4 then 0 else (s.skip 1).info.REG index) =
      (if index = 4 then none else some index).elim 0 s.info.REG := by
    by_cases h4 : index = 4
    · rw [if_pos (hnone.2 h4), if_pos h4]
      rfl
    · rw [if_neg fun hf => h4 (hnone.1 hf), if_neg h4]
      exact congrFun (REG_skip _ _) _
  rw [hscaled, hskipped]
  generalize ((if index = 4 then none else some index).elim 0 s.info.REG) <<< ((m s.info.eip).toNat / 64) = scaled
  have hreg : (s.skip 1).info.REG base = s.info.REG base := congrFun (REG_skip _ _) _
  rw [hreg]
  rcases h with rfl | rfl | rfl
  · by_cases h5 : base = 5
    · simp [h5, Form.baseOf, Form.dispOf, Disp.read, Disp.size, getFsLong]
    · simp [hbase, h5, Form.baseOf, Form.dispOf, Disp.read, Disp.size, BitVec.add_comm]
  · simp [Form.baseOf, Form.dispOf, Disp.read, Disp.size, BitVec.add_comm]
  · simp [Form.baseOf, Form.dispOf, Disp.read, Disp.size, BitVec.add_comm, getFsLong]

/-- A displacement and nothing else. -/
theorem ea_direct {code : BitVec 16} (hrm : ((code &&& 7).setWidth 8 : BitVec 8) = 5)
    (hmod : (((code >>> 6) &&& 3).setWidth 8 : BitVec 8) = 0) :
    ea m s code = some (m.read32 s.info.eip, (s.skip 4).point (m.read32 s.info.eip)) := by
  unfold ea
  dsimp only
  rw [hrm, hmod, if_neg (by decide), if_pos (by decide)]
  rfl

/-- A register, with or without a displacement; `foo` is the displacement alone. -/
theorem ea_plain {code : BitVec 16} {r : Fin 8} (hrm : ((code &&& 7).setWidth 8 : BitVec 8) = BitVec.ofNat 8 r.val)
    (hmod : (((code >>> 6) &&& 3).setWidth 8 : BitVec 8) = mod) (h : mod = 0 ∨ mod = 1 ∨ mod = 2) (h4 : r ≠ 4)
    (h5 : ¬ (r = 5 ∧ mod = 0)) :
    ea m s code = some (effectiveAddress m s.info.REG s.info.eip mod.toNat r,
      (s.skip (Form.length mod.toNat r (m s.info.eip))).point
        ((Form.decode mod.toNat r (m s.info.eip)).disp.read m s.info.eip)) := by
  have hrm4 : ¬ (BitVec.ofNat 8 r.val = 4 ∧ mod ≠ 3) := fun hf => h4 ((field_eq r 4).1 hf.1)
  have hrm5 : ¬ (BitVec.ofNat 8 r.val = 5 ∧ mod = 0) := fun hf => h5 ⟨(field_eq r 5).1 hf.1, hf.2⟩
  have hskipped : Form.skipped r = 0 := if_neg h4
  unfold ea effectiveAddress Form.length Form.decode Form.plain Form.address
  dsimp only
  rw [hrm, hmod, if_neg hrm4, if_neg hrm5, if_neg h4, REG_field, hskipped]
  rcases h with rfl | rfl | rfl
  · have hr5 : r ≠ 5 := fun hf => h5 ⟨hf, rfl⟩
    simp [hr5, Form.baseOf, Form.dispOf, Disp.read, Disp.size, Ea.skip, Info.skip]
  · simp [Form.baseOf, Form.dispOf, Disp.read, Disp.size, getFsByte, BitVec.add_comm]
  · simp [Form.baseOf, Form.dispOf, Disp.read, Disp.size, getFsLong, BitVec.add_comm]

end Forms

/-! ## What `ea` is to deliver -/

section Result

/-- The fields of ModRM. -/
def modOf (code : BitVec 16) : Nat := code.toNat / 64 % 4
def rmOf (code : BitVec 16) : Fin 8 := Fin.ofNat 8 code.toNat

/-- The address, the bytes that are skipped, the registers as they were, and the address in `foo` too. -/
def Addresses (m : X86.Mem) (s : Ea) (code : BitVec 16) : Prop :=
  let addr := effectiveAddress m s.info.REG s.info.eip (modOf code) (rmOf code)
  ∃ s', ea m s code = some (addr, s') ∧
    s'.info = s.info.skip (Form.length (modOf code) (rmOf code) (m s.info.eip)) ∧ s'.foo = addr

variable (m : X86.Mem) (s : Ea) {code : BitVec 16}

/-- The fields as `ea` takes them out of the code. -/
theorem fields_of_code (code : BitVec 16) :
    ((code &&& 7).setWidth 8 : BitVec 8) = BitVec.ofNat 8 (rmOf code).val ∧
      (((code >>> 6) &&& 3).setWidth 8 : BitVec 8) = BitVec.ofNat 8 (modOf code) := by
  constructor
  · apply BitVec.eq_of_toNat_eq
    have hand : (code &&& 7).toNat = code.toNat % 8 := by
      rw [BitVec.toNat_and]
      exact Nat.and_two_pow_sub_one_eq_mod _ 3
    rw [BitVec.toNat_setWidth, BitVec.toNat_ofNat, hand]
    rfl
  · apply BitVec.eq_of_toNat_eq
    have hand : ((code >>> 6) &&& 3).toNat = code.toNat / 64 % 4 := by
      rw [BitVec.toNat_and, BitVec.toNat_ushiftRight, Nat.shiftRight_eq_div_pow]
      exact Nat.and_two_pow_sub_one_eq_mod _ 2
    rw [BitVec.toNat_setWidth, BitVec.toNat_ofNat, hand]
    rfl

/-- The value of `foo`, apart from the address. -/
def fooOf (m : X86.Mem) (s : Ea) (code : BitVec 16) : BitVec 32 :=
  if rmOf code = 4 ∨ (modOf code = 0 ∧ rmOf code = 5) then
    effectiveAddress m s.info.REG s.info.eip (modOf code) (rmOf code)
  else (Form.decode (modOf code) (rmOf code) (m s.info.eip)).disp.read m s.info.eip

/-- **The address and the length are right for every form**, and no other register changes. -/
theorem ea_eq (h : modOf code ≠ 3) :
    ea m s code = some (effectiveAddress m s.info.REG s.info.eip (modOf code) (rmOf code),
      (s.skip (Form.length (modOf code) (rmOf code) (m s.info.eip))).point (fooOf m s code)) := by
  obtain ⟨hrm, hmod⟩ := fields_of_code code
  have hlt : modOf code < 4 := Nat.mod_lt _ (by decide)
  have hcases : (BitVec.ofNat 8 (modOf code) = 0 ∨ BitVec.ofNat 8 (modOf code) = 1 ∨ BitVec.ofNat 8 (modOf code) = 2) ∧
      (BitVec.ofNat 8 (modOf code)).toNat = modOf code ∧ (BitVec.ofNat 8 (modOf code) = 0 ↔ modOf code = 0) := by
    obtain h0 | h1 | h2 : modOf code = 0 ∨ modOf code = 1 ∨ modOf code = 2 := by omega
    · rw [h0]
      decide
    · rw [h1]
      decide
    · rw [h2]
      decide
  obtain ⟨hvalues, htoNat, hzero⟩ := hcases
  unfold fooOf
  by_cases h4 : rmOf code = 4
  · have hsib : ea m s code = some (sib m s (BitVec.ofNat 8 (modOf code))) := by
      have hne : BitVec.ofNat 8 (modOf code) ≠ 3 := by
        rcases hvalues with hv | hv | hv <;> rw [hv] <;> decide
      unfold ea
      dsimp only
      rw [hrm, hmod, h4, if_pos ⟨rfl, hne⟩]
    rw [hsib, sib_eq m s hvalues, htoNat, h4, if_pos (Or.inl rfl)]
  by_cases h5 : modOf code = 0 ∧ rmOf code = 5
  · rw [h5.2] at hrm
    rw [h5.1] at hmod
    rw [ea_direct m s hrm hmod, if_pos (Or.inr h5), h5.1, h5.2]
    simp [effectiveAddress, Form.length, Form.decode, Form.plain, Form.address, Form.baseOf, Form.dispOf, Form.skipped,
      Disp.read, Disp.size]
  · have hplain : ¬ (rmOf code = 5 ∧ BitVec.ofNat 8 (modOf code) = 0) := fun hf => h5 ⟨hzero.1 hf.2, hf.1⟩
    have hneither : ¬ (rmOf code = 4 ∨ (modOf code = 0 ∧ rmOf code = 5)) := not_or.2 ⟨h4, h5⟩
    rw [ea_plain m s hrm hmod hvalues h4 hplain, htoNat, if_neg hneither]

/-- **All of this is as it should be exactly for the forms with SIB, for a displacement alone, and for a register that
    is zero.** -/
theorem ea_iff (h : modOf code ≠ 3) :
    Addresses m s code ↔ rmOf code = 4 ∨ (modOf code = 0 ∧ rmOf code = 5) ∨ s.info.REG (rmOf code) = 0 := by
  have heq := ea_eq m s h
  have hfoo : Addresses m s code ↔
      fooOf m s code = effectiveAddress m s.info.REG s.info.eip (modOf code) (rmOf code) := by
    unfold Addresses
    dsimp only
    rw [heq]
    constructor
    · rintro ⟨s', hs, -, hf⟩
      rw [← hf, ← (Prod.mk.inj (Option.some.inj hs)).2]
      rfl
    · intro hf
      exact ⟨_, rfl, rfl, hf⟩
  rw [hfoo]
  unfold fooOf
  by_cases hform : rmOf code = 4 ∨ (modOf code = 0 ∧ rmOf code = 5)
  · rw [if_pos hform]
    exact iff_of_true rfl (hform.imp_right Or.inl)
  · obtain ⟨h4, h5⟩ := not_or.1 hform
    have hbase : Form.baseOf (modOf code) (rmOf code) = some (rmOf code) := if_neg h5
    have hskipped : Form.skipped (rmOf code) = 0 := if_neg h4
    rw [if_neg hform, or_iff_right h4, or_iff_right h5]
    unfold effectiveAddress Form.decode Form.plain Form.address
    rw [if_neg h4, hbase, hskipped]
    simp

/-- A displacement of four, in user memory from address 0 on. -/
def four : X86.Mem := fun a => if a = 0 then 4 else 0

/-- `%eax` points somewhere. -/
def pointing : Ea := ⟨⟨0, 0, 0, 0, 0, 0, 0x1000, 0, 0⟩, 0, 0⟩

theorem ea_iff_sib : Addresses four pointing 0x04 ↔
    rmOf 0x04 = 4 ∨ (modOf 0x04 = 0 ∧ rmOf 0x04 = 5) ∨ pointing.info.REG (rmOf 0x04) = 0 :=
  ea_iff four pointing (by decide)

/-- "4(%eax)": `foo` is 4, and the address is 0x1004. -/
theorem foo_without_register : modOf 0x40 ≠ 3 ∧ ¬ Addresses four pointing 0x40 := by
  refine ⟨by decide, ?_⟩
  rintro ⟨s', hs, -, hfoo⟩
  have hrun : ea four pointing 0x40 = some (0x1004, ⟨⟨0, 0, 0, 0, 0, 0, 0x1000, 1, 0⟩, 4, 0x17⟩) := by decide
  rw [hrun] at hs
  obtain ⟨haddr, rfl⟩ := Prod.mk.inj (Option.some.inj hs)
  rw [← haddr] at hfoo
  exact absurd hfoo (by decide)

end Result

end Math
end Linux095
