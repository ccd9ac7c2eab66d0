import Linux095.X86.Lemmas

/-!
# `Fs.Minix.FindFirstZero` — the bitmap macros of `fs/minix/bitmap.c`

`find_first_zero`, `set_bit` and `clear_block` are `asm` blocks, kept as instruction lists. The
two versions of `find_first_zero` run the same instructions and differ in how `addr` is bound: `"S" (addr)`
loads a copy into `esi`, `"+S" (addr)` also stores `esi` back into the caller's lvalue.

* `findFirstZero_spec` — what the instructions compute, for every content of the block;
* `findFirstZero_original`, `findFirstZero_compiledIn` — the first version meets `FindFirstZeroSpec` always,
  the second never;
* `setBit_spec` — `set_bit` sets one bit of the bit string it is given.
-/

namespace Linux095
namespace Fs
namespace Minix
open X86

/-! ## The macros -/

def findFirstZeroAsm : List Instr :=
  [ .cld,
    .lodsl,
    .notl .eax,
    .bsfl .eax .edx,
    .jne 9,
    .addl (.imm 32) .ecx,
    .cmpl (.imm 8192) .ecx,
    .jl 1,
    .xorl .edx .edx,
    .addl (.reg .edx) .ecx ]

/-- How the operand `addr` of `find_first_zero` is bound. -/
inductive Binding where
  /-- `"S" (addr)`. -/
  | original
  /-- `"+S" (addr)`, in the `#else` branch, which is the one compiled. -/
  | compiledIn
  deriving DecidableEq, Repr

/-- What the macro leaves behind: its value, the caller's lvalue `addr`, and memory. -/
structure Found where
  res : BitVec 32
  addr : Addr
  mem : Mem

/-- `find_first_zero(addr)`, entered from the machine state `c` with `"0" (0)` bound. Each of the 256 words
    costs at most seven instructions. -/
def findFirstZero (b : Binding) (c : Cpu) (m : Mem) (addr : Addr) : Option Found := do
  let c' ← run findFirstZeroAsm (7 * 256 + 3) 0 (((c.set .ecx 0).set .esi addr).setMem m)
  return ⟨c'.reg .ecx, match b with
    | .original => addr
    | .compiledIn => c'.reg .esi, c'.mem⟩

def setBitAsm : List Instr := [ .btsl .ecx .edi, .setb .eax ]

/-- `set_bit(nr,addr)`: the char `res`, and memory. Which registers the compiler picks for `nr` and for the
    address does not matter. -/
def setBit (c : Cpu) (m : Mem) (nr : BitVec 32) (addr : Addr) : Option (Bool × Mem) := do
  let c' ← run setBitAsm 2 0 (((c.set .ecx nr).set .edi addr).setMem m)
  return ((c'.reg .eax).setWidth 8 ≠ 0, c'.mem)

def clearBlockAsm : List Instr := [ .cld, .repStosl ]

/-- `clear_block(addr)`. -/
def clearBlock (c : Cpu) (m : Mem) (addr : Addr) : Option Mem := do
  let c' ← run clearBlockAsm 2 0 ((((c.set .ecx 256).set .edi addr).set .eax 0).setMem m)
  return c'.mem

/-! ## The search -/

/-- The lowest clear bit of the 8192 bits at `addr`. -/
def firstZero (m : Mem) (addr : Addr) : Option Nat := (List.range 8192).find? fun j => !m.bit addr j

/-- What `find_first_zero` is for: the lowest clear bit, or at least 8192 when there is none, with the
    caller's lvalue and memory as they were. -/
structure FindFirstZeroSpec (m : Mem) (addr : Addr) (r : Found) : Prop where
  found : ∀ j ∈ firstZero m addr, r.res = BitVec.ofNat 32 j
  full : firstZero m addr = none → 8192 ≤ r.res.toInt
  addr : r.addr = addr
  mem : r.mem = m

theorem firstZero_eq_some {m : Mem} {addr : Addr} {j : Nat} :
    firstZero m addr = some j ↔ j < 8192 ∧ m.bit addr j = false ∧ ∀ i < j, m.bit addr i = true := by
  rw [firstZero, List.find?_range_eq_some]
  simp [and_left_comm]

theorem firstZero_eq_none {m : Mem} {addr : Addr} :
    firstZero m addr = none ↔ ∀ j < 8192, m.bit addr j = true := by
  simp [firstZero]

/-- The state in which the search stops, having read `v` words. -/
structure Stopped (m : Mem) (addr : Addr) (v : Nat) (c : Cpu) : Prop where
  mem : c.mem = m
  esi : c.reg .esi = addr + BitVec.ofNat 32 (4 * v)
  found : ∀ j ∈ firstZero m addr, c.reg .ecx = BitVec.ofNat 32 j ∧ v = j / 32 + 1
  full : firstZero m addr = none → c.reg .ecx = 8192

/-- The state at the label `1:` before word `w`: everything below it is set. -/
structure Searching (m : Mem) (addr : Addr) (w : Nat) (c : Cpu) : Prop where
  df : c.df = false
  mem : c.mem = m
  ecx : c.reg .ecx = BitVec.ofNat 32 (32 * w)
  esi : c.reg .esi = addr + BitVec.ofNat 32 (4 * w)
  below : ∀ j < 32 * w, m.bit addr j = true

theorem word_bit {m : Mem} {addr : Addr} {w k : Nat} (hk : k < 32) :
    (~~~ m.read32 (addr + BitVec.ofNat 32 (4 * w))).getLsbD k = !m.bit addr (32 * w + k) := by
  have h1 : (32 * w + k) / 32 = w := by omega
  have h2 : (32 * w + k) % 32 = k := by omega
  rw [Mem.bit_eq_read32, h1, h2, BitVec.getLsbD_not]
  simp [hk]

/-- The four instructions a pass starts with. -/
theorem search_pass {m : Mem} {addr : Addr} {w : Nat} {c : Cpu} (h : Searching m addr w c) :
    ∃ c1 : Cpu, c1.df = false ∧ c1.mem = m ∧ c1.reg .ecx = BitVec.ofNat 32 (32 * w) ∧
      c1.reg .esi = addr + BitVec.ofNat 32 (4 * (w + 1)) ∧
      match bsf (~~~ m.read32 (addr + BitVec.ofNat 32 (4 * w))) with
      | some k => ∀ fuel, run findFirstZeroAsm (fuel + 4) 1 c =
          run findFirstZeroAsm fuel 9 ((c1.set .edx (BitVec.ofNat 32 k)).setZf false)
      | none => ∀ fuel, run findFirstZeroAsm (fuel + 4) 1 c = run findFirstZeroAsm fuel 5 (c1.setZf true) := by
  have hstride : c.stride 4 = 4 := by simp [Cpu.stride, h.df]
  have hesi : addr + BitVec.ofNat 32 (4 * w) + 4 = addr + BitVec.ofNat 32 (4 * (w + 1)) := by
    rw [BitVec.add_assoc, show (4 : BitVec 32) = BitVec.ofNat 32 4 from rfl, ← BitVec.ofNat_add, Nat.mul_succ]
  let c1 := (Instr.notl .eax).exec (Instr.lodsl.exec c)
  have hc1 : c1.reg .eax = ~~~ m.read32 (addr + BitVec.ofNat 32 (4 * w)) := by
    simp [c1, Instr.exec, h.mem, h.esi]
  have hc1' : c1.reg .esi = addr + BitVec.ofNat 32 (4 * (w + 1)) := by
    change c.reg .esi + c.stride 4 = _
    rw [hstride, h.esi, hesi]
  refine ⟨c1, by simp [c1, Instr.exec, h.df], by simp [c1, Instr.exec, h.mem],
    by simp [c1, Instr.exec, h.ecx], hc1', ?_⟩
  cases hk : bsf (~~~ m.read32 (addr + BitVec.ofNat 32 (4 * w))) with
  | some k =>
      intro fuel
      rw [run_step (i := .lodsl) rfl, run_step (i := .notl .eax) rfl, run_step (i := .bsfl .eax .edx) rfl,
        run_step (i := .jne 9) rfl]
      change run findFirstZeroAsm fuel
        (if (Instr.exec (.bsfl .eax .edx) c1).zf then 5 else 9) (Instr.exec (.bsfl .eax .edx) c1) = _
      simp only [Instr.exec, hc1, hk, Cpu.setZf_zf, Bool.false_eq_true, if_false]
  | none =>
      intro fuel
      rw [run_step (i := .lodsl) rfl, run_step (i := .notl .eax) rfl, run_step (i := .bsfl .eax .edx) rfl,
        run_step (i := .jne 9) rfl]
      change run findFirstZeroAsm fuel
        (if (Instr.exec (.bsfl .eax .edx) c1).zf then 5 else 9) (Instr.exec (.bsfl .eax .edx) c1) = _
      simp only [Instr.exec, hc1, hk, Cpu.setZf_zf, if_true]

/-- The pass over word `w` when it has a clear bit: the search stops. -/
theorem search_hit {m : Mem} {addr : Addr} {w k : Nat} {c : Cpu} (h : Searching m addr w c) (hw : w < 256)
    (hk : bsf (~~~ m.read32 (addr + BitVec.ofNat 32 (4 * w))) = some k) (fuel : Nat) :
    ∃ c', run findFirstZeroAsm (fuel + 5) 1 c = some c' ∧ Stopped m addr (w + 1) c' := by
  obtain ⟨c1, -, hmem, hecx, hesi, hrun⟩ := search_pass h
  rw [hk] at hrun
  obtain ⟨hk32, hbit, hlow⟩ := bsf_eq_some.mp hk
  have hfirst : firstZero m addr = some (32 * w + k) := by
    refine firstZero_eq_some.mpr ⟨by omega, ?_, fun i hi => ?_⟩
    · simpa [word_bit hk32] using hbit
    · by_cases hiw : i < 32 * w
      · exact h.below i hiw
      · have hj := hlow (i - 32 * w) (by omega)
        rw [word_bit (by omega), show 32 * w + (i - 32 * w) = i by omega] at hj
        simpa using hj
  let c2 := Instr.exec (.addl (.reg .edx) .ecx) ((c1.set .edx (BitVec.ofNat 32 k)).setZf false)
  have hrun2 : run findFirstZeroAsm (fuel + 5) 1 c = run findFirstZeroAsm fuel 10 c2 := by
    rw [show fuel + 5 = fuel + 1 + 4 from rfl, hrun, run_step (i := .addl (.reg .edx) .ecx) rfl]
    rfl
  refine ⟨c2, ?_, ?_, ?_, ?_, ?_⟩
  · rw [hrun2]
    cases fuel <;> rfl
  · simp [c2, Instr.exec, hmem]
  · simp [c2, Instr.exec, hesi]
  · intro j hj
    obtain rfl : 32 * w + k = j := Option.some.inj (hfirst.symm.trans hj)
    refine ⟨by simp [c2, Instr.exec, hecx, BitVec.ofNat_add], by omega⟩
  · intro hnone
    rw [hfirst] at hnone
    simp at hnone

/-- A full word extends what is known to be set. -/
theorem below_succ {m : Mem} {addr : Addr} {w : Nat} (h : ∀ j < 32 * w, m.bit addr j = true)
    (hk : bsf (~~~ m.read32 (addr + BitVec.ofNat 32 (4 * w))) = none) :
    ∀ j < 32 * (w + 1), m.bit addr j = true := by
  intro j hj
  by_cases hjw : j < 32 * w
  · exact h j hjw
  · have hbit := @word_bit m addr w (j - 32 * w) (by omega)
    rw [bsf_eq_none.mp hk, show 32 * w + (j - 32 * w) = j by omega] at hbit
    simpa using hbit

/-- The pass over a full word, up to the loop condition. -/
theorem search_miss {m : Mem} {addr : Addr} {w : Nat} {c : Cpu} (h : Searching m addr w c)
    (hk : bsf (~~~ m.read32 (addr + BitVec.ofNat 32 (4 * w))) = none) :
    ∃ c' : Cpu, (∀ fuel, run findFirstZeroAsm (fuel + 7) 1 c =
        run findFirstZeroAsm fuel (if (BitVec.ofNat 32 (32 * (w + 1))).slt 8192 then 1 else 8) c') ∧
      Searching m addr (w + 1) c' := by
  obtain ⟨c1, hdf, hmem, hecx, hesi, hrun⟩ := search_pass h
  rw [hk] at hrun
  let c2 := Instr.exec (.addl (.imm 32) .ecx) (c1.setZf true)
  have hecx2 : c2.reg .ecx = BitVec.ofNat 32 (32 * (w + 1)) := by
    change c1.reg .ecx + 32 = _
    rw [hecx, Nat.mul_succ, BitVec.ofNat_add]
    rfl
  refine ⟨Instr.exec (.cmpl (.imm 8192) .ecx) c2, fun fuel => ?_, ?_⟩
  · rw [show fuel + 7 = fuel + 3 + 4 from rfl, hrun, run_step (i := .addl (.imm 32) .ecx) rfl,
      run_step (i := .cmpl (.imm 8192) .ecx) rfl, run_step (i := .jl 1) rfl, ← hecx2]
    rfl
  · exact ⟨hdf, hmem, hecx2, hesi, below_succ h.below hk⟩

theorem slt_8192 {n : Nat} (h : n < 2 ^ 31) : (BitVec.ofNat 32 n).slt 8192 = decide (n < 8192) := by
  have h1 : (BitVec.ofNat 32 n).toInt = n := by
    rw [BitVec.toInt_eq_toNat_of_lt (by rw [BitVec.toNat_ofNat]; omega), BitVec.toNat_ofNat]
    omega
  have h2 : (8192 : BitVec 32).toInt = 8192 := by decide
  rw [BitVec.slt, h1, h2]
  exact decide_eq_decide.mpr (by omega)

/-- From any word on the search stops, and says what it found. -/
theorem search_stops {m : Mem} {addr : Addr} (n : Nat) : ∀ {w : Nat} {c : Cpu}, w + n = 255 →
    Searching m addr w c →
    ∃ c' v, run findFirstZeroAsm (7 * (n + 1) + 2) 1 c = some c' ∧ 1 ≤ v ∧ v ≤ 256 ∧ Stopped m addr v c' := by
  induction n with
  | zero =>
      intro w c hw h
      cases hk : bsf (~~~ m.read32 (addr + BitVec.ofNat 32 (4 * w))) with
      | some k =>
          obtain ⟨c', hrun, hs⟩ := search_hit h (by omega) hk 4
          exact ⟨c', w + 1, hrun, by omega, by omega, hs⟩
      | none =>
          obtain ⟨c1, hrun, h1⟩ := search_miss h hk
          obtain rfl : w = 255 := by omega
          have hnone : firstZero m addr = none := firstZero_eq_none.mpr h1.below
          let c2 := Instr.exec (.addl (.reg .edx) .ecx) (Instr.exec (.xorl .edx .edx) c1)
          refine ⟨c2, 256, ?_, by omega, by omega, ⟨h1.mem, h1.esi, ?_, fun _ => ?_⟩⟩
          · rw [hrun 2, slt_8192 (by omega), run_step (i := .xorl .edx .edx) rfl,
              run_step (i := .addl (.reg .edx) .ecx) rfl]
            rfl
          · simp [hnone]
          · simp [c2, Instr.exec, h1.ecx]
  | succ n ih =>
      intro w c hw h
      cases hk : bsf (~~~ m.read32 (addr + BitVec.ofNat 32 (4 * w))) with
      | some k =>
          obtain ⟨c', hrun, hs⟩ := search_hit h (by omega) hk (7 * (n + 1) + 4)
          exact ⟨c', w + 1, hrun, by omega, by omega, hs⟩
      | none =>
          obtain ⟨c1, hrun, h1⟩ := search_miss h hk
          obtain ⟨c', v, hrun', hv⟩ := ih (by omega) h1
          refine ⟨c', v, ?_, hv⟩
          rw [show 7 * (n + 1 + 1) + 2 = 7 * (n + 1) + 2 + 7 by omega, hrun, slt_8192 (by omega)]
          simpa [show 32 * (w + 1) < 8192 by omega] using hrun'

/-- **What the instructions of `find_first_zero` compute**: the number `v` of words read, and the result. -/
theorem findFirstZero_spec (b : Binding) (c : Cpu) (m : Mem) (addr : Addr) :
    ∃ r v, findFirstZero b c m addr = some r ∧ 1 ≤ v ∧ v ≤ 256 ∧ r.mem = m ∧
      (∀ j ∈ firstZero m addr, r.res = BitVec.ofNat 32 j ∧ v = j / 32 + 1) ∧ (firstZero m addr = none → r.res = 8192) ∧
      r.addr = match b with
        | .original => addr
        | .compiledIn => addr + BitVec.ofNat 32 (4 * v) := by
  have h0 : Searching m addr 0 (Instr.exec .cld (((c.set .ecx 0).set .esi addr).setMem m)) :=
    ⟨rfl, rfl, rfl, (BitVec.add_zero addr).symm, fun j hj => absurd hj (by omega)⟩
  obtain ⟨c', v, hrun, hv1, hv2, hs⟩ := search_stops 255 (by omega) h0
  have hall : run findFirstZeroAsm (7 * 256 + 3) 0 (((c.set .ecx 0).set .esi addr).setMem m) = some c' := by
    rw [run_step (i := .cld) rfl]
    exact hrun
  refine ⟨_, v, by rw [findFirstZero, hall]; rfl, hv1, hv2, hs.mem, hs.found, hs.full, ?_⟩
  cases b with
  | original => rfl
  | compiledIn => exact hs.esi

/-- The original macro does what it is for, whatever the block holds. -/
theorem findFirstZero_original (c : Cpu) (m : Mem) (addr : Addr) :
    ∃ r, findFirstZero .original c m addr = some r ∧ FindFirstZeroSpec m addr r := by
  obtain ⟨r, v, hr, -, -, hmem, hfound, hfull, haddr⟩ := findFirstZero_spec .original c m addr
  exact ⟨r, hr, fun j hj => (hfound j hj).1, fun h => by rw [hfull h]; decide, haddr, hmem⟩

/-- The compiled-in macro finds the same bit and keeps memory, but moves the caller's lvalue past the words it
    has read, and it has always read one. -/
theorem findFirstZero_compiledIn (c : Cpu) (m : Mem) (addr : Addr) :
    ∃ r r', findFirstZero .compiledIn c m addr = some r ∧ findFirstZero .original c m addr = some r' ∧
      r.res = r'.res ∧ r.mem = m ∧ r.addr ≠ addr := by
  obtain ⟨r, v, hr, hv1, hv2, hmem, hfound, hfull, haddr⟩ := findFirstZero_spec .compiledIn c m addr
  obtain ⟨r', v', hr', -, -, -, hfound', hfull', -⟩ := findFirstZero_spec .original c m addr
  refine ⟨r, r', hr, hr', ?_, hmem, ?_⟩
  · cases h : firstZero m addr with
    | none => rw [hfull h, hfull' h]
    | some j => rw [(hfound j h).1, (hfound' j h).1]
  · rw [haddr]
    intro he
    have hzero : BitVec.ofNat 32 (4 * v) = 0 := by simpa using he
    have := congrArg BitVec.toNat hzero
    rw [BitVec.toNat_ofNat, Nat.mod_eq_of_lt (by omega)] at this
    exact absurd this (by simp; omega)

/-! ## `clear_block` and `set_bit` -/

/-- `clear_block` zeroes the block and nothing else. -/
theorem clearBlock_spec (c : Cpu) (m : Mem) (addr : Addr) :
    ∃ m', clearBlock c m addr = some m' ∧ ∀ x, m' x = if (x - addr).toNat < 1024 then 0 else m x := by
  let c1 := Instr.exec .cld ((((c.set .ecx 256).set .edi addr).set .eax 0).setMem m)
  have hrun : run clearBlockAsm 2 0 ((((c.set .ecx 256).set .edi addr).set .eax 0).setMem m) =
      some (stoslLoop 256 c1) := by
    rw [run_step (i := .cld) rfl, run_step (i := .repStosl) rfl]
    rfl
  exact ⟨_, by rw [clearBlock, hrun]; rfl, stoslLoop_up_mem (n := 256) (c := c1) rfl rfl (by decide)⟩


/-- `set_bit` returns the bit and sets it, in the bit string it is given. -/
theorem setBit_spec (c : Cpu) (m : Mem) {j : Nat} (hj : j < 8192) (addr : Addr) :
    setBit c m (BitVec.ofNat 32 j) addr = some (m.bit addr j, m.setBit addr j) := by
  have hshift : (BitVec.ofNat 32 j).sshiftRight 5 = BitVec.ofNat 32 (j / 32) := by
    have hmsb : (BitVec.ofNat 32 j).msb = false := by
      rw [BitVec.msb_eq_decide, BitVec.toNat_ofNat]
      exact decide_eq_false (by omega)
    rw [BitVec.sshiftRight_eq_of_msb_false hmsb]
    refine BitVec.eq_of_toNat_eq ?_
    rw [BitVec.toNat_ushiftRight, BitVec.toNat_ofNat, BitVec.toNat_ofNat, Nat.shiftRight_eq_div_pow,
      Nat.mod_eq_of_lt (a := j) (by omega), Nat.mod_eq_of_lt (by omega)]
  have hdword : bitDword addr (BitVec.ofNat 32 j) = addr + BitVec.ofNat 32 (4 * (j / 32)) := by
    rw [bitDword, hshift, BitVec.ofNat_mul]
    rfl
  have hpos : bitPos (BitVec.ofNat 32 j) = j % 32 := by
    rw [bitPos, BitVec.toNat_ofNat, Nat.mod_eq_of_lt (a := j) (by omega)]
  have hw := Mem.write32_or m (addr + BitVec.ofNat 32 (4 * (j / 32))) (p := j % 32) (Nat.mod_lt _ (by decide))
  rw [Mem.setBit_dword] at hw
  have hbit := Mem.bit_eq_read32 m addr j
  let c0 := ((c.set .ecx (BitVec.ofNat 32 j)).set .edi addr).setMem m
  have hbts : Instr.exec (.btsl .ecx .edi) c0 = (c0.setFlags c0.zf (m.bit addr j) c0.lt).setMem (m.setBit addr j) := by
    simp only [Instr.exec, c0, Cpu.setMem_reg, Cpu.setMem_mem, Cpu.set_reg, if_pos, reduceCtorEq, if_false,
      hdword, hpos, hw, ← hbit]
  have hrun : run setBitAsm 2 0 c0 = some (Instr.exec (.setb .eax) (Instr.exec (.btsl .ecx .edi) c0)) := by
    rw [setBitAsm, run_step (i := .btsl .ecx .edi) rfl, run_step (i := .setb .eax) rfl]
    rfl
  rw [setBit, hrun, hbts]
  cases hb : m.bit addr j <;> simp [Instr.exec]

end Minix
end Fs
end Linux095
