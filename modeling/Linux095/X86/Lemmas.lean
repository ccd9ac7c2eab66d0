import Linux095.X86.Cpu

/-!
# `X86.Lemmas` — what the string instructions do to memory

Byte-level characterisations of `write32`, of the repeated string instructions and of the bit-string
instructions, and the fuel rules of `run`.
-/

namespace X86

/-! ## Words and bytes -/

namespace Mem

@[simp] theorem write_same (m : Mem) (a : Addr) (v : Byte) : m.write a v a = v := by simp [write]

theorem write_ne (m : Mem) {a x : Addr} (v : Byte) (h : x ≠ a) : m.write a v x = m x := by
  simp [write, h]

/-- The byte `d` past `a` after a word store at `a`. -/
theorem write32_add (m : Mem) (a d : Addr) (v : BitVec 32) :
    m.write32 a v (a + d) = if d.toNat < 4 then v.extractLsb' (8 * d.toNat) 8 else m (a + d) := by
  have key : ∀ k : BitVec 32, (a + d = a + k) = (d = k) := fun k => by simp
  have key0 : (a + d = a) = (d = 0#32) := by simp
  simp only [write32, write, key, key0]
  by_cases hd : d.toNat < 4
  · have hk : d = 0#32 ∨ d = 1#32 ∨ d = 2#32 ∨ d = 3#32 := by bv_omega
    rcases hk with rfl | rfl | rfl | rfl <;> rfl
  · have hk : d ≠ 0#32 ∧ d ≠ 1#32 ∧ d ≠ 2#32 ∧ d ≠ 3#32 := by
      refine ⟨?_, ?_, ?_, ?_⟩ <;> rintro rfl <;> exact hd (by decide)
    simp [hk.1, hk.2.1, hk.2.2.1, hk.2.2.2, hd]

/-- The byte at `x` after a word store at `a`. -/
theorem write32_apply (m : Mem) (a x : Addr) (v : BitVec 32) :
    m.write32 a v x = if (x - a).toNat < 4 then v.extractLsb' (8 * (x - a).toNat) 8 else m x := by
  have h := write32_add m a (x - a) v
  rwa [show a + (x - a) = x by rw [BitVec.add_comm, BitVec.sub_add_cancel]] at h

theorem write32_outside (m : Mem) {a x : Addr} (v : BitVec 32) (h : 4 ≤ (x - a).toNat) :
    m.write32 a v x = m x := by
  rw [write32_apply, if_neg (by omega)]

/-- Bit `i` of a word is bit `i % 8` of its byte `i / 8`. -/
theorem read32_getLsbD (m : Mem) (a : Addr) {i : Nat} (hi : i < 32) :
    (m.read32 a).getLsbD i = (m (a + BitVec.ofNat 32 (i / 8))).getLsbD (i % 8) := by
  have h : i / 8 = 0 ∨ i / 8 = 1 ∨ i / 8 = 2 ∨ i / 8 = 3 := by omega
  simp only [read32, BitVec.getLsbD_append]
  rcases h with h | h | h | h
  · rw [h, if_pos (by omega), show i % 8 = i by omega]; simp
  · rw [h, if_neg (by omega), if_pos (by omega), show i % 8 = i - 8 by omega]; rfl
  · rw [h, if_neg (by omega), if_neg (by omega), if_pos (by omega), show i % 8 = i - 8 - 8 by omega]
    rfl
  · rw [h, if_neg (by omega), if_neg (by omega), if_neg (by omega),
      show i % 8 = i - 8 - 8 - 8 by omega]
    rfl

/-- Bit `i` of the bit string that starts at `base`. -/
def bit (m : Mem) (base : Addr) (i : Nat) : Bool :=
  (m (base + BitVec.ofNat 32 (i / 8))).getLsbD (i % 8)

/-- A bit string read through its dwords. -/
theorem bit_eq_read32 (m : Mem) (base : Addr) (i : Nat) :
    m.bit base i = (m.read32 (base + BitVec.ofNat 32 (4 * (i / 32)))).getLsbD (i % 32) := by
  rw [read32_getLsbD m _ (Nat.mod_lt _ (by decide)), bit]
  have hb : i % 32 % 8 = i % 8 := by omega
  have ha : base + BitVec.ofNat 32 (i / 8)
      = base + BitVec.ofNat 32 (4 * (i / 32)) + BitVec.ofNat 32 (i % 32 / 8) := by
    rw [BitVec.add_assoc, ← BitVec.ofNat_add]
    congr 2
    omega
  rw [hb, ha]

/-- Set bit `j` of the bit string that starts at `base`. -/
def setBit (m : Mem) (base : Addr) (j : Nat) : Mem :=
  m.write (base + BitVec.ofNat 32 (j / 8)) (m (base + BitVec.ofNat 32 (j / 8)) ||| BitVec.twoPow 8 (j % 8))

/-- A word store that only sets a bit is a byte store that sets it. -/
theorem write32_or (m : Mem) (a : Addr) {p : Nat} (hp : p < 32) :
    m.write32 a (m.read32 a ||| BitVec.twoPow 32 p) = m.setBit a p := by
  funext x
  obtain ⟨d, rfl⟩ : ∃ d, x = a + d := ⟨x - a, by rw [BitVec.add_comm, BitVec.sub_add_cancel]⟩
  have key : (a + d = a + BitVec.ofNat 32 (p / 8)) = (d.toNat = p / 8) := by
    rw [BitVec.add_right_inj, ← BitVec.toNat_inj, BitVec.toNat_ofNat, Nat.mod_eq_of_lt (by omega)]
  rw [write32_add, setBit, write]
  simp only [key]
  have hd : a + BitVec.ofNat 32 d.toNat = a + d := by simp
  by_cases h4 : d.toNat < 4
  · rw [if_pos h4]
    refine BitVec.eq_of_getLsbD_eq fun i hi => ?_
    rw [BitVec.getLsbD_extractLsb', BitVec.getLsbD_or, read32_getLsbD m a (by omega),
      show (8 * d.toNat + i) / 8 = d.toNat by omega, show (8 * d.toNat + i) % 8 = i by omega, hd,
      BitVec.getLsbD_twoPow]
    by_cases hdp : d.toNat = p / 8
    · rw [if_pos hdp, ← hdp, hd, BitVec.getLsbD_or, BitVec.getLsbD_twoPow]
      have hip : (p = 8 * d.toNat + i) = (p % 8 = i) := propext (by omega)
      simp [hi, hip, Nat.mod_lt, hp]
    · rw [if_neg hdp]
      have : ¬ p = 8 * d.toNat + i := by omega
      simp [hi, this]
  · rw [if_neg h4, if_neg (by omega)]

/-- Setting a bit of a bit string of 8192 bits. -/
theorem bit_setBit (m : Mem) (base : Addr) {i j : Nat} (hi : i < 8192) (hj : j < 8192) :
    (m.setBit base j).bit base i = (m.bit base i || decide (i = j)) := by
  have key : (base + BitVec.ofNat 32 (i / 8) = base + BitVec.ofNat 32 (j / 8)) = (i / 8 = j / 8) := by
    rw [BitVec.add_right_inj, ← BitVec.toNat_inj, BitVec.toNat_ofNat, BitVec.toNat_ofNat,
      Nat.mod_eq_of_lt (by omega), Nat.mod_eq_of_lt (by omega)]
  rw [bit, setBit, write]
  simp only [key]
  by_cases h : i / 8 = j / 8
  · rw [if_pos h, BitVec.getLsbD_or, BitVec.getLsbD_twoPow, bit, h]
    have hij : (j % 8 = i % 8) = (i = j) := propext (by omega)
    simp [hij, Nat.mod_lt]
  · rw [if_neg h, bit]
    have : i ≠ j := fun he => h (by rw [he])
    simp [this]

theorem setBit_outside (m : Mem) (base : Addr) {j : Nat} (hj : j < 8192) {x : Addr}
    (hx : 1024 ≤ (x - base).toNat) : m.setBit base j x = m x := by
  refine write_ne m _ fun he => ?_
  rw [he, BitVec.add_comm, BitVec.add_sub_cancel, BitVec.toNat_ofNat, Nat.mod_eq_of_lt (by omega)] at hx
  omega

/-- A bit string addressed through its dwords. -/
theorem setBit_dword (m : Mem) (base : Addr) (j : Nat) :
    m.setBit (base + BitVec.ofNat 32 (4 * (j / 32))) (j % 32) = m.setBit base j := by
  have ha : base + BitVec.ofNat 32 (4 * (j / 32)) + BitVec.ofNat 32 (j % 32 / 8)
      = base + BitVec.ofNat 32 (j / 8) := by
    rw [BitVec.add_assoc, ← BitVec.ofNat_add]
    congr 2
    omega
  rw [setBit, setBit, ha, show j % 32 % 8 = j % 8 by omega]

end Mem

/-! ## The lowest set bit -/

theorem bsf_eq_none {v : BitVec 32} : bsf v = none ↔ v = 0 := by
  simp only [bsf, List.find?_eq_none, List.mem_range, Bool.not_eq_true]
  constructor
  · intro h
    exact BitVec.eq_of_getLsbD_eq (fun i hi => by rw [h i hi]; simp)
  · rintro rfl i _
    simp

theorem bsf_eq_some {v : BitVec 32} {k : Nat} :
    bsf v = some k ↔ k < 32 ∧ v.getLsbD k = true ∧ ∀ j < k, v.getLsbD j = false := by
  rw [bsf, List.find?_range_eq_some]
  simp [and_left_comm]

/-! ## Fuel -/

theorem run_step {code : List Instr} {i : Instr} {pc : Nat} (h : code[pc]? = some i) (n : Nat) (c : Cpu) :
    run code (n + 1) pc c = run code n (i.next c pc) (i.exec c) := by
  simp [run, h]

/-- Every jump of `code` goes forwards. -/
def forwardOnly (code : List Instr) : Bool :=
  (List.range code.length).all fun pc =>
    match code[pc]? with
    | some (.jne t) => pc < t
    | some (.jl t) => pc < t
    | _ => true

theorem lt_next_of_forwardOnly {code : List Instr} (h : forwardOnly code = true) {pc : Nat} {i : Instr}
    (hi : code[pc]? = some i) (c : Cpu) : pc < i.next c pc := by
  have hpc : pc < code.length := (List.getElem?_eq_some_iff.mp hi).1
  have hall := List.all_eq_true.mp h pc (List.mem_range.mpr hpc)
  rw [hi] at hall
  cases i with
  | jne t => simp only [decide_eq_true_eq] at hall; simp only [Instr.next]; split <;> omega
  | jl t => simp only [decide_eq_true_eq] at hall; simp only [Instr.next]; split <;> omega
  | _ => exact Nat.lt_succ_self pc

/-- A program without backward jumps ends: its length is fuel enough. -/
theorem run_isSome_of_forwardOnly {code : List Instr} (h : forwardOnly code = true) {n pc : Nat}
    (hn : code.length ≤ pc + n) (c : Cpu) : ∃ c', run code n pc c = some c' := by
  induction n generalizing pc c with
  | zero => exact ⟨c, by simp only [run]; rw [if_pos (by omega)]⟩
  | succ n ih =>
      cases hi : code[pc]? with
      | none => exact ⟨c, by simp only [run, hi]⟩
      | some i =>
          rw [run_step hi]
          have hlt := lt_next_of_forwardOnly h hi c
          exact ih (by omega) _

/-! ## Filling -/

private theorem three_sub_lt {d : BitVec 32} : (3 - d).toNat < 4 ↔ d.toNat < 4 := by
  constructor <;> intro h <;> bv_omega

private theorem sub_four_lt {d : BitVec 32} {n : Nat} (h : (d - 4).toNat < 4 * n) :
    d.toNat < 4 * (n + 1) := by
  bv_omega

private theorem le_sub_four {d : BitVec 32} {n : Nat} (h : ¬ (d - 4).toNat < 4 * n) (hd : 4 ≤ d.toNat) :
    ¬ d.toNat < 4 * (n + 1) := by
  rw [BitVec.toNat_sub_of_le (by simpa [BitVec.le_def] using hd)] at h
  have h4 : (4 : BitVec 32).toNat = 4 := rfl
  omega

/-- `rep stosl` with `eax = 0` and the direction flag set zeroes the `4 * n` bytes that end at `edi + 3`. -/
theorem stoslLoop_down_mem {n : Nat} {c : Cpu} (hdf : c.df = true) (heax : c.reg .eax = 0)
    (hn : n ≤ 2 ^ 30) (x : Addr) :
    (stoslLoop n c).mem x = if (c.reg .edi + 3 - x).toNat < 4 * n then 0 else c.mem x := by
  induction n generalizing c with
  | zero => simp [stoslLoop]
  | succ n ih =>
      rw [stoslLoop, ih (by simpa using hdf) (by simpa using heax) (by omega)]
      simp only [Cpu.set_reg, Cpu.setMem_reg, Cpu.setMem_mem, Cpu.stride, hdf, heax, reduceIte,
        reduceCtorEq, Mem.write32_apply]
      -- everything is decided by the distance of `x` from the last byte of the dword at `edi`
      have hx : x - c.reg .edi = 3 - (c.reg .edi + 3 - x) := by bv_omega
      have hd : c.reg .edi + -4 + 3 - x = (c.reg .edi + 3 - x) - 4 := by
        rw [← BitVec.sub_eq_add_neg]
        bv_omega
      rw [hx, hd]
      generalize c.reg .edi + 3 - x = d
      by_cases h1 : (d - 4).toNat < 4 * n
      · rw [if_pos h1, if_pos (sub_four_lt h1)]
      · rw [if_neg h1]
        by_cases h2 : d.toNat < 4
        · rw [if_pos (three_sub_lt.mpr h2), if_pos (by omega)]
          simp
        · rw [if_neg (mt three_sub_lt.mp h2), if_neg (le_sub_four h1 (by omega))]

/-- `rep stosl` with `eax = 0` and the direction flag clear zeroes the `4 * n` bytes from `edi` on. -/
theorem stoslLoop_up_mem {n : Nat} {c : Cpu} (hdf : c.df = false) (heax : c.reg .eax = 0)
    (hn : n ≤ 2 ^ 30) (x : Addr) :
    (stoslLoop n c).mem x = if (x - c.reg .edi).toNat < 4 * n then 0 else c.mem x := by
  induction n generalizing c with
  | zero => simp [stoslLoop]
  | succ n ih =>
      rw [stoslLoop, ih (by simpa using hdf) (by simpa using heax) (by omega)]
      simp only [Cpu.set_reg, Cpu.setMem_reg, Cpu.setMem_mem, Cpu.stride, hdf, heax, reduceIte,
        reduceCtorEq, Mem.write32_apply,
        Bool.false_eq_true]
      have hd : x - (c.reg .edi + 4) = (x - c.reg .edi) - 4 := by bv_omega
      rw [hd]
      generalize x - c.reg .edi = d
      by_cases h1 : (d - 4).toNat < 4 * n
      · rw [if_pos h1, if_pos (sub_four_lt h1)]
      · rw [if_neg h1]
        by_cases h2 : d.toNat < 4
        · rw [if_pos h2, if_pos (by omega)]
          simp
        · rw [if_neg h2, if_neg (le_sub_four h1 (by omega))]

/-- The registers and flags after `rep stosl`. -/
theorem stoslLoop_reg (n : Nat) (c : Cpu) :
    (stoslLoop n c).reg = ((c.set .edi (c.reg .edi + BitVec.ofNat 32 n * c.stride 4)).set .ecx
      (c.reg .ecx - BitVec.ofNat 32 n)).reg
    ∧ (stoslLoop n c).df = c.df ∧ (stoslLoop n c).zf = c.zf := by
  induction n generalizing c with
  | zero =>
      refine ⟨funext fun r => ?_, rfl, rfl⟩
      cases r <;> simp [stoslLoop]
  | succ n ih =>
      obtain ⟨hreg, hdf, hzf⟩ := ih
        (((c.set .edi (c.reg .edi + c.stride 4)).set .ecx (c.reg .ecx - 1)).setMem
          (c.mem.write32 (c.reg .edi) (c.reg .eax)))
      refine ⟨?_, hdf, hzf⟩
      rw [stoslLoop, hreg]
      have h1 : BitVec.ofNat 32 (n + 1) = 1#32 + BitVec.ofNat 32 n := by
        rw [Nat.add_comm]
        exact BitVec.ofNat_add 1 n
      funext r
      cases r with
      | ecx => simp [h1, BitVec.sub_sub]
      | edi =>
          have hstride : ∀ d : Cpu, d.df = c.df → d.stride 4 = c.stride 4 := fun d hd => by
            rw [Cpu.stride, Cpu.stride, hd]
          have hst := hstride (((c.set .edi (c.reg .edi + c.stride 4)).set .ecx (c.reg .ecx - 1)).setMem
            (c.mem.write32 (c.reg .edi) (c.reg .eax))) (by simp)
          rw [hst]
          generalize c.stride 4 = w
          simp [h1, BitVec.add_mul, BitVec.add_assoc]
      | _ => simp

/-! ## Copying -/

/-- One `movsl` with the direction flag clear. -/
def movslStep (c : Cpu) : Cpu :=
  (((c.set .edi (c.reg .edi + 4)).set .esi (c.reg .esi + 4)).set .ecx (c.reg .ecx - 1)).setMem
    (c.mem.write32 (c.reg .edi) (c.mem.read32 (c.reg .esi)))

theorem movslLoop_succ {n : Nat} {c : Cpu} (hdf : c.df = false) :
    movslLoop (n + 1) c = movslLoop n (movslStep c) := by
  simp [movslLoop, movslStep, Cpu.stride, hdf]

/-- The pointers after `rep movsl`. -/
theorem movslLoop_reg {n : Nat} : ∀ {c : Cpu}, c.df = false →
    (movslLoop n c).reg .edi = c.reg .edi + BitVec.ofNat 32 (4 * n) ∧
    (movslLoop n c).reg .esi = c.reg .esi + BitVec.ofNat 32 (4 * n) := by
  induction n with
  | zero => exact fun {c} _ => ⟨(BitVec.add_zero _).symm, (BitVec.add_zero _).symm⟩
  | succ n ih =>
      intro c hdf
      obtain ⟨hedi, hesi⟩ := ih (c := movslStep c) hdf
      have h4 : ∀ a : Addr, a + 4 + BitVec.ofNat 32 (4 * n) = a + BitVec.ofNat 32 (4 * (n + 1)) := by
        intro a
        rw [BitVec.add_assoc, show (4 : BitVec 32) = BitVec.ofNat 32 4 from rfl, ← BitVec.ofNat_add]
        congr 2
        omega
      rw [movslLoop_succ hdf, hedi, hesi]
      exact ⟨h4 _, h4 _⟩

/-! ## Scanning -/

/-- The largest `k < n` with `f k`: where a downward scan over `n` elements stops. -/
def lastHit (f : Nat → Bool) : Nat → Option Nat
  | 0 => none
  | n + 1 => if f n then some n else lastHit f n

theorem lastHit_eq_none {f : Nat → Bool} {n : Nat} : lastHit f n = none ↔ ∀ k < n, f k = false := by
  induction n with
  | zero => simp [lastHit]
  | succ n ih =>
      by_cases hf : f n = true
      · simp only [lastHit, hf, if_true, reduceCtorEq, false_iff]
        intro h
        simp [h n (by omega)] at hf
      · simp only [lastHit, hf, if_false, ih, Bool.false_eq_true]
        refine ⟨fun h k hk => ?_, fun h k hk => h k (by omega)⟩
        rcases Nat.lt_succ_iff_lt_or_eq.mp hk with hk | rfl
        · exact h k hk
        · simpa using hf

theorem lastHit_eq_some {f : Nat → Bool} {n k : Nat} :
    lastHit f n = some k ↔ k < n ∧ f k = true ∧ ∀ j, k < j → j < n → f j = false := by
  induction n with
  | zero => simp [lastHit]
  | succ n ih =>
      by_cases hf : f n = true
      · simp only [lastHit, hf, if_true, Option.some.injEq]
        constructor
        · rintro rfl
          exact ⟨by omega, hf, fun j h1 h2 => by omega⟩
        · rintro ⟨h1, -, h3⟩
          by_contra hne
          simp [h3 n (by omega) (by omega)] at hf
      · simp only [lastHit, hf, if_false, ih, Bool.false_eq_true]
        refine ⟨fun ⟨h1, h2, h3⟩ => ⟨by omega, h2, fun j hj hj' => ?_⟩,
          fun ⟨h1, h2, h3⟩ => ⟨?_, h2, fun j hj hj' => h3 j hj (by omega)⟩⟩
        · rcases Nat.lt_succ_iff_lt_or_eq.mp hj' with hj' | rfl
          · exact h3 j hj hj'
          · simpa using hf
        · rcases Nat.lt_succ_iff_lt_or_eq.mp h1 with h1 | rfl
          · exact h1
          · exact absurd h2 hf

/-- `repne scasb` downwards over the `n` bytes that end at `base + n - 1`: it stops one below the highest
    byte equal to `al`, with that byte's index in `ecx`, and otherwise runs off the low end. -/
theorem scasbLoop_down {n : Nat} {c : Cpu} {b : Addr} (hdf : c.df = true)
    (hedi : c.reg .edi = b + BitVec.ofNat 32 n - 1) (hecx : c.reg .ecx = BitVec.ofNat 32 n) :
    scasbLoop n c =
      match lastHit (fun k => decide (c.mem (b + BitVec.ofNat 32 k) = (c.reg .eax).setWidth 8)) n with
      | some k =>
          ((c.set .edi (b + BitVec.ofNat 32 k - 1)).set .ecx (BitVec.ofNat 32 k)).setZf true
      | none => ((c.set .edi (b - 1)).set .ecx 0).setZf (if n = 0 then c.zf else false) := by
  induction n generalizing c with
  | zero =>
      have h1 : c.reg .edi = b - 1 := by rw [hedi]; simp
      have h2 : c.reg .ecx = 0 := by rw [hecx]; rfl
      have hreg : ((c.set .edi (b - 1)).set .ecx 0).reg = c.reg := by
        funext r
        cases r <;> simp [h1, h2]
      simp only [scasbLoop, lastHit, if_true, Cpu.setZf, hreg]
      rfl
  | succ n ih =>
      have hcur : c.reg .edi = b + BitVec.ofNat 32 n := by
        rw [hedi, BitVec.ofNat_add]
        bv_omega
      have hcnt : c.reg .ecx - 1 = BitVec.ofNat 32 n := by
        rw [hecx, BitVec.ofNat_add]
        bv_omega
      have hstr : c.stride 1 = -1 := by simp [Cpu.stride, hdf]
      simp only [scasbLoop, lastHit, hcur, hcnt, hstr]
      by_cases hit : c.mem (b + BitVec.ofNat 32 n) = (c.reg .eax).setWidth 8
      · simp only [hit, decide_true, if_true]
        have : b + BitVec.ofNat 32 n + -1 = b + BitVec.ofNat 32 n - 1 := by bv_omega
        rw [this]
      · simp only [hit, decide_false, Bool.false_eq_true, if_false]
        rw [ih (by simpa using hdf) (by simp; bv_omega) (by simp)]
        simp only [if_false, Nat.add_eq_zero_iff, Nat.one_ne_zero,
          and_false]
        split <;> simp_all [Cpu.set, Cpu.setZf]

end X86
