import Linux095.X86.Lemmas

/-!
# `Mm.FreePage` — `get_free_page` (`mm/swap.c`)

`get_free_page` scans `mem_map` downwards for a zero byte, claims the page, clears it, and swaps something
out and tries again when nothing was free. Scan, claim and clear are one `asm` block; the retry is a `goto`
around it.

The `asm` block is kept as the instruction list it is (`getFreePageAsm`) and run on a flat memory in which
`mem_map` is an ordinary array, so that a stray store is visible. Its operands `__paging_pages` and `__edi`
are bound with `"+c"` and `"+D"` to C locals that are set up once, **before** the label `repeat`.
-/

namespace Linux095
namespace Mm
open X86

/-! ## Constants of `linux/mm.h` -/

def LOW_MEM : BitVec 32 := 0x100000
def PAGING_MEMORY : Nat := 15 * 1024 * 1024
def PAGING_PAGES : Nat := 3840

/-- `PAGING_PAGES` is `PAGING_MEMORY >> 12`. -/
example : PAGING_MEMORY >>> 12 = PAGING_PAGES := by decide

/-- Where the kernel image keeps `mem_map`, and the `HIGH_MEMORY` that `mem_init` set. The image, `mem_map`
    included, is loaded below `LOW_MEM`; `main` passes a `memory_end` of at least one megabyte. -/
structure Layout where
  memMap : Addr
  highMemory : BitVec 32
  memMap_pos : 0 < memMap.toNat
  memMap_end : memMap.toNat + PAGING_PAGES ≤ LOW_MEM.toNat
  low_le_high : LOW_MEM.toNat ≤ highMemory.toNat

namespace Layout

/-- The address of `mem_map[k]`. -/
def entry (L : Layout) (k : Nat) : Addr := L.memMap + BitVec.ofNat 32 k

/-- `mem_map[k]`. -/
def count (L : Layout) (m : Mem) (k : Nat) : Byte := m (L.entry k)

/-- `mem_map + PAGING_PAGES - 1`, where a scan starts. -/
def scanTop (L : Layout) : Addr := L.memMap + BitVec.ofNat 32 PAGING_PAGES - 1

/-- The entry a full scan stops at: the highest one that is zero. -/
def firstFree (L : Layout) (m : Mem) : Option Nat :=
  lastHit (fun k => decide (L.count m k = 0)) PAGING_PAGES

end Layout

/-- The physical page of `mem_map[k]`, the inverse of `MAP_NR`. -/
def page (k : Nat) : Addr := BitVec.ofNat 32 k <<< 12 + LOW_MEM

/-! ## The `asm` block -/

def getFreePageAsm : List Instr :=
  [ .std,
    .repneScasb,
    .jne 11,
    .movb 1 1 .edi,
    .sall 12 .ecx,
    .addl (.imm LOW_MEM) .ecx,
    .movl (.reg .ecx) .edx,
    .movl (.imm 1024) .ecx,
    .leal 4092 .edx .edi,
    .repStosl,
    .movl (.reg .edx) .eax,
    .cld ]

/-- One execution of the block: the operands bound on entry, the store and `result` on exit. -/
structure Scan where
  pagingPages : BitVec 32
  edi : BitVec 32
  before : Mem
  after : Mem
  result : BitVec 32

/-- Enter the block from the machine state `c` (its free registers and condition bits are whatever the
    compiler left) with `"0"(0)`, `"+c"` and `"+D"` bound, and leave through the label `1:`. -/
def execAsm (c : Cpu) (pagingPages edi : BitVec 32) (m : Mem) : Option Cpu :=
  run getFreePageAsm 12 0 ((((c.set .eax 0).set .ecx pagingPages).set .edi edi).setMem m)

/-! ## `get_free_page` -/

/-- What the surroundings decide: the machine state on the `n`-th entry to the block, and what the `n`-th
    `swap_out()` does — fail, having freed nothing, or leave some other memory behind. -/
structure Env where
  regs : Nat → Cpu
  swapOut : Nat → Mem → Option Mem

inductive Event where
  | scan (s : Scan)
  | swapOut (before : Mem) (after : Option Mem)

/-- The events of a call, and the page it returned (`none` while it is still looping). -/
structure Outcome where
  events : List Event
  result : Option (BitVec 32)

/-- From the label `repeat` on, with the locals `__paging_pages` and `__edi` as the previous pass left them.
    `n` counts the entries to the block so far and `k` the calls of `swap_out`; each pass costs one unit of
    fuel. -/
def retry (L : Layout) (env : Env) : Nat → Nat → Nat → BitVec 32 → BitVec 32 → Mem → Outcome
  | 0, _, _, _, _, _ => ⟨[], none⟩
  | fuel + 1, n, k, pagingPages, edi, m =>
      match execAsm (env.regs n) pagingPages edi m with
      | none => ⟨[], none⟩
      | some c =>
          let scan := Event.scan ⟨pagingPages, edi, m, c.mem, c.reg .eax⟩
          if L.highMemory.ule (c.reg .eax) then
            let o := retry L env fuel (n + 1) k (c.reg .ecx) (c.reg .edi) c.mem
            ⟨scan :: o.events, o.result⟩
          else
            let result :=
              if (c.reg .eax ≠ 0 ∧ (c.reg .eax).ult LOW_MEM) ∨ c.reg .eax &&& 0xfff ≠ 0 then 0
              else c.reg .eax
            if result = 0 then
              match env.swapOut k c.mem with
              | none => ⟨[scan, .swapOut c.mem none], some result⟩
              | some m' =>
                  let o := retry L env fuel (n + 1) (k + 1) (c.reg .ecx) (c.reg .edi) m'
                  ⟨scan :: .swapOut c.mem (some m') :: o.events, o.result⟩
            else ⟨[scan], some result⟩

/-- `get_free_page()` with the memory `m`. -/
def getFreePage (L : Layout) (env : Env) (fuel : Nat) (m : Mem) : Outcome :=
  retry L env fuel 0 0 (BitVec.ofNat 32 PAGING_PAGES) L.scanTop m

attribute [local irreducible] stoslLoop

/-! ## Passes through the block -/

/-- The claimed page cleared and its `mem_map` entry set to one. -/
def claim (L : Layout) (m : Mem) (k : Nat) : Mem := fun x =>
  if (x - page k).toNat < 4096 then 0 else (m.write (L.entry k) 1) x

/-- Entered with an empty range, the scan compares nothing: the branch tests the `zf` of the caller. -/
theorem execAsm_empty {c : Cpu} (hzf : c.zf = false) (edi : BitVec 32) (m : Mem) :
    ∃ c', execAsm c 0 edi m = some c' ∧ c'.reg .eax = 0 ∧ c'.reg .ecx = 0 ∧ c'.reg .edi = edi
      ∧ c'.mem = m := by
  simp [execAsm, run, getFreePageAsm, Instr.exec, Instr.next, scasbLoop, hzf]

/-- The block always runs to its end. -/
theorem execAsm_isSome (c : Cpu) (pagingPages edi : BitVec 32) (m : Mem) :
    ∃ c', execAsm c pagingPages edi m = some c' :=
  run_isSome_of_forwardOnly (by decide) (by decide) _

/-- `repne scasb` over the whole of `mem_map`. -/
theorem exec_scan (L : Layout) {c : Cpu} (hdf : c.df = true) (hedi : c.reg .edi = L.scanTop)
    (hecx : c.reg .ecx = BitVec.ofNat 32 PAGING_PAGES) (heax : c.reg .eax = 0) :
    Instr.repneScasb.exec c = match L.firstFree c.mem with
      | some k => ((c.set .edi (L.entry k - 1)).set .ecx (BitVec.ofNat 32 k)).setZf true
      | none => ((c.set .edi (L.memMap - 1)).set .ecx 0).setZf false := by
  have hn : (c.reg .ecx).toNat = PAGING_PAGES := by rw [hecx]; rfl
  rw [Instr.exec, hn, scasbLoop_down (b := L.memMap) hdf hedi hecx, heax]
  rfl

/-- From the store into `mem_map` to the label: the address of the page is formed and the page cleared. -/
theorem run_claim {c : Cpu} (hdf : c.df = true) (heax : c.reg .eax = 0) :
    ∃ c', run getFreePageAsm 9 3 c = some c' ∧ c'.reg .ecx = 0 ∧
      c'.reg .eax = c.reg .ecx <<< 12 + LOW_MEM ∧
      c'.mem = fun x => if (x - (c.reg .ecx <<< 12 + LOW_MEM)).toNat < 4096 then 0
        else (c.mem.write (c.reg .edi + 1) 1) x := by
  obtain ⟨s, hs, hdf', heax', hecx, hedx, hedi, hmem⟩ :
      ∃ s, run getFreePageAsm 9 3 c = run getFreePageAsm 3 9 s ∧ s.df = true ∧ s.reg .eax = 0 ∧
        s.reg .ecx = 1024 ∧ s.reg .edx = c.reg .ecx <<< 12 + LOW_MEM ∧
        s.reg .edi = s.reg .edx + 4092 ∧ s.mem = c.mem.write (c.reg .edi + 1) 1 := by
    refine ⟨_, rfl, ?_⟩
    simp [Instr.exec, hdf, heax]
  obtain ⟨hreg, -, -⟩ := stoslLoop_reg 1024 s
  have hn : (s.reg .ecx).toNat = 1024 := by rw [hecx]; rfl
  refine ⟨_, hs, ?_, ?_, ?_⟩
  · simp [Instr.exec, hreg, hecx]
  · simp [Instr.exec, hn, hreg, hedx]
  · funext x
    have hx : s.reg .edi + 3 - x = 4095 - (x - s.reg .edx) := by rw [hedi]; bv_omega
    simp only [Instr.exec, hn, Cpu.set_mem, Cpu.setDf_mem]
    rw [stoslLoop_down_mem hdf' heax' (by decide), hx, hmem, hedx]
    generalize x - (c.reg .ecx <<< 12 + LOW_MEM) = d
    have hd : (4095 - d).toNat < 4 * 1024 ↔ d.toNat < 4096 := by
      constructor <;> intro h <;> bv_omega
    simp only [hd]

/-- A pass over the whole of `mem_map` claims and clears the highest free page, or finds none. -/
theorem execAsm_full (L : Layout) (c : Cpu) (m : Mem) :
    ∃ c', execAsm c (BitVec.ofNat 32 PAGING_PAGES) L.scanTop m = some c' ∧ c'.reg .ecx = 0 ∧
      match L.firstFree m with
      | some k => c'.reg .eax = page k ∧ c'.mem = claim L m k
      | none => c'.reg .eax = 0 ∧ c'.mem = m := by
  rw [execAsm, run_step (i := .std) rfl, run_step (i := .repneScasb) rfl,
    exec_scan L rfl (by simp [Instr.exec]) (by simp [Instr.exec]) (by simp [Instr.exec])]
  generalize hc : Instr.std.exec
    ((((c.set .eax 0).set .ecx (BitVec.ofNat 32 PAGING_PAGES)).set .edi L.scanTop).setMem m) = c1
  have hmem : c1.mem = m := by simp [← hc, Instr.exec]
  have hdf : c1.df = true := by simp [← hc, Instr.exec]
  have heax : c1.reg .eax = 0 := by simp [← hc, Instr.exec]
  rw [hmem]
  cases hk : L.firstFree m with
  | none => simp [run, getFreePageAsm, Instr.exec, Instr.next, hmem, heax]
  | some k =>
      obtain ⟨c', hrun, hecx, hres, hclaim⟩ :=
        run_claim (c := ((c1.set .edi (L.entry k - 1)).set .ecx (BitVec.ofNat 32 k)).setZf true)
          (by simpa using hdf) (by simpa using heax)
      refine ⟨c', hrun, hecx, by simpa [page] using hres, ?_⟩
      funext x
      have he : L.entry k - 1 + 1 = L.entry k := by bv_omega
      simp only [hclaim, Cpu.setZf_reg, Cpu.setZf_mem, Cpu.set_reg, Cpu.set_mem, if_true, if_false,
        reduceCtorEq, he, hmem]
      rfl

/-! ## Pages and entries -/

theorem page_toNat {k : Nat} (hk : k < PAGING_PAGES) : (page k).toNat = 4096 * k + LOW_MEM.toNat := by
  have hP : PAGING_PAGES = 3840 := rfl
  have hL : LOW_MEM.toNat = 1048576 := rfl
  have hs : k <<< 12 = 4096 * k := by rw [Nat.shiftLeft_eq]; omega
  have hm : k % 2 ^ 32 = k := Nat.mod_eq_of_lt (by omega)
  rw [page, BitVec.toNat_add, BitVec.toNat_shiftLeft, BitVec.toNat_ofNat, hm, hs, hL]
  omega

theorem entry_toNat (L : Layout) {k : Nat} (hk : k < PAGING_PAGES) :
    (L.entry k).toNat = L.memMap.toNat + k := by
  have h := L.memMap_end
  have hP : PAGING_PAGES = 3840 := rfl
  have hL : LOW_MEM.toNat = 1048576 := rfl
  rw [Layout.entry, BitVec.toNat_add, BitVec.toNat_ofNat]
  omega

/-- `mem_map` lies outside every page it describes. -/
theorem entry_not_in_page (L : Layout) {j k : Nat} (hj : j < PAGING_PAGES) (hk : k < PAGING_PAGES) :
    ¬ (L.entry j - page k).toNat < 4096 := by
  have h1 := entry_toNat L hj
  have h2 := page_toNat hk
  have h3 := L.memMap_end
  have hP : PAGING_PAGES = 3840 := rfl
  have hL : LOW_MEM.toNat = 1048576 := rfl
  rw [BitVec.toNat_sub, h1, h2]
  omega

/-- The sanity checks of `get_free_page` pass on every page of `mem_map`. -/
theorem page_sane {k : Nat} (hk : k < PAGING_PAGES) :
    page k ≠ 0 ∧ ¬ ((page k ≠ 0 ∧ (page k).ult LOW_MEM) ∨ page k &&& 0xfff ≠ 0) := by
  have h := page_toNat hk
  have hL : LOW_MEM.toNat = 1048576 := rfl
  have h0 : page k ≠ 0 := by
    intro h'
    rw [h'] at h
    simp at h
    omega
  have hand : page k &&& 0xfff = 0 := by
    apply BitVec.eq_of_toNat_eq
    rw [BitVec.toNat_and, h, show (0xfff : BitVec 32).toNat = 2 ^ 12 - 1 from rfl,
      Nat.and_two_pow_sub_one_eq_mod, hL, show (0 : BitVec 32).toNat = 0 from rfl]
    omega
  refine ⟨h0, ?_⟩
  rintro (⟨-, hlt⟩ | hne)
  · rw [BitVec.ult, decide_eq_true_eq] at hlt
    omega
  · exact hne hand

theorem claim_count (L : Layout) (m : Mem) {k : Nat} (hk : k < PAGING_PAGES) :
    L.count (claim L m k) k = 1 := by
  simp only [Layout.count, claim, if_neg (entry_not_in_page L hk hk), Mem.write_same]

theorem claim_cleared (L : Layout) (m : Mem) (k : Nat) {i : Nat} (hi : i < 1024) :
    (claim L m k).read32 (page k + BitVec.ofNat 32 (4 * i)) = 0 := by
  have hz : ∀ j : Nat, j < 4096 → claim L m k (page k + BitVec.ofNat 32 j) = 0 := by
    intro j hj
    have hd : (page k + BitVec.ofNat 32 j - page k).toNat = j := by
      rw [BitVec.add_comm, BitVec.add_sub_cancel, BitVec.toNat_ofNat]
      omega
    rw [claim, hd, if_pos hj]
  have hadd : ∀ j : Nat, page k + BitVec.ofNat 32 (4 * i) + BitVec.ofNat 32 j
      = page k + BitVec.ofNat 32 (4 * i + j) := by
    intro j
    rw [BitVec.add_assoc, BitVec.ofNat_add]
  have h3 := hadd 3
  have h2 := hadd 2
  have h1 := hadd 1
  simp only [Mem.read32]
  rw [show (3 : BitVec 32) = BitVec.ofNat 32 3 from rfl, h3, show (2 : BitVec 32) = BitVec.ofNat 32 2 from rfl, h2,
    show (1 : BitVec 32) = BitVec.ofNat 32 1 from rfl, h1, hz _ (by omega), hz _ (by omega), hz _ (by omega),
    hz _ (by omega)]
  rfl

/-! ## The contract -/

/-- What a call is meant to do, read off its events. -/
structure Contract (L : Layout) (o : Outcome) : Prop where
  /-- A page returned was free when the last scan chose it, is in range, counted once and cleared. -/
  claimed : ∀ p, o.result = some p → p ≠ 0 → ∃ s k, o.events.getLast? = some (.scan s) ∧
    k < PAGING_PAGES ∧ p = page k ∧ LOW_MEM.toNat ≤ p.toNat ∧ p.toNat < L.highMemory.toNat ∧
    L.count s.before k = 0 ∧ L.count s.after k = 1 ∧
    ∀ i < 1024, s.after.read32 (p + BitVec.ofNat 32 (4 * i)) = 0
  /-- The selection changes nothing but the page it returns and that page's entry. -/
  untouched : ∀ s, .scan s ∈ o.events → ∀ x, s.after x ≠ s.before x → ∃ k < PAGING_PAGES,
    o.result = some (page k) ∧ (x = L.entry k ∨ (x - page k).toNat < 4096)
  /-- Zero is returned only when the last scan had nothing to find and `swap_out` failed after it. -/
  exhausted : o.result = some 0 → ∃ es s, o.events = es ++ [.scan s, .swapOut s.after none] ∧
    ∀ k < PAGING_PAGES, L.count s.before k ≠ 0
  /-- After a successful `swap_out` the whole of `mem_map` is examined again. -/
  rescans : ∀ i m m' s, o.events[i]? = some (.swapOut m (some m')) → o.events[i + 1]? = some (.scan s) →
    s.pagingPages = BitVec.ofNat 32 PAGING_PAGES ∧ s.edi = L.scanTop

/-- The first pass settles the call: the page of the highest free entry is below `HIGH_MEMORY`, or no entry
    is free and `swap_out` fails at once. -/
def FirstPassSettles (L : Layout) (env : Env) (m : Mem) : Prop :=
  match L.firstFree m with
  | some k => (page k).toNat < L.highMemory.toNat
  | none => env.swapOut 0 m = none

section FirstPass
variable (L : Layout) (env : Env) (m : Mem)

theorem firstFree_some {k : Nat} (h : L.firstFree m = some k) :
    k < PAGING_PAGES ∧ L.count m k = 0 := by
  obtain ⟨hk, hf, -⟩ := lastHit_eq_some.mp h
  exact ⟨hk, of_decide_eq_true hf⟩

theorem firstFree_none (h : L.firstFree m = none) : ∀ k < PAGING_PAGES, L.count m k ≠ 0 :=
  fun k hk => of_decide_eq_false (lastHit_eq_none.mp h k hk)

theorem highMemory_ule {p : BitVec 32} :
    L.highMemory.ule p = true ↔ L.highMemory.toNat ≤ p.toNat := by
  simp [BitVec.ule]

/-- `HIGH_MEMORY` is not zero, so a pass without a page goes on to `swap_out`. -/
theorem not_highMemory_ule_zero : L.highMemory.ule 0#32 = false := by
  have h := L.low_le_high
  have hL : LOW_MEM.toNat = 1048576 := rfl
  have h0 : (0#32).toNat = 0 := rfl
  rw [Bool.eq_false_iff, Ne, highMemory_ule]
  omega

/-- A first pass that claims a page below `HIGH_MEMORY` ends the call. -/
theorem getFreePage_claims {k : Nat} (hk : L.firstFree m = some k)
    (hlt : (page k).toNat < L.highMemory.toNat) (fuel : Nat) :
    getFreePage L env (fuel + 1) m =
      ⟨[.scan ⟨BitVec.ofNat 32 PAGING_PAGES, L.scanTop, m, claim L m k, page k⟩], some (page k)⟩ := by
  obtain ⟨c, hc, -, hres⟩ := execAsm_full L (env.regs 0) m
  rw [hk] at hres
  obtain ⟨hne, hsane⟩ := page_sane (firstFree_some L m hk).1
  have hhigh : L.highMemory.ule (page k) = false := by
    rw [Bool.eq_false_iff, Ne, highMemory_ule]
    omega
  simp only [getFreePage, retry, hc, hres.1, hres.2, hhigh, hsane, if_false, Bool.false_eq_true, hne]

/-- A first pass over a full `mem_map` followed by a failing `swap_out` ends the call. -/
theorem getFreePage_fails (hk : L.firstFree m = none) (hswap : env.swapOut 0 m = none) (fuel : Nat) :
    getFreePage L env (fuel + 1) m =
      ⟨[.scan ⟨BitVec.ofNat 32 PAGING_PAGES, L.scanTop, m, m, 0⟩, .swapOut m none], some 0⟩ := by
  obtain ⟨c, hc, -, hres⟩ := execAsm_full L (env.regs 0) m
  rw [hk] at hres
  simp [getFreePage, retry, hc, hres.1, hres.2, not_highMemory_ule_zero, hswap]

/-- A first pass that claims a page at or above `HIGH_MEMORY` keeps it and goes round again. -/
theorem getFreePage_skips {k : Nat} (hk : L.firstFree m = some k)
    (hge : L.highMemory.toNat ≤ (page k).toNat) :
    getFreePage L env 1 m =
      ⟨[.scan ⟨BitVec.ofNat 32 PAGING_PAGES, L.scanTop, m, claim L m k, page k⟩], none⟩ := by
  obtain ⟨c, hc, -, hres⟩ := execAsm_full L (env.regs 0) m
  rw [hk] at hres
  have hhigh : L.highMemory.ule (page k) = true := (highMemory_ule L).mpr hge
  simp [getFreePage, retry, hc, hres.1, hres.2, hhigh]

/-- After a successful `swap_out` the second pass is entered with the count the first one ran down to. -/
theorem getFreePage_retries (hk : L.firstFree m = none) {w : Mem} (hswap : env.swapOut 0 m = some w)
    (fuel : Nat) :
    ∃ edi, getFreePage L env (fuel + 1) m =
      ⟨.scan ⟨BitVec.ofNat 32 PAGING_PAGES, L.scanTop, m, m, 0⟩ :: .swapOut m (some w) ::
        (retry L env fuel 1 1 0 edi w).events, (retry L env fuel 1 1 0 edi w).result⟩ := by
  obtain ⟨c, hc, hecx, hres⟩ := execAsm_full L (env.regs 0) m
  rw [hk] at hres
  refine ⟨c.reg .edi, ?_⟩
  simp [getFreePage, retry, hc, hecx, hres.1, hres.2, not_highMemory_ule_zero, hswap]

/-- A pass first records the scan it makes, with the operands it was entered with. -/
theorem retry_succ_events (fuel n k : Nat) (pagingPages edi : BitVec 32) :
    ∃ s es, (retry L env (fuel + 1) n k pagingPages edi m).events = .scan s :: es ∧
      s.pagingPages = pagingPages := by
  obtain ⟨c, hc⟩ := execAsm_isSome (env.regs n) pagingPages edi m
  suffices h : ∃ es, (retry L env (fuel + 1) n k pagingPages edi m).events
      = .scan ⟨pagingPages, edi, m, c.mem, c.reg .eax⟩ :: es from
    let ⟨es, he⟩ := h
    ⟨_, es, he, rfl⟩
  simp only [retry, hc]
  split_ifs
  · exact ⟨_, rfl⟩
  · split <;> exact ⟨_, rfl⟩
  · exact ⟨_, rfl⟩
  · split <;> exact ⟨_, rfl⟩
  · exact ⟨_, rfl⟩

/-- A pass entered with an exhausted count and a clear `zf` gives up as soon as `swap_out` does. -/
theorem retry_exhausted (fuel n k : Nat) (edi : BitVec 32) (hzf : (env.regs n).zf = false)
    (hswap : env.swapOut k m = none) :
    retry L env (fuel + 1) n k 0 edi m = ⟨[.scan ⟨0, edi, m, m, 0⟩, .swapOut m none], some 0⟩ := by
  obtain ⟨c, hc, heax, -, -, hmem⟩ := execAsm_empty hzf edi m
  have hc' : execAsm (env.regs n) 0#32 edi m = some c := hc
  simp [retry, hc', heax, hmem, not_highMemory_ule_zero, hswap]

theorem claim_outside (k : Nat) {x : Addr} (h1 : x ≠ L.entry k) (h2 : ¬ (x - page k).toNat < 4096) :
    claim L m k x = m x := by
  show (if _ then _ else _) = _
  rw [if_neg h2, Mem.write_ne _ _ h1]

/-! ### The two ways to settle -/

theorem contract_of_claim {k : Nat} (hk : L.firstFree m = some k)
    (hlt : (page k).toNat < L.highMemory.toNat) :
    Contract L ⟨[.scan ⟨BitVec.ofNat 32 PAGING_PAGES, L.scanTop, m, claim L m k, page k⟩],
      some (page k)⟩ where
  claimed := by
    intro p hp _
    obtain rfl : page k = p := Option.some.inj hp
    obtain ⟨hk', h0⟩ := firstFree_some L m hk
    have hlow := page_toNat hk'
    exact ⟨_, k, rfl, hk', rfl, by omega, hlt, h0, claim_count L m hk', fun i hi => claim_cleared L m k hi⟩
  untouched := by
    intro s hs x hx
    obtain rfl := Event.scan.inj (List.mem_singleton.mp hs)
    refine ⟨k, (firstFree_some L m hk).1, rfl, ?_⟩
    by_contra hout
    rw [not_or] at hout
    exact hx (claim_outside L m k hout.1 hout.2)
  exhausted := fun h0 => absurd (Option.some.inj h0) (page_sane (firstFree_some L m hk).1).1
  rescans := by
    intro i m1 m2 s h1 _
    cases i with
    | zero => exact absurd (Option.some.inj h1) (by simp)
    | succ i => exact absurd h1 (by simp)

theorem contract_of_failure (hk : L.firstFree m = none) :
    Contract L ⟨[.scan ⟨BitVec.ofNat 32 PAGING_PAGES, L.scanTop, m, m, 0⟩, .swapOut m none], some 0⟩ where
  claimed := fun p hp hne => absurd (Option.some.inj hp).symm hne
  untouched := by
    intro s hs x hx
    simp only [List.mem_cons, List.not_mem_nil, or_false] at hs
    rcases hs with hs | hs
    · obtain rfl := Event.scan.inj hs
      exact absurd rfl hx
    · cases hs
  exhausted := fun _ => ⟨[], _, rfl, firstFree_none L m hk⟩
  rescans := by
    intro i m1 m2 s h1 _
    match i with
    | 0 => exact absurd (Option.some.inj h1) (by simp)
    | 1 => exact absurd (Option.some.inj h1) (by simp)
    | i + 2 => exact absurd h1 (by simp)

theorem contract_nil : Contract L ⟨[], none⟩ where
  claimed := fun _ hp => by cases hp
  untouched := fun _ hs => by cases hs
  exhausted := fun h => by cases h
  rescans := fun _ _ _ _ h1 => by simp at h1

/-! ### The two ways to go round again -/

/-- A page at or above `HIGH_MEMORY` stays claimed although it is never returned. -/
theorem not_contract_of_skip {k : Nat} (hk : L.firstFree m = some k) :
    ¬ Contract L ⟨[.scan ⟨BitVec.ofNat 32 PAGING_PAGES, L.scanTop, m, claim L m k, page k⟩], none⟩ := by
  intro h
  obtain ⟨hk', h0⟩ := firstFree_some L m hk
  have hchg : claim L m k (L.entry k) ≠ m (L.entry k) := by
    have h1 : claim L m k (L.entry k) = 1 := claim_count L m hk'
    have h3 : m (L.entry k) = 0 := h0
    rw [h1, h3]
    decide
  obtain ⟨_, _, hres, _⟩ := h.untouched _ (List.mem_singleton.mpr rfl) _ hchg
  cases hres

/-- The pass after a successful `swap_out` scans nothing. -/
theorem not_contract_of_retry {m' : Mem} (edi : BitVec 32) (fuel : Nat) (s0 : Scan) :
    ¬ Contract L ⟨.scan s0 :: .swapOut m (some m') :: (retry L env (fuel + 1) 1 1 0 edi m').events,
      (retry L env (fuel + 1) 1 1 0 edi m').result⟩ := by
  intro h
  obtain ⟨s, es, hev, hs⟩ := retry_succ_events L env m' fuel 1 1 0 edi
  have h2 : (retry L env (fuel + 1) 1 1 0 edi m').events[0]? = some (.scan s) := by rw [hev]; rfl
  have hr := (h.rescans 1 m m' s rfl h2).1
  rw [hs] at hr
  exact absurd hr (by decide)

end FirstPass

/-- **`get_free_page` meets its contract exactly when its first pass settles the call.** -/
theorem getFreePage_contract_iff (L : Layout) (env : Env) (m : Mem) :
    (∀ fuel, Contract L (getFreePage L env fuel m)) ↔ FirstPassSettles L env m := by
  unfold FirstPassSettles
  cases hk : L.firstFree m with
  | some k =>
      constructor
      · intro h
        by_contra hge
        have h1 := h 1
        rw [getFreePage_skips L env m hk (Nat.not_lt.mp hge)] at h1
        exact not_contract_of_skip L m hk h1
      · intro hlt fuel
        cases fuel with
        | zero => exact contract_nil L
        | succ fuel =>
            rw [getFreePage_claims L env m hk hlt]
            exact contract_of_claim L m hk hlt
  | none =>
      constructor
      · intro h
        cases hswap : env.swapOut 0 m with
        | none => rfl
        | some m' =>
            obtain ⟨edi, he⟩ := getFreePage_retries L env m hk hswap 1
            have h2 := h 2
            rw [he] at h2
            exact absurd h2 (not_contract_of_retry L env m edi 0 _)
      · intro hswap fuel
        cases fuel with
        | zero => exact contract_nil L
        | succ fuel =>
            rw [getFreePage_fails L env m hk hswap]
            exact contract_of_failure L m hk

/-! ## A page freed by `swap_out` is not found -/

/-- `mem_map` at `0x20000`, sixteen megabytes of memory. -/
def smallKernel : Layout where
  memMap := 0x20000
  highMemory := 0x1000000
  memMap_pos := by decide
  memMap_end := by decide
  low_le_high := by decide

/-- Every page is in use; the first `swap_out` frees page 5 and the second fails. The condition bits are
    those of the test `if (!result && swap_out())` that has just succeeded. -/
def swapFreesFive : Env where
  regs := fun _ => ⟨fun _ => 0, false, false, false, false, fun _ => 1⟩
  swapOut := fun k m => if k = 0 then some (m.write (smallKernel.entry 5) 0) else none

/-- `get_free_page` returns 0 although `mem_map[5]` is free: the second pass examined nothing. -/
theorem getFreePage_misses_freed_page :
    ¬ Contract smallKernel (getFreePage smallKernel swapFreesFive 2 (fun _ => 1)) ∧
    (getFreePage smallKernel swapFreesFive 2 (fun _ => 1)).result = some 0 ∧
    smallKernel.count (Mem.write (fun _ => 1) (smallKernel.entry 5) 0) 5 = 0 := by
  have hfull : smallKernel.firstFree (fun _ => 1) = none := lastHit_eq_none.mpr fun _ _ => rfl
  obtain ⟨edi, he⟩ := getFreePage_retries smallKernel swapFreesFive (fun _ => 1) hfull
    (w := Mem.write (fun _ => 1) (smallKernel.entry 5) 0) rfl 1
  refine ⟨?_, ?_, Mem.write_same _ _ _⟩
  · rw [he]
    exact not_contract_of_retry smallKernel swapFreesFive _ edi 0 _
  · rw [he, retry_exhausted smallKernel swapFreesFive _ 0 1 1 edi rfl rfl]

end Mm
end Linux095
