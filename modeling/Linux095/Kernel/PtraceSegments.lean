import Linux095.Kernel.PtraceMemory
import Linux095.Mm.VerifyArea

/-!
# `Kernel.PtraceSegments` — the addresses of a traced task (`kernel/ptrace.c`)

* `Segment` — the descriptors that `fork` and `exec` make; `Segment.fork`, `Segment.exec`;
* `Segment.inside_iff` — **what the test of the limit is worth**;
* `Segment.byteAddr_eq` — where the bytes of a word are;
* `Placed`, `Placed.first` — **what is prepared is the first page of the child**, whatever the address.
-/

namespace Linux095
namespace Kernel
namespace PtraceMemory

open Mm.Vm

/-! ## Where the segments are -/

/-- The data segment of task `t`: `fork` sets the base, and `exec` the limit. -/
structure Segment (d : Desc) (t : Nat) : Prop where
  low : d.a.toNat < 0x4000
  middle : d.b &&& 0xff#32 = 0#32
  high : d.b &&& 0xff000000#32 = BitVec.ofNat 32 (t * TASK_SIZE)
  top : d.b &&& 0xf0000#32 = 0#32
  granular : d.b &&& GRANULARITY ≠ 0#32

theorem segment_init : Segment initLdt 0 :=
  ⟨by decide, by decide, by decide, by decide, by decide⟩

theorem and_or (x y m : BitVec 32) : (x ||| y) &&& m = x &&& m ||| y &&& m := by
  rw [BitVec.and_comm, BitVec.and_or_distrib_left, BitVec.and_comm m, BitVec.and_comm m]

theorem and_ffff {x : BitVec 32} (h : x.toNat < 0x10000) : x &&& 0xffff#32 = x := by
  refine BitVec.eq_of_toNat_eq ?_
  rw [BitVec.toNat_and]
  exact (Nat.and_two_pow_sub_one_eq_mod _ 16).trans (Nat.mod_eq_of_lt h)

/-- `copy_mem`, for child `t`. -/
theorem Segment.fork {d : Desc} {u t : Nat} (h : Segment d u) (ht : t < NR_TASKS) :
    Segment (d.setBase (BitVec.ofNat 32 (t * TASK_SIZE))) t := by
  have hbase : ∀ t < NR_TASKS, BitVec.ofNat 32 (t * TASK_SIZE) <<< 16 = 0#32 ∧
      (BitVec.ofNat 32 (t * TASK_SIZE) >>> 16) &&& 0xff#32 = 0#32 ∧
      BitVec.ofNat 32 (t * TASK_SIZE) &&& 0xff000000#32 = BitVec.ofNat 32 (t * TASK_SIZE) ∧
      BitVec.ofNat 32 (t * TASK_SIZE) &&& 0xff#32 = 0#32 ∧ BitVec.ofNat 32 (t * TASK_SIZE) &&& 0xf0000#32 = 0#32 ∧
      BitVec.ofNat 32 (t * TASK_SIZE) &&& GRANULARITY = 0#32 := by decide
  obtain ⟨hshift, hmid, hhigh, hlow, htop, hgran⟩ := hbase t ht
  have ha : (d.setBase (BitVec.ofNat 32 (t * TASK_SIZE))).a = d.a := by
    simp only [Desc.setBase, hshift, and_ffff (h.low.trans (by decide))]
    exact BitVec.or_zero
  -- the base has no bits but those of its highest byte
  have hb : ∀ mask, (d.setBase (BitVec.ofNat 32 (t * TASK_SIZE))).b &&& mask =
      d.b &&& (0x00ffff00#32 &&& mask) ||| BitVec.ofNat 32 (t * TASK_SIZE) &&& mask := by
    intro mask
    have hzero : ∀ x : BitVec 32, x ||| 0#32 = x := fun x => BitVec.or_zero
    simp only [Desc.setBase, hmid, hhigh, hzero, and_or, BitVec.and_assoc]
  constructor
  · rw [ha]
    exact h.low
  · rw [hb, hlow]
    simp
  · rw [hb, hhigh]
    simp
  · rw [hb, htop, ← h.top]
    simp
  · rw [hb, hgran]
    simpa [GRANULARITY] using h.granular

/-- `change_ldt`. -/
theorem Segment.exec {d : Desc} {t : Nat} (h : Segment d t) :
    Segment (d.setLimit (BitVec.ofNat 32 TASK_SIZE)) t := by
  have hlimit : ((BitVec.ofNat 32 TASK_SIZE - 1) >>> 12) = 0x3fff#32 := by decide
  have ha : d.a &&& 0xffff0000#32 = 0#32 := by
    rw [← and_ffff (h.low.trans (by decide)), BitVec.and_assoc]
    simp
  have hb : ∀ mask, (d.setLimit (BitVec.ofNat 32 TASK_SIZE)).b &&& mask = d.b &&& (0xfff0ffff#32 &&& mask) := by
    intro mask
    have hzero : ∀ x : BitVec 32, x ||| 0#32 = x := fun x => BitVec.or_zero
    simp only [Desc.setLimit, hlimit, show 0x3fff#32 &&& 0xf0000#32 = 0#32 by decide, hzero, BitVec.and_assoc]
  constructor
  · simp only [Desc.setLimit, hlimit, ha]
    decide
  · rw [hb]
    exact h.middle
  · rw [hb]
    exact h.high
  · rw [hb]
    simp
  · rw [hb]
    exact h.granular

/-! ### Addresses in them -/

section
variable {d : Desc} {t : Nat} (h : Segment d t) (ht : t < NR_TASKS)
include h

theorem Segment.base_eq : d.base = BitVec.ofNat 32 (t * TASK_SIZE) := by
  have hshift : d.a >>> 16 = 0#32 := by
    refine BitVec.eq_of_toNat_eq ?_
    rw [BitVec.toNat_ushiftRight, Nat.shiftRight_eq_div_pow]
    have := h.low
    exact Nat.div_eq_of_lt (by omega)
  rw [Desc.base, hshift, h.middle, h.high]
  simp

theorem Segment.last_eq : d.last = d.a.toNat * 4096 + 4095 := by
  have hlow := h.low
  simp only [Desc.last, h.granular, if_false, h.top, and_ffff (show d.a.toNat < 0x10000 by omega)]
  simp

theorem Segment.limit_eq : d.limit.toNat = d.a.toNat * 4096 := by
  have hlow := h.low
  simp only [Desc.limit, h.granular, if_false, and_ffff (show d.a.toNat < 0x10000 by omega)]
  rw [BitVec.toNat_shiftLeft, Nat.shiftLeft_eq]
  omega

include ht

/-- The address that `ptrace` computes is in the first page of the segment. -/
theorem Segment.address_eq : ∃ x < 64, d.address.toNat = t * TASK_SIZE + x := by
  have hlow := h.low
  have hmask : (d.a &&& 0xffff000#32).toNat ≤ d.a.toNat := by
    rw [BitVec.toNat_and]
    exact Nat.and_le_left
  have hshift : ((d.a &&& 0xffff000#32) >>> 8).toNat < 64 := by
    rw [BitVec.toNat_ushiftRight, Nat.shiftRight_eq_div_pow]
    omega
  have hbase : (BitVec.ofNat 32 (t * TASK_SIZE)).toNat = 2 ^ 26 * t := by
    rw [BitVec.toNat_ofNat]
    simp only [NR_TASKS, TASK_SIZE] at ht ⊢
    omega
  refine ⟨_, hshift, ?_⟩
  have hzero : 0#32 <<< 16 = 0#32 := by decide
  rw [Desc.address, h.middle, h.high, hzero, BitVec.or_zero, BitVec.toNat_or, hbase, Nat.or_comm,
    ← Nat.two_pow_add_eq_or_of_lt (show ((d.a &&& 0xffff000#32) >>> 8).toNat < 2 ^ 26 by omega), TASK_SIZE]
  omega

end

theorem dirIndex_eq (a : Addr) : dirIndex a = a.toNat / 2 ^ 22 := by
  rw [dirIndex, BitVec.toNat_ushiftRight, Nat.shiftRight_eq_div_pow]

theorem tableIndex_eq (a : Addr) : tableIndex a = a.toNat / 4096 % 1024 := by
  rw [tableIndex, BitVec.toNat_and, BitVec.toNat_ushiftRight, Nat.shiftRight_eq_div_pow]
  exact Nat.and_two_pow_sub_one_eq_mod _ 10

/-- Where the page tables of a task have an address of its segment. -/
theorem place_eq {a : Addr} {t x : Nat} (ha : a.toNat = t * TASK_SIZE + x) :
    dirIndex a = dirOf t (x / 4096) ∧ tableIndex a = x / 4096 % 1024 := by
  rw [dirIndex_eq, tableIndex_eq, ha, dirOf]
  simp only [TASK_SIZE, TASK_TABLES]
  omega

theorem lookup_eq (s : Paging) {a : Addr} {t x : Nat} (ha : a.toNat = t * TASK_SIZE + x) :
    lookup s a = s.at t (x / 4096) := by
  obtain ⟨hd, hi⟩ := place_eq ha
  rw [lookup, hd, hi, Paging.at]

theorem setLookup_eq (s : Paging) {a : Addr} {t x : Nat} (ha : a.toNat = t * TASK_SIZE + x)
    (e : Entry) : setLookup s a e = s.setAt t (x / 4096) e := by
  obtain ⟨hd, hi⟩ := place_eq ha
  rw [setLookup, hd, hi, Paging.setAt]

section
variable {d : Desc} {t : Nat} (h : Segment d t)
include h

/-- **What the test of the limit is worth**: it accepts the offsets below it, and those that are negative. -/
theorem Segment.inside_iff {addr : Addr} (hacc : ¬d.limit.sle (addr + 4)) :
    Inside d addr ↔ addr.toNat < 2 ^ 31 - 4 := by
  have hlow := h.low
  have hlimit := h.limit_eq
  have hlt := addr.isLt
  have hsum : (addr + 4).toNat = (addr.toNat + 4) % 2 ^ 32 := by
    rw [BitVec.toNat_add]
    rfl
  have hcond := BitVec.toInt_eq_toNat_cond d.limit
  have hcond' := BitVec.toInt_eq_toNat_cond (addr + 4)
  rw [BitVec.sle_iff_toInt_le] at hacc
  rw [Inside, h.last_eq]
  constructor
  · intro hin
    omega
  · intro hsmall
    rw [hlimit, if_pos (by omega)] at hcond
    rw [hsum, if_pos (by omega)] at hcond'
    omega

/-- A byte of the word, in the segment. -/
theorem Segment.byteAddr_eq (ht : t < NR_TASKS) {addr : Addr} (hin : Inside d addr) {k : Nat} (hk : k < 4) :
    addr.toNat + k < TASK_SIZE ∧ (byteAddr d addr k).toNat = t * TASK_SIZE + (addr.toNat + k) := by
  have hlow := h.low
  rw [Inside, h.last_eq] at hin
  have hsmall : addr.toNat + k < TASK_SIZE := by
    rw [TASK_SIZE]
    omega
  refine ⟨hsmall, ?_⟩
  rw [byteAddr, h.base_eq, BitVec.toNat_add, BitVec.toNat_add, BitVec.toNat_ofNat, BitVec.toNat_ofNat]
  simp only [NR_TASKS, TASK_SIZE] at ht hsmall ⊢
  omega

end

/-- The segment of a child, and where it has it. -/
structure Placed (p : Tracee) (t : Nat) : Prop where
  pos : t ≠ 0
  lt : t < NR_TASKS
  start : p.startCode = BitVec.ofNat 32 (t * TASK_SIZE)
  segment : Segment p.ldt t

section
variable {p : Tracee} {t : Nat} (h : Placed p t)
include h

theorem Placed.toNat_start : p.startCode.toNat = t * TASK_SIZE := by
  have hlt := h.lt
  rw [h.start, BitVec.toNat_ofNat]
  simp only [NR_TASKS, TASK_SIZE] at hlt ⊢
  omega

/-- The address of the page that is loaded. -/
theorem Placed.page_start : p.ldt.address &&& 0xfffff000#32 = p.startCode := by
  obtain ⟨x, hx, haddr⟩ := h.segment.address_eq h.lt
  refine BitVec.eq_of_toNat_eq ((Mm.VerifyArea.toNat_page_start p.ldt.address).trans ?_)
  rw [haddr, h.toNat_start, TASK_SIZE]
  omega

theorem Placed.offset_lt : ¬TASK_SIZE ≤ (p.ldt.address - p.startCode).toNat := by
  obtain ⟨x, hx, haddr⟩ := h.segment.address_eq h.lt
  have hstart := h.toNat_start
  have hle : p.startCode.toNat ≤ p.ldt.address.toNat := by omega
  rw [BitVec.toNat_sub_of_le hle, haddr, hstart, TASK_SIZE]
  omega

/-- What is prepared is the first page. -/
theorem Placed.first : dirIndex p.ldt.address = dirOf t 0 ∧ (∀ s, lookup s p.ldt.address = s.at t 0) ∧
    ∀ s e, setLookup s p.ldt.address e = s.setAt t 0 e := by
  obtain ⟨x, hx, haddr⟩ := h.segment.address_eq h.lt
  have hzero : x / 4096 = 0 := by omega
  refine ⟨?_, fun s => ?_, fun s e => ?_⟩
  · rw [(place_eq haddr).1, hzero]
  · rw [lookup_eq s haddr, hzero]
  · rw [setLookup_eq s haddr, hzero]

theorem Placed.start_first : dirIndex p.startCode = dirOf t 0 ∧
    ∀ s e, setLookup s p.startCode e = s.setAt t 0 e := by
  have hstart : p.startCode.toNat = t * TASK_SIZE + 0 := by rw [h.toNat_start, Nat.add_zero]
  refine ⟨?_, fun s e => ?_⟩
  · rw [(place_eq hstart).1, Nat.zero_div]
  · rw [setLookup_eq s hstart, Nat.zero_div]

end

end PtraceMemory
end Kernel
end Linux095
