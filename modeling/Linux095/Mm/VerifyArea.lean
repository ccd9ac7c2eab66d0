import Mathlib.Tactic

/-!
# `Mm.VerifyArea` — `verify_area` (`kernel/fork.c`)

`verify_area` is called with an address and a size of the user's, and calls `write_verify` for one page after the other.
The size is an `int`, to which the offset in the first page is added.

* `verifyArea` — the pages it calls `write_verify` for, as the addresses that it passes;
* `mem_verifyLoop` — which these are;
* `verify_area_iff` — **when every page of the range is among them**, and no page of it is read-only afterwards.
-/

namespace Linux095
namespace Mm
namespace VerifyArea

abbrev Addr := BitVec 32

/-- A page of the address space. -/
abbrev Page := BitVec 20

def pageOf (a : Addr) : Page := (a >>> 12).setWidth 20

/-! ## The loop -/

theorem toInt_sub_4096 {size : BitVec 32} (h : 0 < size.toInt) : (size - 4096).toInt = size.toInt - 4096 := by
  have hlt := BitVec.toInt_lt (x := size)
  have h4096 : (4096 : BitVec 32).toInt = 4096 := by decide
  rw [BitVec.toInt_sub, h4096]
  exact Int.bmod_eq_of_le_mul_two (by omega) (by omega)

/-- "while (size>0)": the arguments of `write_verify`. -/
def verifyLoop (start : Addr) (size : BitVec 32) : List Addr :=
  if 0 < size.toInt then start :: verifyLoop (start + 4096) (size - 4096) else []
termination_by size.toInt.toNat
decreasing_by
  rw [toInt_sub_4096 (by assumption)]
  omega

/-- **`verify_area`**, where `base` is `get_base(current->ldt[2])`. -/
def verifyArea (base addr : Addr) (size : BitVec 32) : List Addr :=
  verifyLoop ((addr &&& 0xfffff000) + base) (size + (addr &&& 0xfff))

/-- The loop goes from page to page until the size is used up. -/
theorem mem_verifyLoop (start a : Addr) (size : BitVec 32) :
    a ∈ verifyLoop start size ↔ ∃ i : ℕ, (4096 * i : ℤ) < size.toInt ∧ a = start + BitVec.ofNat 32 (4096 * i) := by
  fun_induction verifyLoop start size with
  | case1 start size hpos ih =>
      rw [List.mem_cons, ih, toInt_sub_4096 hpos]
      constructor
      · rintro (rfl | ⟨i, hi, rfl⟩)
        · exact ⟨0, by simpa using hpos, by simp⟩
        · refine ⟨i + 1, by push_cast; omega, ?_⟩
          rw [Nat.mul_succ, BitVec.ofNat_add, BitVec.add_comm (BitVec.ofNat 32 (4096 * i)), ← BitVec.add_assoc]
          rfl
      · rintro ⟨i, hi, rfl⟩
        cases i with
        | zero => exact Or.inl (by simp)
        | succ i =>
            refine Or.inr ⟨i, by push_cast at hi; omega, ?_⟩
            rw [Nat.mul_succ, BitVec.ofNat_add, BitVec.add_comm (BitVec.ofNat 32 (4096 * i)), ← BitVec.add_assoc]
            rfl
  | case2 start size hneg =>
      constructor
      · intro h
        cases h
      · rintro ⟨i, hi, -⟩
        omega

/-! ## The pages of a range -/

section Pages

variable (base addr size : BitVec 32)

theorem toNat_pageOf (a : Addr) : (pageOf a).toNat = a.toNat / 4096 := by
  have hlt := a.isLt
  unfold pageOf
  rw [BitVec.toNat_setWidth, BitVec.toNat_ushiftRight, Nat.shiftRight_eq_div_pow]
  omega

theorem toNat_page_start : (addr &&& 0xfffff000).toNat = addr.toNat / 4096 * 4096 := by
  have hmask : ∀ i < 32, (0xfffff000 : BitVec 32).getLsbD i = decide (12 ≤ i) := by decide
  have hshift : addr &&& (0xfffff000 : BitVec 32) = (addr >>> 12) <<< 12 := by
    apply BitVec.eq_of_getLsbD_eq
    intro i hi
    rw [BitVec.getLsbD_and, hmask i hi, BitVec.getLsbD_shiftLeft, BitVec.getLsbD_ushiftRight]
    by_cases h12 : 12 ≤ i
    · simp [h12, hi, show ¬ i < 12 by omega]
    · simp [h12, show i < 12 by omega]
  have hlt := addr.isLt
  rw [hshift, BitVec.toNat_shiftLeft, BitVec.toNat_ushiftRight, Nat.shiftRight_eq_div_pow, Nat.shiftLeft_eq]
  omega

theorem toNat_page_offset : (addr &&& 0xfff).toNat = addr.toNat % 4096 := by
  rw [BitVec.toNat_and]
  exact Nat.and_two_pow_sub_one_eq_mod _ 12

/-- The `i`-th page that is passed, and the page of byte `k`. -/
theorem page_eq_iff (i k : ℕ) :
    pageOf ((addr &&& 0xfffff000) + base + BitVec.ofNat 32 (4096 * i)) = pageOf (base + addr + BitVec.ofNat 32 k) ↔
      i % 2 ^ 20 = (addr.toNat % 4096 + base.toNat % 4096 + k) / 4096 % 2 ^ 20 := by
  have hdiv : ∀ x : ℕ, x % 2 ^ 32 / 4096 = x / 4096 % 2 ^ 20 := fun x => Nat.mod_mul_right_div_self x 4096 (2 ^ 20)
  have hpassed : (addr.toNat / 4096 * 4096 + base.toNat + 4096 * i) / 4096 =
      addr.toNat / 4096 + base.toNat / 4096 + i := by omega
  have hbyte : (base.toNat + addr.toNat + k) / 4096 =
      addr.toNat / 4096 + base.toNat / 4096 + (addr.toNat % 4096 + base.toNat % 4096 + k) / 4096 := by omega
  rw [BitVec.toNat_eq, toNat_pageOf, toNat_pageOf, BitVec.toNat_add, BitVec.toNat_add, BitVec.toNat_add,
    BitVec.toNat_add, BitVec.toNat_ofNat, BitVec.toNat_ofNat, toNat_page_start, ← Nat.add_mod, ← Nat.add_mod, hdiv,
    hdiv, hpassed, hbyte]
  generalize addr.toNat / 4096 + base.toNat / 4096 = x
  generalize (addr.toNat % 4096 + base.toNat % 4096 + k) / 4096 = m
  omega

/-- The size as the loop has it: too large a sum is negative. -/
theorem toInt_size (h : 0 < size.toInt) : (size + (addr &&& 0xfff)).toInt =
    if addr.toNat % 4096 + size.toNat < 2 ^ 31 then (addr.toNat % 4096 + size.toNat : ℤ)
    else addr.toNat % 4096 + size.toNat - 2 ^ 32 := by
  have hoff := toNat_page_offset addr
  have hlt := size.isLt
  have hcond := BitVec.toInt_eq_toNat_cond size
  have hsum : (size + (addr &&& 0xfff)).toNat = addr.toNat % 4096 + size.toNat := by
    rw [BitVec.toNat_add, hoff]
    split at hcond <;> omega
  rw [BitVec.toInt_eq_toNat_cond, hsum]
  split at hcond <;> split <;> split <;> omega

theorem toNat_of_pos {size : BitVec 32} (h : 0 < size.toInt) : 0 < size.toNat ∧ size.toNat < 2 ^ 31 := by
  have hlt := size.isLt
  have hcond := BitVec.toInt_eq_toNat_cond size
  split at hcond <;> omega

end Pages

/-! ## When every page is covered -/

/-- `write_verify` is called for the page of every byte of the range. -/
def Covers (base addr : Addr) (size : BitVec 32) : Prop :=
  ∀ k < size.toNat, ∃ a ∈ verifyArea base addr size, pageOf a = pageOf (base + addr + BitVec.ofNat 32 k)

/-- **The condition**: the sum of the size and the offset is an `int`; and the segment begins at a page, or so that the
    last byte of the range is in no other page for it. -/
def Fits (base addr : Addr) (size : BitVec 32) : Prop :=
  addr.toNat % 4096 + size.toNat < 2 ^ 31 ∧
    (addr.toNat % 4096 + size.toNat - 1) % 4096 + base.toNat % 4096 < 4096

theorem covers_iff {base addr : Addr} {size : BitVec 32} (h : 0 < size.toInt) :
    Covers base addr size ↔ Fits base addr size := by
  have hsize := toInt_size addr size h
  obtain ⟨hpos, hlt⟩ := toNat_of_pos h
  unfold Covers Fits verifyArea
  constructor
  · intro hcovers
    have hfits : addr.toNat % 4096 + size.toNat < 2 ^ 31 := by
      -- else the loop ends before its first turn
      by_contra hlarge
      rw [if_neg hlarge] at hsize
      obtain ⟨a, ha, -⟩ := hcovers 0 hpos
      obtain ⟨i, hi, -⟩ := (mem_verifyLoop _ _ _).1 ha
      omega
    rw [if_pos hfits] at hsize
    obtain ⟨a, ha, hpage⟩ := hcovers (size.toNat - 1) (by omega)
    obtain ⟨i, hi, rfl⟩ := (mem_verifyLoop _ _ _).1 ha
    rw [page_eq_iff] at hpage
    rw [hsize] at hi
    omega
  · rintro ⟨hfits, hlast⟩ k hk
    rw [if_pos hfits] at hsize
    refine ⟨_, (mem_verifyLoop _ _ _).2 ⟨(addr.toNat % 4096 + base.toNat % 4096 + k) / 4096, ?_, rfl⟩, ?_⟩
    · rw [hsize]
      omega
    · rw [page_eq_iff]

/-! ## What `write_verify` leaves -/

/-- The page directory, of which only the first bit of each entry is looked at, and the entries of the page tables. -/
structure Tables where
  dir : BitVec 10 → Bool
  entry : Page → BitVec 32

/-- A page is there, and read-only. -/
def Tables.ReadOnly (t : Tables) (p : Page) : Prop :=
  t.dir ((p >>> 10).setWidth 10) = true ∧ t.entry p &&& 3 = 1

/-- What `un_wp_page` makes of an entry. `alone` is "mem_map[MAP_NR(old_page)]==1", and `new` the page that it copies
    to. A page beyond the memory ends the task, and is left out. -/
def unWpPage (alone : Bool) (new e : BitVec 32) : BitVec 32 :=
  if alone then e ||| 2 else (new &&& 0xfffff000) ||| (e &&& 0x40) ||| 7

/-- `write_verify`. -/
def writeVerify (env : Addr → Bool × BitVec 32) (t : Tables) (a : Addr) : Tables :=
  if t.dir ((pageOf a >>> 10).setWidth 10) then
    if t.entry (pageOf a) &&& 3 = 1 then
      { t with
        entry := Function.update t.entry (pageOf a) (unWpPage (env a).1 (env a).2 (t.entry (pageOf a))) }
    else t
  else t

theorem unWpPage_writable (alone : Bool) (new e : BitVec 32) : unWpPage alone new e &&& 3 ≠ 1 := by
  intro h
  have hbit := congrArg (fun x => BitVec.getLsbD x 1) h
  unfold unWpPage at hbit
  cases alone <;> simp at hbit

/-- **A page that `write_verify` was called for is not read-only, and no other page becomes so.** -/
theorem readOnly_writeVerify {env : Addr → Bool × BitVec 32} {t : Tables} {a : Addr} {p : Page}
    (h : (writeVerify env t a).ReadOnly p) : t.ReadOnly p ∧ pageOf a ≠ p := by
  unfold writeVerify at h
  split at h
  · next hdir =>
      split at h
      · next hentry =>
          obtain ⟨hd, he⟩ := h
          by_cases hp : p = pageOf a
          · subst hp
            dsimp only at he
            rw [Function.update_self] at he
            exact absurd he (unWpPage_writable _ _ _)
          · dsimp only at he
            rw [Function.update_of_ne hp] at he
            exact ⟨⟨hd, he⟩, Ne.symm hp⟩
      · next hentry =>
          refine ⟨h, ?_⟩
          rintro rfl
          exact hentry h.2
  · next hdir =>
      refine ⟨h, ?_⟩
      rintro rfl
      exact hdir h.1

theorem readOnly_foldl {env : Addr → Bool × BitVec 32} {as : List Addr} {t : Tables} {p : Page}
    (h : (as.foldl (writeVerify env) t).ReadOnly p) : t.ReadOnly p ∧ ∀ a ∈ as, pageOf a ≠ p := by
  induction as generalizing t with
  | nil => exact ⟨h, by simp⟩
  | cons a as ih =>
      obtain ⟨hthen, hall⟩ := ih h
      obtain ⟨hfirst, hne⟩ := readOnly_writeVerify hthen
      refine ⟨hfirst, ?_⟩
      intro b hb
      rcases List.mem_cons.1 hb with rfl | hb
      · exact hne
      · exact hall b hb

/-- **`verify_area` covers its range exactly under the condition, and then no page of it is left read-only.** -/
theorem verify_area_iff {base addr : Addr} {size : BitVec 32} (h : 0 < size.toInt) :
    (Covers base addr size ↔ Fits base addr size) ∧
      (Fits base addr size → ∀ env t, ∀ k < size.toNat,
        ¬ ((verifyArea base addr size).foldl (writeVerify env) t).ReadOnly
          (pageOf (base + addr + BitVec.ofNat 32 k))) := by
  refine ⟨covers_iff h, ?_⟩
  intro hfits env t k hk hread
  obtain ⟨a, ha, hpage⟩ := (covers_iff h).2 hfits k hk
  exact (readOnly_foldl hread).2 a ha hpage

/-- Two bytes in two pages. -/
theorem verify_area_iff_two : 0 < (2 : BitVec 32).toInt ∧ Covers 0x4000000 0x1fff 2 :=
  ⟨by decide, (verify_area_iff (by decide)).1.2 ⟨by decide, by decide⟩⟩

/-- **The largest size is not verified at all**, from any address but that of a page. -/
theorem largest_not_covered : 0 < (0x7fffffff : BitVec 32).toInt ∧ ¬ Covers 0x4000000 1 0x7fffffff := by
  refine ⟨by decide, ?_⟩
  intro hcovers
  obtain ⟨a, ha, -⟩ := hcovers 0 (by decide)
  obtain ⟨i, hi, -⟩ := (mem_verifyLoop _ _ _).1 ha
  have hsize : ((0x7fffffff : BitVec 32) + (1 &&& 0xfff)).toInt = -(2 ^ 31) := by decide
  omega

end VerifyArea
end Mm
end Linux095
