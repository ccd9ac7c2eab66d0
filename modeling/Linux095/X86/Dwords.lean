import Linux095.X86.Lemmas

/-!
# `X86.Dwords` — reading words back

What a word store does to the words read afterwards, wherever in the address space they are: two words are apart if no
byte belongs to both, also around the end of memory.
-/

namespace X86
namespace Mem

/-- The words at `a` and at `b` have no byte in common. -/
def Apart (a b : Addr) : Prop := 4 ≤ (b - a).toNat ∧ 4 ≤ (a - b).toNat

instance (a b : Addr) : Decidable (Apart a b) := inferInstanceAs (Decidable (_ ∧ _))

theorem Apart.symm {a b : Addr} (h : Apart a b) : Apart b a :=
  ⟨h.2, h.1⟩

/-- The next word is apart. -/
theorem apart_add {a d : Addr} (h : 4 ≤ d.toNat) (h' : d.toNat ≤ 2 ^ 32 - 4) : Apart a (a + d) := by
  have hforth : a + d - a = d := by rw [BitVec.add_comm, BitVec.add_sub_cancel]
  have hback : a - (a + d) = -d := by bv_omega
  refine ⟨by rwa [hforth], ?_⟩
  rw [hback, BitVec.toNat_neg]
  omega

@[simp] theorem read32_write32_self (m : Mem) (a : Addr) (v : BitVec 32) : (m.write32 a v).read32 a = v := by
  refine BitVec.eq_of_getLsbD_eq fun i hi => ?_
  have hbyte : (BitVec.ofNat 32 (i / 8)).toNat = i / 8 := by
    rw [BitVec.toNat_ofNat, Nat.mod_eq_of_lt (by omega)]
  rw [read32_getLsbD _ _ hi, write32_add, hbyte, if_pos (by omega), BitVec.getLsbD_extractLsb',
    show 8 * (i / 8) + i % 8 = i by omega]
  simp [Nat.mod_lt]

/-- A store does not change a word that is apart. -/
theorem read32_write32_apart (m : Mem) {a b : Addr} (v : BitVec 32) (h : Apart a b) :
    (m.write32 a v).read32 b = m.read32 b := by
  obtain ⟨hforth, hback⟩ := h
  have hout : ∀ d : Addr, d.toNat < 4 → m.write32 a v (b + d) = m (b + d) := by
    intro d hd
    refine write32_outside m v ?_
    bv_omega
  have hzero : m.write32 a v b = m b := by simpa using hout 0 (by decide)
  simp only [read32, hzero, hout 1 (by decide), hout 2 (by decide), hout 3 (by decide)]

end Mem
end X86
