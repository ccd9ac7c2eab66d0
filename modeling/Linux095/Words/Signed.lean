import Mathlib.Data.BitVec

/-!
# `Words.Signed` — signed arithmetic that must not overflow

The operations of a signed type of `w` bits, on integers. A result that the type does not hold is none: such an
overflow has no meaning.

* `Fits`, `fit` — what the type holds;
* `add`, `sub`, `mul`, `div`, `mod` — the operations; division rounds towards zero;
* `fit_eq_some`, `div_eq`, `mod_eq` — **they are the operations on integers where the result fits**.
-/

namespace Words
namespace Signed

/-- The type holds `x`. -/
def Fits (w : ℕ) (x : ℤ) : Prop := -2 ^ (w - 1) ≤ x ∧ x < 2 ^ (w - 1)

instance (w : ℕ) (x : ℤ) : Decidable (Fits w x) := inferInstanceAs (Decidable (_ ∧ _))

def fit (w : ℕ) (x : ℤ) : Option ℤ := if Fits w x then some x else none

def add (w : ℕ) (a b : ℤ) : Option ℤ := fit w (a + b)

def sub (w : ℕ) (a b : ℤ) : Option ℤ := fit w (a - b)

def mul (w : ℕ) (a b : ℤ) : Option ℤ := fit w (a * b)

def div (w : ℕ) (a b : ℤ) : Option ℤ := if b = 0 then none else fit w (a.tdiv b)

/-- The remainder is one only where the quotient is. -/
def mod (w : ℕ) (a b : ℤ) : Option ℤ := if b = 0 then none else (fit w (a.tdiv b)).map fun _ => a.tmod b

theorem fits_int {x : ℤ} : Fits 32 x ↔ -2147483648 ≤ x ∧ x ≤ 2147483647 := by
  simp only [Fits]
  omega

theorem fit_eq_some {w : ℕ} {x y : ℤ} : fit w x = some y ↔ Fits w x ∧ x = y := by
  unfold fit
  split_ifs with h <;> simp [h]

theorem fit_eq {w : ℕ} {x : ℤ} (h : Fits w x) : fit w x = some x :=
  fit_eq_some.mpr ⟨h, rfl⟩

/-- A computation goes on with what its first step gives. -/
theorem bind_eq {α : Type} {x : Option ℤ} {f : ℤ → Option α} {a : ℤ} {b : α} (hx : x = some a) (hf : f a = some b) :
    (x >>= f) = some b := by
  rw [hx]
  exact hf

/-- Dividing a number that is not negative. -/
theorem div_eq {w : ℕ} {a b : ℤ} (ha : 0 ≤ a) (hb : 0 < b) (hw : Fits w a) : div w a b = some (a / b) := by
  have hq : a.tdiv b = a / b := Int.tdiv_eq_ediv_of_nonneg ha
  have hle : a / b ≤ a := Int.ediv_le_self b ha
  have hge : 0 ≤ a / b := Int.ediv_nonneg ha hb.le
  have hfits : Fits w (a / b) := by
    obtain ⟨hlo, hhi⟩ := hw
    have hpow : (0 : ℤ) < 2 ^ (w - 1) := Int.pow_pos (by decide)
    exact ⟨by omega, by omega⟩
  rw [div, if_neg hb.ne', hq, fit_eq hfits]

theorem mod_eq {w : ℕ} {a b : ℤ} (ha : 0 ≤ a) (hb : 0 < b) (hw : Fits w a) : mod w a b = some (a % b) := by
  have hdiv := div_eq ha hb hw
  rw [div, if_neg hb.ne'] at hdiv
  rw [mod, if_neg hb.ne', hdiv, Option.map_some, Int.tmod_eq_emod_of_nonneg ha]

end Signed
end Words
