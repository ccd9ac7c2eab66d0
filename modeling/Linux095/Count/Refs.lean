import Mathlib.Data.Set.Card

/-!
# `Count.Refs` — reference counts

Places of a type `L` each refer to at most one object of a type `F`, and a counter is kept for each object.

* `refs` — the places that refer to an object;
* `Counted` — the counters of the objects `M` are the numbers of their references;
* `Counted.gain`, `Counted.lose`, `Counted.move` — a counter goes up and down with a place;
* `Counted.zero`, `Counted.one` — what the counters 0 and 1 say about the places.
-/

namespace Linux095
namespace Count

variable {L F : Type}

/-- The places that refer to `f`. -/
def refs (p : L → Option F) (f : F) : Set L := {l | p l = some f}

/-- **Reference counts.** -/
structure Counted (M : F → Prop) (p : L → Option F) (c : F → Nat) : Prop where
  finite : ∀ f, M f → (refs p f).Finite
  count : ∀ f, M f → c f = (refs p f).ncard

section
variable {M : F → Prop} {p : L → Option F} {c : F → Nat} {f : F}

theorem Counted.pos (h : Counted M p c) (hf : M f) {l : L} (hl : p l = some f) : 0 < c f := by
  rw [h.count f hf]
  exact (Set.ncard_pos (h.finite f hf)).mpr ⟨l, hl⟩

/-- Nothing refers to an object with the counter 0. -/
theorem Counted.zero (h : Counted M p c) (hf : M f) (hc : c f = 0) (l : L) : p l ≠ some f := by
  intro hl
  have := h.pos hf hl
  omega

/-- One place refers to an object with the counter 1. -/
theorem Counted.one (h : Counted M p c) (hf : M f) (hc : c f = 1) {l l' : L} (hl : p l = some f)
    (hl' : p l' = some f) : l = l' := by
  rw [h.count f hf, Set.ncard_eq_one] at hc
  obtain ⟨a, ha⟩ := hc
  have hl : l ∈ refs p f := hl
  have hl' : l' ∈ refs p f := hl'
  rw [ha, Set.mem_singleton_iff] at hl hl'
  rw [hl, hl']

/-- A counter is bounded where its places are. -/
theorem Counted.le {K : Type} (h : Counted M p c) (hf : M f) {t : Finset K} (k : L → K)
    (hk : ∀ l, p l = some f → k l ∈ t) (hinj : ∀ l l', p l = some f → p l' = some f → k l = k l' → l = l') :
    c f ≤ t.card := by
  rw [h.count f hf, ← Set.ncard_coe_finset t]
  exact Set.ncard_le_ncard_of_injOn k hk (fun l hl l' hl' he => hinj l l' hl hl' he) t.finite_toSet

/-- Only the counters of `M` matter, and only what the places refer to among them. -/
theorem Counted.congr {p' : L → Option F} {c' : F → Nat} (h : Counted M p c)
    (hp : ∀ l f, M f → (p' l = some f ↔ p l = some f)) (hc : ∀ f, M f → c' f = c f) : Counted M p' c' := by
  have hrefs : ∀ f, M f → refs p' f = refs p f := fun f hf => Set.ext fun l => hp l f hf
  refine ⟨fun f hf => ?_, fun f hf => ?_⟩
  · rw [hrefs f hf]
    exact h.finite f hf
  · rw [hrefs f hf, hc f hf]
    exact h.count f hf

variable [DecidableEq L] [DecidableEq F]

/-- A place begins to refer to `f`. -/
theorem Counted.gain (h : Counted M p c) {l : L} (hl : ∀ g, M g → p l ≠ some g) :
    Counted M (Function.update p l (some f)) (Function.update c f (c f + 1)) := by
  have hself : ∀ g, M g → g = f → refs (Function.update p l (some f)) g = insert l (refs p g) := by
    rintro g - rfl
    ext x
    by_cases hx : x = l
    · subst hx
      simp [refs]
    · simp [refs, hx]
  have hne : ∀ g, M g → g ≠ f → refs (Function.update p l (some f)) g = refs p g := by
    intro g hg hgf
    ext x
    by_cases hx : x = l
    · subst hx
      simp [refs, hl g hg, Ne.symm hgf]
    · simp [refs, Function.update_of_ne hx]
  refine ⟨fun g hg => ?_, fun g hg => ?_⟩
  · by_cases hgf : g = f
    · rw [hself g hg hgf]
      exact (h.finite g hg).insert l
    · rw [hne g hg hgf]
      exact h.finite g hg
  · by_cases hgf : g = f
    · have hnot : l ∉ refs p g := hl g hg
      rw [hself g hg hgf, Set.ncard_insert_of_notMem hnot (h.finite g hg), ← h.count g hg, hgf, Function.update_self]
    · rw [hne g hg hgf, Function.update_of_ne hgf]
      exact h.count g hg

/-- A place stops referring to `f`. -/
theorem Counted.lose (h : Counted M p c) {l : L} (hl : p l = some f) :
    Counted M (Function.update p l none) (Function.update c f (c f - 1)) := by
  have hself : ∀ g, M g → g = f → refs (Function.update p l none) g = refs p g \ {l} := by
    rintro g - rfl
    ext x
    by_cases hx : x = l
    · subst hx
      simp [refs]
    · simp [refs, hx]
  have hne : ∀ g, M g → g ≠ f → refs (Function.update p l none) g = refs p g := by
    intro g hg hgf
    ext x
    by_cases hx : x = l
    · subst hx
      simp [refs, hl, Ne.symm hgf]
    · simp [refs, Function.update_of_ne hx]
  refine ⟨fun g hg => ?_, fun g hg => ?_⟩
  · by_cases hgf : g = f
    · rw [hself g hg hgf]
      exact (h.finite g hg).sdiff
    · rw [hne g hg hgf]
      exact h.finite g hg
  · by_cases hgf : g = f
    · subst hgf
      have hmem : l ∈ refs p g := hl
      rw [hself g hg rfl, Set.ncard_sdiff_singleton_of_mem hmem, ← h.count g hg, Function.update_self]
    · rw [hne g hg hgf, Function.update_of_ne hgf]
      exact h.count g hg

/-- A place passes its reference on to another. -/
theorem Counted.move (h : Counted M p c) {l l' : L} (hl : p l = some f) (hl' : ∀ g, M g → p l' ≠ some g)
    (hf : M f) : Counted M (Function.update (Function.update p l none) l' (some f)) c := by
  have hne : l' ≠ l := by
    rintro rfl
    exact hl' f hf hl
  have hlose := h.lose hl
  have hgain := hlose.gain (f := f) (l := l') fun g hg => by
    rw [Function.update_of_ne hne]
    exact hl' g hg
  have hpos := h.pos hf hl
  refine hgain.congr (fun _ _ _ => Iff.rfl) fun g _ => ?_
  by_cases hg : g = f
  · subst hg
    simp only [Function.update_self]
    omega
  · rw [Function.update_of_ne hg, Function.update_of_ne hg]

end

end Count
end Linux095
