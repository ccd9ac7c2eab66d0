import Linux095.Seq.Program

/-!
# `Seq.Relate` — two runs of one program

A program that looks only at what two states have in common does the same in both.

* `Alike` — from states related by `R` a program ends alike: with the same value and states related by `Q`, or for the
  same reason;
* the rules to show it by, one for each way to build a program.
-/

namespace Seq

variable {σ ε α β : Type}

/-- Two ways to end are alike. -/
def EndAlike (Q : σ → σ → Prop) : Except ε (α × σ) → Except ε (α × σ) → Prop
  | .ok p, .ok q => p.1 = q.1 ∧ Q p.2 q.2
  | .error e, .error e' => e = e'
  | _, _ => False

/-- **What the states do not share makes no difference.** -/
def Alike (R Q : σ → σ → Prop) (m : Prog σ ε α) : Prop := ∀ s s', R s s' → EndAlike Q (m s) (m s')

namespace Alike

variable {R R' Q Q' : σ → σ → Prop} {m n : Prog σ ε α}

theorem weaken (h : Alike R Q m) (hR : ∀ s s', R' s s' → R s s') : Alike R' Q m :=
  fun s s' hs => h s s' (hR s s' hs)

theorem pure (a : α) : Alike R R (Pure.pure a : Prog σ ε α) := fun _ _ h => ⟨rfl, h⟩

theorem halt (e : ε) : Alike R Q (Prog.halt e : Prog σ ε α) := fun _ _ _ => rfl

theorem modify {f : σ → σ} (h : ∀ s s', R s s' → Q (f s) (f s')) : Alike R Q (Prog.modify f : Prog σ ε Unit) :=
  fun s s' hs => ⟨rfl, h s s' hs⟩

theorem bind {f : α → Prog σ ε β} (hm : Alike R Q m) (hf : ∀ a, Alike Q Q' (f a)) : Alike R Q' (m >>= f) := by
  intro s s' hs
  have h := hm s s' hs
  have hrun : ∀ t, (m >>= f) t = Except.bind (m t) fun p => f p.1 p.2 := fun _ => rfl
  rw [hrun s, hrun s']
  cases hl : m s with
  | error e =>
    cases hr : m s' with
    | error e' =>
      rw [hl, hr] at h
      exact h
    | ok q => exact absurd (by rw [hl, hr] at h; exact h) not_false
  | ok p =>
    cases hr : m s' with
    | error e' => exact absurd (by rw [hl, hr] at h; exact h) not_false
    | ok q =>
      rw [hl, hr] at h
      obtain ⟨hvalue, hstate⟩ : p.1 = q.1 ∧ Q p.2 q.2 := h
      have hnext := hf p.1 p.2 q.2 hstate
      rw [hvalue] at hnext
      simpa only [Except.bind, hvalue] using hnext

/-- A look at what the states share, of which the rest of the program may make use. -/
theorem look {f : σ → α} {k : α → Prog σ ε β} (h : ∀ s s', R s s' → f s = f s')
    (hk : ∀ a, Alike (fun s s' => R s s' ∧ f s = a) Q (k a)) : Alike R Q (Prog.reads f >>= k) := by
  intro s s' hs
  rw [Prog.reads_bind, Prog.reads_bind, ← h s s' hs]
  exact hk (f s) s s' ⟨hs, rfl⟩

theorem reads_bind {f : σ → α} {k : α → Prog σ ε β} (h : ∀ s s', R s s' → f s = f s') (hk : ∀ a, Alike R Q (k a)) :
    Alike R Q (Prog.reads f >>= k) := .look h fun a => (hk a).weaken fun _ _ => And.left

theorem modify_bind {f : σ → σ} {k : Unit → Prog σ ε β} (h : ∀ s s', R s s' → R (f s) (f s'))
    (hk : Alike R Q (k ())) : Alike R Q (Prog.modify f >>= k) := .bind (.modify h) fun _ => hk

theorem split {c : Prop} [Decidable c] (hm : c → Alike R Q m) (hn : ¬ c → Alike R Q n) :
    Alike R Q (if c then m else n) := by
  by_cases h : c
  · rw [if_pos h]
    exact hm h
  · rw [if_neg h]
    exact hn h

theorem ite {c : Prop} [Decidable c] (hm : Alike R Q m) (hn : Alike R Q n) : Alike R Q (if c then m else n) :=
  .split (fun _ => hm) fun _ => hn

end Alike

end Seq
