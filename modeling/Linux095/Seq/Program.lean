/-!
# `Seq.Program` — programs that run by themselves

A program takes a state to a value and a state, or stops for good. What is left out is sleeping, for which there is
`Coop.Thread`.

* `Prog` — programs; `halt`, `reads`, `modify`, and what each of them does before the rest (`reads_bind`, `bind_ok`);
* `Ends` — **what a program ends with, and why it may stop**, and the rules to show it by.
-/

namespace Seq

/-- Programs with states in `σ`, which end with a value in `α` or stop with a reason in `ε`. -/
abbrev Prog (σ ε α : Type) : Type := StateT σ (Except ε) α

namespace Prog

variable {σ ε α β : Type}

/-- Stops for good. -/
def halt (e : ε) : Prog σ ε α := fun _ => .error e

def reads (f : σ → α) : Prog σ ε α := fun s => .ok (f s, s)

def modify (f : σ → σ) : Prog σ ε Unit := fun s => .ok ((), f s)

section

variable {s s' : σ}

theorem pure_run (a : α) : (Pure.pure a : Prog σ ε α) s = .ok (a, s) := rfl

theorem reads_bind (f : σ → α) (k : α → Prog σ ε β) : (reads f >>= k) s = k (f s) s := rfl

theorem modify_bind (f : σ → σ) (k : Unit → Prog σ ε β) : (modify f >>= k) s = k () (f s) := rfl

theorem bind_ok {m : Prog σ ε α} {a : α} (h : m s = .ok (a, s')) (k : α → Prog σ ε β) : (m >>= k) s = k a s' := by
  have hbind : (m >>= k) s = Except.bind (m s) fun p => k p.1 p.2 := rfl
  rw [hbind, h]
  rfl

theorem bind_error {m : Prog σ ε α} {e : ε} (h : m s = .error e) (k : α → Prog σ ε β) :
    (m >>= k) s = .error e := by
  have hbind : (m >>= k) s = Except.bind (m s) fun p => k p.1 p.2 := rfl
  rw [hbind, h]
  rfl

end

/-- From `s` on the program ends as `Q` says, or stops for a reason that `E` allows. -/
def Ends (m : Prog σ ε α) (s : σ) (E : ε → Prop) (Q : α → σ → Prop) : Prop :=
  match m s with
  | .ok (a, s') => Q a s'
  | .error e => E e

namespace Ends

variable {m : Prog σ ε α} {f : α → Prog σ ε β} {s : σ} {E : ε → Prop} {Q Q' : α → σ → Prop} {R : β → σ → Prop}

theorem ok_of (h : Ends m s E Q) {a : α} {s' : σ} (hm : m s = .ok (a, s')) : Q a s' := by
  unfold Ends at h
  rw [hm] at h
  exact h

theorem error_of (h : Ends m s E Q) {e : ε} (hm : m s = .error e) : E e := by
  unfold Ends at h
  rw [hm] at h
  exact h

theorem of (hok : ∀ a s', m s = .ok (a, s') → Q a s') (herror : ∀ e, m s = .error e → E e) : Ends m s E Q := by
  unfold Ends
  cases hm : m s with
  | ok p => exact hok p.1 p.2 hm
  | error e => exact herror e hm

theorem mono (h : Ends m s E Q) (hQ : ∀ a s', Q a s' → Q' a s') : Ends m s E Q' :=
  .of (fun a s' hm => hQ a s' (h.ok_of hm)) fun _ hm => h.error_of hm

theorem weaken {E' : ε → Prop} (h : Ends m s E Q) (hE : ∀ e, E e → E' e) (hQ : ∀ a s', Q a s' → Q' a s') :
    Ends m s E' Q' :=
  .of (fun a s' hm => hQ a s' (h.ok_of hm)) fun e hm => hE e (h.error_of hm)

/-- Nothing is said of how the program ends. -/
theorem anyhow : Ends m s (fun _ => True) fun _ _ => True := .of (fun _ _ _ => trivial) fun _ _ => trivial

/-- What the program ends with is what it ends with. -/
theorem run : Ends m s (fun _ => True) fun a s' => m s = .ok (a, s') := .of (fun _ _ hm => hm) fun _ _ => trivial

theorem pure {a : α} {Q : α → σ → Prop} (h : Q a s) : Ends (Pure.pure a : Prog σ ε α) s E Q := h

theorem halt {e : ε} (h : E e) : Ends (halt e : Prog σ ε α) s E Q := h

theorem reads {f : σ → α} (h : Q (f s) s) : Ends (reads f : Prog σ ε α) s E Q := h

theorem modify {f : σ → σ} {Q : Unit → σ → Prop} (h : Q () (f s)) : Ends (modify f : Prog σ ε Unit) s E Q := h

theorem bind (h : Ends m s E fun a s' => Ends (f a) s' E R) : Ends (m >>= f) s E R := by
  have hbind : (m >>= f) s = Except.bind (m s) fun p => f p.1 p.2 := rfl
  unfold Ends
  rw [hbind]
  cases hm : m s with
  | ok p => exact h.ok_of hm
  | error e => exact h.error_of hm

/-- The rule for a call whose result is described by a lemma of its own. -/
theorem then_ (h : Ends m s E Q) (hf : ∀ a s', Q a s' → Ends (f a) s' E R) : Ends (m >>= f) s E R :=
  .bind (h.mono hf)

end Ends

end Prog

end Seq
