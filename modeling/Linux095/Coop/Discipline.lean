import Linux095.Coop.Thread
import Mathlib.Logic.Function.Basic

/-!
# `Coop.Discipline` — what each thread of a pool may count on

`Thread.Ok` forgets everything at every action. Here a thread knows the state it has the processor in, knows while it
sleeps what the others may do, and has a **ledger**: a value that only its own actions change, and that the invariant
may speak about.

* `Discipline` — the invariant of state and ledgers, what a thread relies on, and what it promises;
* `Safe` — a thread keeps the discipline from here on; a rule for each kind of action;
* `Server`, `Pool` — processes that call threads, one after the other;
* `Server.run` — **if every call is safe, every run of the pool keeps the discipline.**
-/

namespace Coop
open Relation

/-- What the threads of a pool keep, rely on and promise. -/
structure Discipline (σ R : Type) where
  inv : σ → (Nat → R) → Prop
  /-- The actions that are taken into account. -/
  fits : σ → σ → Prop
  irq : σ → σ → Prop
  /-- What others may do while a thread sleeps. -/
  rely : Nat → σ → σ → Prop
  /-- What an action of a thread may do. -/
  guar : Nat → σ → σ → Prop
  inv_irq : ∀ s s' g, irq s s' → inv s g → inv s' g
  rely_refl : ∀ p s, rely p s s
  rely_trans : ∀ p s s' s'', rely p s s' → rely p s' s'' → rely p s s''
  rely_irq : ∀ p s s', irq s s' → rely p s s'
  guar_refl : ∀ p s, guar p s s
  guar_rely : ∀ p q s s', guar q s s' → p ≠ q → rely p s s'

namespace Discipline

variable {σ R α β : Type} (D : Discipline σ R)

/-- Nothing but interrupts. -/
def Calm : σ → σ → Prop := ReflTransGen D.irq

theorem rely_calm {p : Nat} {s s' : σ} (h : D.Calm s s') : D.rely p s s' := by
  induction h with
  | refl => exact D.rely_refl p s
  | tail _ hirq ih => exact D.rely_trans p _ _ _ ih (D.rely_irq p _ _ hirq)

/-- The thread `p`, with the ledger `r` and the processor in the state `s`, keeps the discipline. On the way its
ledger stays in `W`, and when it is done `Q` holds of the result, the ledger and the state. -/
def Safe (p : Nat) (W : R → Prop) (Q : α → R → σ → Prop) : Thread σ α → R → σ → Prop
  | .ret a, r, s => Q a r s
  | .act f k, r, s => ∀ s' g, D.Calm s s' → D.inv s' g → g p = r → W r → D.fits s' (f s') →
      ∃ r', W r' ∧ D.inv (f s') (Function.update g p r') ∧ D.guar p s' (f s') ∧ Safe p W Q (k s') r' (f s')
  | .sleep w t, r, s => ∀ s', D.rely p s s' → w s' = true → Safe p W Q t r s'
  | .choose k, r, s => ∀ x, Safe p W Q (k x) r s
  | .stop, _, _ => True
  | .fault, _, _ => False

end Discipline

namespace Safe
open Discipline

variable {σ R α β : Type} {D : Discipline σ R} {p : Nat} {W : R → Prop} {Q : α → R → σ → Prop}
  {Q' : β → R → σ → Prop} {r : R} {s : σ}

theorem mono {Q' : α → R → σ → Prop} {t : Thread σ α} (h : D.Safe p W Q t r s) (hQ : ∀ a r s, Q a r s → Q' a r s) :
    D.Safe p W Q' t r s := by
  induction t generalizing r s with
  | ret a => exact hQ a r s h
  | act f k ih =>
      intro s' g hcalm hinv hg hW hfits
      obtain ⟨r', hW', hinv', hguar, hrest⟩ := h s' g hcalm hinv hg hW hfits
      exact ⟨r', hW', hinv', hguar, ih s' hrest⟩
  | sleep w t ih => exact fun s' hrely hw => ih (h s' hrely hw)
  | choose k ih => exact fun x => ih x (h x)
  | stop => trivial
  | fault => exact h

theorem bind {t : Thread σ α} {k : α → Thread σ β} (h : D.Safe p W Q t r s)
    (hk : ∀ a r s, Q a r s → D.Safe p W Q' (k a) r s) : D.Safe p W Q' (t >>= k) r s := by
  induction t generalizing r s with
  | ret a => exact hk a r s h
  | act f g ih =>
      intro s' ledger hcalm hinv hg hW hfits
      obtain ⟨r', hW', hinv', hguar, hrest⟩ := h s' ledger hcalm hinv hg hW hfits
      exact ⟨r', hW', hinv', hguar, ih s' hrest⟩
  | sleep w t ih => exact fun s' hrely hw => ih (h s' hrely hw)
  | choose g ih => exact fun x => ih x (h x)
  | stop => trivial
  | fault => exact h.elim

theorem pure {a : α} (h : Q a r s) : D.Safe p W Q (Pure.pure a) r s := h

theorem stop : D.Safe p W Q .stop r s := trivial

/-- The ledger of a thread that changes nothing stays. -/
theorem update_self {g : Nat → R} (hg : g p = r) : Function.update g p r = g := by
  rw [← hg]
  exact Function.update_eq_self p g

theorem reads {γ : Type} {f : σ → γ} {k : γ → Thread σ α}
    (h : ∀ s' g, D.Calm s s' → D.inv s' g → g p = r → D.Safe p W Q (k (f s')) r s') :
    D.Safe p W Q (Thread.reads f >>= k) r s := by
  intro s' g hcalm hinv hg hW _
  refine ⟨r, hW, ?_, D.guar_refl p s', h s' g hcalm hinv hg⟩
  rw [update_self hg]
  exact hinv

theorem modify {f : σ → σ} {Q : Unit → R → σ → Prop}
    (h : ∀ s' g, D.Calm s s' → D.inv s' g → g p = r → W r → D.fits s' (f s') →
      ∃ r', W r' ∧ D.inv (f s') (Function.update g p r') ∧ D.guar p s' (f s') ∧ Q () r' (f s')) :
    D.Safe p W Q (Thread.modify f) r s := h

theorem attempt {f : σ → Option σ} {Q : Unit → R → σ → Prop}
    (h : ∀ s' g, D.Calm s s' → D.inv s' g → g p = r → W r → ∃ s'', f s' = some s'' ∧
      (D.fits s' s'' → ∃ r', W r' ∧ D.inv s'' (Function.update g p r') ∧ D.guar p s' s'' ∧ Q () r' s'')) :
    D.Safe p W Q (Thread.attempt f) r s := by
  intro s' g hcalm hinv hg hW hfits
  obtain ⟨s'', hf, hrest⟩ := h s' g hcalm hinv hg hW
  simp only [hf, Option.getD_some, Option.isSome_some, if_true] at hfits ⊢
  exact hrest hfits

/-- The test `c` fails, or `f` is done at once. -/
theorem when {c : σ → Bool} {f : σ → Option σ} {Q : Bool → R → σ → Prop}
    (hfalse : ∀ s' g, D.Calm s s' → D.inv s' g → g p = r → c s' = false → Q false r s')
    (htrue : ∀ s' g, D.Calm s s' → D.inv s' g → g p = r → W r → c s' = true → ∃ s'', f s' = some s'' ∧
      (D.fits s' s'' → ∃ r', W r' ∧ D.inv s'' (Function.update g p r') ∧ D.guar p s' s'' ∧ Q true r' s'')) :
    D.Safe p W Q (Thread.when c f) r s := by
  intro s' g hcalm hinv hg hW hfits
  cases hc : c s' with
  | false =>
      simp only [hc, Bool.false_eq_true, if_false]
      refine ⟨r, hW, ?_, D.guar_refl p s', hfalse s' g hcalm hinv hg hc⟩
      rw [update_self hg]
      exact hinv
  | true =>
      obtain ⟨s'', hf, hrest⟩ := htrue s' g hcalm hinv hg hW hc
      simp only [hc, hf, if_true, Option.getD_some, Option.isSome_some] at hfits ⊢
      exact hrest hfits

/-- `f` is done at once, and gives a result. -/
theorem atomic {f : σ → Option (α × σ)}
    (h : ∀ s' g, D.Calm s s' → D.inv s' g → g p = r → W r → ∃ x s'', f s' = some (x, s'') ∧
      (D.fits s' s'' → ∃ r', W r' ∧ D.inv s'' (Function.update g p r') ∧ D.guar p s' s'' ∧ Q x r' s'')) :
    D.Safe p W Q (Thread.atomic f) r s := by
  intro s' g hcalm hinv hg hW hfits
  obtain ⟨x, s'', hf, hrest⟩ := h s' g hcalm hinv hg hW
  simp only [hf, Option.map_some, Option.getD_some] at hfits ⊢
  exact hrest hfits

theorem await {w : σ → Bool} {Q : Unit → R → σ → Prop} (h : ∀ s', D.rely p s s' → w s' = true → Q () r s') :
    D.Safe p W Q (Thread.await w) r s := by
  intro s' g hcalm hinv hg hW _
  refine ⟨r, hW, ?_, D.guar_refl p s', ?_⟩
  · show D.inv s' _
    rw [update_self hg]
    exact hinv
  · show D.Safe p W Q (if w s' = true then .ret () else .sleep w (.ret ())) r s'
    split
    · rename_i hw
      exact h s' (D.rely_calm hcalm) hw
    · exact fun s'' hrely hw => h s'' (D.rely_trans p _ _ _ (D.rely_calm hcalm) hrely) hw

theorem doze {Q : Unit → R → σ → Prop} (h : ∀ s', D.rely p s s' → Q () r s') :
    D.Safe p W Q Thread.doze r s := fun s' hrely _ => h s' hrely

theorem any {ι : Type} {Q : ι → R → σ → Prop} (h : ∀ x, Q x r s) : D.Safe p W Q (Thread.any ι) r s := h

theorem deref {a : Option α} {k : α → Thread σ β} (h : ∃ x, a = some x ∧ D.Safe p W Q' (k x) r s) :
    D.Safe p W Q' (Thread.deref a >>= k) r s := by
  obtain ⟨x, rfl, hx⟩ := h
  exact hx

end Safe

/-! ## Runs of one thread -/

namespace Thread

variable {σ α β : Type}

theorem alone_bind (t : Thread σ α) (k : α → Thread σ β) (s : σ) :
    (t >>= k).alone s = (t.alone s).bind fun x => (k x.1).alone x.2 := by
  induction t generalizing s with
  | ret a => rfl
  | act f g ih => exact ih s (f s)
  | sleep w t ih =>
      show (if w s = true then (t >>= k).alone s else none) = (if w s = true then t.alone s else none).bind _
      split
      · exact ih s
      · rfl
  | choose g ih => rfl
  | stop => rfl
  | fault => rfl

@[simp] theorem alone_reads (f : σ → α) (s : σ) : (reads f).alone s = some (f s, s) := rfl

@[simp] theorem alone_modify (f : σ → σ) (s : σ) : (modify f).alone s = some ((), f s) := rfl

@[simp] theorem alone_pure (a : α) (s : σ) :
    (Pure.pure a : Thread σ α).alone s = some (a, s) := rfl

theorem alone_await {w : σ → Bool} {s : σ} (h : w s = true) :
    (await w).alone s = some ((), s) := by
  show (if w s then ret () else .sleep w (.ret ())).alone s = _
  rw [if_pos h]
  rfl

theorem alone_attempt {f : σ → Option σ} {s s' : σ} (h : f s = some s') :
    (attempt f).alone s = some ((), s') := by
  show (if (f s).isSome then ret () else .fault).alone ((f s).getD s) = _
  rw [h]
  rfl

end Thread

namespace Thread

variable {σ α β : Type}

/-- Each action of a run that nothing disturbs is one that `ok` admits. -/
def Visits (ok : σ → σ → Prop) : Thread σ α → σ → Prop
  | act f k, s => ok s (f s) ∧ (k s).Visits ok (f s)
  | sleep w p, s => w s = true → p.Visits ok s
  | _, _ => True

variable {ok : σ → σ → Prop}

theorem visits_any (t : Thread σ α) (s : σ) : t.Visits (fun _ _ => True) s := by
  induction t generalizing s with
  | act f k ih => exact ⟨trivial, ih s (f s)⟩
  | sleep w t ih => exact fun _ => ih s
  | _ => trivial

end Thread

/-! ## Processes -/

/-- A process has `x` and does nothing, or it had `x` and has called `c`. -/
inductive Proc (σ X C A : Type) where
  | idle (x : X)
  | busy (c : C) (x : X) (t : Thread σ A)

/-- What processes may call. -/
structure Server (σ R X C A : Type) extends Discipline σ R where
  thread : Nat → C → Thread σ A
  /-- The ledger of an idle process that has `x`. -/
  rest : X → R → Prop
  /-- When `p` may make a call. -/
  pre : Nat → C → X → σ → Prop
  /-- What the process has after a call. -/
  after : C → A → X → X
  /-- The ledgers during a call. -/
  within : C → X → R → Prop
  /-- What holds when a call returns. -/
  post : Nat → C → A → σ → Prop

/-- The shared state, the processes, and the one that has the processor. -/
structure Pool (σ X C A : Type) where
  state : σ
  proc : Nat → Proc σ X C A
  cpu : Option Nat

namespace Server

variable {σ R X C A : Type} (S : Server σ R X C A)

/-- What a call leads to. -/
def Ends (p : Nat) (c : C) (x : X) (a : A) (r : R) (s : σ) : Prop := S.rest (S.after c a x) r ∧ S.post p c a s

/-- Every call keeps the discipline. -/
def Sound : Prop := ∀ p c x r s, S.pre p c x s → S.rest x r →
  S.within c x r ∧ S.Safe p (S.within c x) (S.Ends p c x) (S.thread p c) r s

/-- A step of the pool, with the actions that `ok` admits. -/
inductive Step (ok : σ → σ → Prop) : Pool σ X C A → Pool σ X C A → Prop
  | irq {s s' proc cpu} (h : S.irq s s') : Step ok ⟨s, proc, cpu⟩ ⟨s', proc, cpu⟩
  | schedule {s proc p x} (h : proc p = .idle x) : Step ok ⟨s, proc, none⟩ ⟨s, proc, some p⟩
  | yield {s proc p x} (h : proc p = .idle x) : Step ok ⟨s, proc, some p⟩ ⟨s, proc, none⟩
  | call {s proc p x} (c : C) (h : proc p = .idle x) (hc : S.pre p c x s) :
      Step ok ⟨s, proc, some p⟩ ⟨s, Function.update proc p (.busy c x (S.thread p c)), some p⟩
  | act {s proc p c x f k} (h : proc p = .busy c x (.act f k)) (hok : ok s (f s)) :
      Step ok ⟨s, proc, some p⟩ ⟨f s, Function.update proc p (.busy c x (k s)), some p⟩
  | choose {s proc p c x} {ι : Type} {k : ι → Thread σ A} (y : ι) (h : proc p = .busy c x (.choose k)) :
      Step ok ⟨s, proc, some p⟩ ⟨s, Function.update proc p (.busy c x (k y)), some p⟩
  | sleep {s proc p c x w t} (h : proc p = .busy c x (.sleep w t)) :
      Step ok ⟨s, proc, some p⟩ ⟨s, proc, none⟩
  | wake {s proc p c x w t} (h : proc p = .busy c x (.sleep w t)) (hw : w s = true) :
      Step ok ⟨s, proc, none⟩ ⟨s, Function.update proc p (.busy c x t), some p⟩
  | ret {s proc p c x a} (h : proc p = .busy c x (.ret a)) :
      Step ok ⟨s, proc, some p⟩ ⟨s, Function.update proc p (.idle (S.after c a x)), some p⟩

/-- Any number of steps. -/
def Reaches (ok : σ → σ → Prop) : Pool σ X C A → Pool σ X C A → Prop := ReflTransGen (S.Step ok)

/-- The process `p` with the ledger `r` is where it should be. -/
def ProcOk (s : σ) (cpu : Option Nat) (p : Nat) (r : R) : Proc σ X C A → Prop
  | .idle x => S.rest x r
  | .busy c x t => S.within c x r ∧ ∃ s₀,
      (cpu = some p ∧ S.Calm s₀ s ∨ cpu ≠ some p ∧ S.rely p s₀ s ∧ ∃ w t', t = .sleep w t') ∧
        S.Safe p (S.within c x) (S.Ends p c x) t r s₀

/-- **The discipline is kept**, with the ledgers `g`. -/
structure PoolOk (c : Pool σ X C A) (g : Nat → R) : Prop where
  inv : S.inv c.state g
  proc : ∀ p, S.ProcOk c.state c.cpu p (g p) (c.proc p)

namespace PoolOk

variable {S} {s : σ} {proc : Nat → Proc σ X C A} {p : Nat} {cpu cpu' : Option Nat} {g : Nat → R} {c : C} {x : X}

/-- Nobody notices that the processor goes from one to the other, who is not sleeping. -/
theorem procOk_other {q : Nat} {r : R} {proc : Proc σ X C A} (h : S.ProcOk s cpu q r proc) (hcpu : cpu ≠ some q)
    (hcpu' : cpu' ≠ some q) {s' : σ} (hs : S.rely q s s') : S.ProcOk s' cpu' q r proc := by
  cases proc with
  | idle x => exact h
  | busy c x t =>
      obtain ⟨hw, s₀, ⟨hrun, -⟩ | ⟨-, hrely, hsleep⟩, hsafe⟩ := h
      · exact absurd hrun hcpu
      · exact ⟨hw, s₀, .inr ⟨hcpu', S.rely_trans q _ _ _ hrely hs, hsleep⟩, hsafe⟩

/-- What `p`, which runs, knows. -/
theorem running {t : Thread σ A} (h : S.PoolOk ⟨s, proc, some p⟩ g) (hp : proc p = .busy c x t) :
    S.within c x (g p) ∧ ∃ s₀, S.Calm s₀ s ∧ S.Safe p (S.within c x) (S.Ends p c x) t (g p) s₀ := by
  have hproc := h.proc p
  simp only [hp] at hproc
  obtain ⟨hw, s₀, ⟨-, hcalm⟩ | ⟨hrun, -⟩, hsafe⟩ := hproc
  · exact ⟨hw, s₀, hcalm, hsafe⟩
  · exact absurd rfl hrun

/-- `p`, which runs, goes on in the state `s'`. -/
theorem goOn (h : S.PoolOk ⟨s, proc, some p⟩ g) {s' : σ} {r : R} {proc' : Proc σ X C A}
    (hinv : S.inv s' (Function.update g p r)) (hothers : ∀ q, q ≠ p → S.rely q s s')
    (hp : S.ProcOk s' (some p) p r proc') :
    S.PoolOk ⟨s', Function.update proc p proc', some p⟩ (Function.update g p r) := by
  refine ⟨hinv, fun q => ?_⟩
  by_cases hq : q = p
  · subst hq
    simpa using hp
  · have hne : some p ≠ some q := fun he => hq (Option.some.inj he).symm
    simpa [Function.update_of_ne hq] using procOk_other (h.proc q) hne hne (hothers q hq)

theorem procOk_irq {q : Nat} {r : R} {proc : Proc σ X C A} (h : S.ProcOk s cpu q r proc) {s' : σ}
    (hs : S.irq s s') : S.ProcOk s' cpu q r proc := by
  cases proc with
  | idle x => exact h
  | busy c x t =>
      obtain ⟨hw, s₀, hwhere, hsafe⟩ := h
      refine ⟨hw, s₀, hwhere.imp ?_ ?_, hsafe⟩
      · exact fun ⟨hrun, hcalm⟩ => ⟨hrun, hcalm.tail hs⟩
      · exact fun ⟨hrun, hrely, hsleep⟩ => ⟨hrun, S.rely_trans q _ _ _ hrely (S.rely_irq q _ _ hs), hsleep⟩

/-- An idle process takes the processor, or leaves it. -/
theorem dispatch (h : S.PoolOk ⟨s, proc, cpu⟩ g) (hp : proc p = .idle x)
    (hcpu : ∀ q, cpu = some q ∨ cpu' = some q → q = p) : S.PoolOk ⟨s, proc, cpu'⟩ g := by
  refine ⟨h.inv, fun q => ?_⟩
  by_cases hq : q = p
  · subst hq
    have hproc := h.proc q
    simp only [hp] at hproc ⊢
    exact hproc
  · exact procOk_other (h.proc q) (fun he => hq (hcpu q (.inl he))) (fun he => hq (hcpu q (.inr he)))
      (S.rely_refl q s)

/-- **One step.** -/
theorem step (hS : S.Sound) {c c' : Pool σ X C A} (h : S.PoolOk c g) (hs : S.Step S.fits c c') :
    ∃ g', S.PoolOk c' g' := by
  cases hs with
  | irq hirq => exact ⟨g, S.inv_irq _ _ g hirq h.inv, fun q => procOk_irq (h.proc q) hirq⟩
  | schedule hp => exact ⟨g, h.dispatch hp fun q hq => by simpa [eq_comm] using hq⟩
  | yield hp => exact ⟨g, h.dispatch hp fun q hq => by simpa [eq_comm] using hq⟩
  | @call s proc p x c hp hpre =>
      have hproc := h.proc p
      simp only [hp] at hproc
      obtain ⟨hw, hsafe⟩ := hS p c x (g p) s hpre hproc
      refine ⟨_, h.goOn (r := g p) ?_ (fun q _ => S.rely_refl q s) ⟨hw, s, .inl ⟨rfl, .refl⟩, hsafe⟩⟩
      rw [Safe.update_self rfl]
      exact h.inv
  | act hp hok =>
      obtain ⟨hw, s₀, hcalm, hsafe⟩ := h.running hp
      obtain ⟨r', hw', hinv, hguar, hrest⟩ := hsafe _ g hcalm h.inv rfl hw hok
      exact ⟨_, h.goOn hinv (fun q hq => S.guar_rely q _ _ _ hguar hq) ⟨hw', _, .inl ⟨rfl, .refl⟩, hrest⟩⟩
  | @choose s proc p c x ι k y hp =>
      obtain ⟨hw, s₀, hcalm, hsafe⟩ := h.running hp
      refine ⟨_, h.goOn (r := g p) ?_ (fun q _ => S.rely_refl q s) ⟨hw, s₀, .inl ⟨rfl, hcalm⟩, hsafe y⟩⟩
      rw [Safe.update_self rfl]
      exact h.inv
  | @sleep s proc p c x w t hp =>
      obtain ⟨hw, s₀, hcalm, hsafe⟩ := h.running hp
      refine ⟨g, h.inv, fun q => ?_⟩
      by_cases hq : q = p
      · subst hq
        simp only [hp]
        exact ⟨hw, s₀, .inr ⟨by simp, S.rely_calm hcalm, w, t, rfl⟩, hsafe⟩
      · exact procOk_other (h.proc q) (fun he => hq (Option.some.inj he).symm) (by simp) (S.rely_refl q s)
  | @wake s proc p c x w t hp hwake =>
      have hproc := h.proc p
      simp only [hp] at hproc
      obtain ⟨hw, s₀, ⟨hrun, -⟩ | ⟨-, hrely, -⟩, hsafe⟩ := hproc
      · cases hrun
      · refine ⟨g, h.inv, fun q => ?_⟩
        by_cases hq : q = p
        · subst hq
          simp only [Function.update_self]
          exact ⟨hw, s, .inl ⟨rfl, .refl⟩, hsafe s hrely hwake⟩
        · simp only [Function.update_of_ne hq]
          exact procOk_other (h.proc q) (by simp) (fun he => hq (Option.some.inj he).symm) (S.rely_refl q s)
  | @ret s proc p c x a hp =>
      obtain ⟨-, s₀, -, hl, -⟩ := h.running hp
      refine ⟨_, h.goOn (r := g p) ?_ (fun q _ => S.rely_refl q s) hl⟩
      rw [Safe.update_self rfl]
      exact h.inv

end PoolOk

variable {S}

/-- Nothing has been called. -/
theorem PoolOk.start {s : σ} {g : Nat → R} {x : Nat → X} (h : S.inv s g) (hx : ∀ p, S.rest (x p) (g p)) :
    S.PoolOk ⟨s, fun p => .idle (x p), none⟩ g := ⟨h, hx⟩

/-- **Every run keeps the discipline.** -/
theorem run (hS : S.Sound) {s : σ} {g : Nat → R} {x : Nat → X} (h : S.inv s g) (hx : ∀ p, S.rest (x p) (g p))
    {c : Pool σ X C A} (hr : S.Reaches S.fits ⟨s, fun p => .idle (x p), none⟩ c) : ∃ g', S.PoolOk c g' := by
  induction hr with
  | refl => exact ⟨g, .start h hx⟩
  | tail _ hs ih =>
      obtain ⟨g', h'⟩ := ih
      exact h'.step hS hs

/-- A step other than an interrupt does to the state what some process promises. -/
theorem PoolOk.guar {c c' : Pool σ X C A} {g : Nat → R} (h : S.PoolOk c g) (hs : S.Step S.fits c c') :
    S.irq c.state c'.state ∨ ∃ p, S.guar p c.state c'.state := by
  cases hs with
  | irq hirq => exact .inl hirq
  | act hp hok =>
      obtain ⟨hw, s₀, hcalm, hsafe⟩ := h.running hp
      obtain ⟨-, -, -, hguar, -⟩ := hsafe _ g hcalm h.inv rfl hw hok
      exact .inr ⟨_, hguar⟩
  | _ => exact .inr ⟨0, S.guar_refl 0 _⟩

/-- A call that nothing disturbs, by actions that are admitted. -/
theorem reaches_visits {ok : σ → σ → Prop} {proc : Nat → Proc σ X C A} {p : Nat} {c : C} {x : X} {t : Thread σ A}
    {s s' : σ} {a : A} (h : t.alone s = some (a, s')) (hok : t.Visits ok s) :
    S.Reaches ok ⟨s, Function.update proc p (.busy c x t), some p⟩
      ⟨s', Function.update proc p (.busy c x (.ret a)), some p⟩ := by
  induction t generalizing s with
  | ret b =>
      cases h
      exact .refl
  | act f k ih =>
      refine .head ?_ (ih s h hok.2)
      have hstep : S.Step ok ⟨s, _, some p⟩ _ :=
        .act (Function.update_self p (.busy c x (.act f k)) proc) hok.1
      rw [Function.update_idem] at hstep
      exact hstep
  | sleep w t ih =>
      unfold Thread.alone at h
      split at h
      · rename_i hw
        refine .head (.sleep (Function.update_self _ _ _)) (.head ?_ (ih h (hok hw)))
        have hstep : S.Step ok ⟨s, _, none⟩ _ :=
          .wake (Function.update_self p (.busy c x (.sleep w t)) proc) hw
        rw [Function.update_idem] at hstep
        exact hstep
      · cases h
  | _ => cases h

/-- A call that nothing disturbs. -/
theorem reaches_alone {proc : Nat → Proc σ X C A} {p : Nat} {c : C} {x : X} {t : Thread σ A} {s s' : σ} {a : A}
    (h : t.alone s = some (a, s')) :
    S.Reaches (fun _ _ => True) ⟨s, Function.update proc p (.busy c x t), some p⟩
      ⟨s', Function.update proc p (.busy c x (.ret a)), some p⟩ :=
  reaches_visits h (t.visits_any s)

end Server
end Coop
