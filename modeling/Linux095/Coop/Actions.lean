import Linux095.Coop.Discipline

/-!
# `Coop.Actions` — what every action of a thread does, and whether a thread ends

A `Discipline` asks that a thread never fails, and knows its ledger. For an invariant that each action keeps by itself
less is enough.

* `Acts` — every action of a thread does what a relation says, whatever the state;
* `Server.reaches_inv` — **an invariant that such actions keep, as far as they are admitted, holds in every run**;
* `Server.reaches_call` — a call that nothing disturbs, as a run of the pool;
* `Ends` — a thread comes to its end, whatever others do meanwhile, as long as it is woken.
-/

namespace Coop
open Relation

namespace Thread

variable {σ α β : Type}

/-! ## Actions -/

/-- Each action takes a state to one that it is related to. -/
def Acts (P : σ → σ → Prop) : Thread σ α → Prop
  | act f k => ∀ s, P s (f s) ∧ (k s).Acts P
  | sleep _ t => t.Acts P
  | choose k => ∀ x, (k x).Acts P
  | _ => True

section Acts

variable {P : σ → σ → Prop}

theorem Acts.pure {a : α} : (Pure.pure a : Thread σ α).Acts P := trivial

theorem Acts.stop : (Thread.stop : Thread σ α).Acts P := trivial

theorem Acts.fault : (Thread.fault : Thread σ α).Acts P := trivial

theorem Acts.bind {t : Thread σ α} {k : α → Thread σ β} (ht : t.Acts P) (hk : ∀ a, (k a).Acts P) :
    (t >>= k).Acts P := by
  induction t with
  | ret a => exact hk a
  | act f g ih => exact fun s => ⟨(ht s).1, ih s (ht s).2⟩
  | sleep w t ih => exact ih ht
  | choose g ih => exact fun x => ih x (ht x)
  | stop => trivial
  | fault => trivial

theorem Acts.reads {f : σ → α} (h : ∀ s, P s s) : (Thread.reads f).Acts P := fun s => ⟨h s, trivial⟩

theorem Acts.modify {f : σ → σ} (h : ∀ s, P s (f s)) : (Thread.modify f).Acts P := fun s => ⟨h s, trivial⟩

theorem Acts.await {w : σ → Bool} (h : ∀ s, P s s) : (Thread.await w).Acts P := by
  intro s
  refine ⟨h s, ?_⟩
  dsimp only
  split
  · trivial
  · trivial

theorem Acts.when {c : σ → Bool} {f : σ → Option σ} (h : ∀ s, P s s) (hf : ∀ s s', f s = some s' → P s s') :
    (Thread.when c f).Acts P := by
  intro s
  constructor
  · dsimp only
    split
    · cases hs : f s with
      | none => exact h s
      | some s' => exact hf s s' hs
    · exact h s
  · dsimp only
    split
    · split
      · trivial
      · trivial
    · trivial

theorem Acts.doze : (Thread.doze : Thread σ Unit).Acts P := trivial

theorem Acts.any {ι : Type} : (Thread.any ι : Thread σ ι).Acts P := fun _ => trivial

end Acts

/-! ## Ends -/

/-- The thread comes to its end with `Q`, if others do what `env` says between its actions and while it sleeps, and it
is woken. -/
def Ends (env : σ → σ → Prop) (Q : α → σ → Prop) : Thread σ α → σ → Prop
  | ret a, s => Q a s
  | act f k, s => ∀ s', env s s' → (k s').Ends env Q (f s')
  | sleep w t, s => ∀ s', env s s' → w s' = true → t.Ends env Q s'
  | choose k, s => ∀ x, (k x).Ends env Q s
  | stop, _ => False
  | fault, _ => False

section Ends

variable {env : σ → σ → Prop} {Q : α → σ → Prop} {Q' : β → σ → Prop} {s : σ}

theorem Ends.bind {t : Thread σ α} {k : α → Thread σ β} (ht : t.Ends env Q s)
    (hk : ∀ a s, Q a s → (k a).Ends env Q' s) : (t >>= k).Ends env Q' s := by
  induction t generalizing s with
  | ret a => exact hk a s ht
  | act f g ih => exact fun s' henv => ih s' (ht s' henv)
  | sleep w t ih => exact fun s' henv hw => ih (ht s' henv hw)
  | choose g ih => exact fun x => ih x (ht x)
  | stop => exact ht
  | fault => exact ht

theorem Ends.reads {f : σ → α} (h : ∀ s', env s s' → Q (f s') s') : (Thread.reads f).Ends env Q s := h

theorem Ends.modify {f : σ → σ} {Q : Unit → σ → Prop} (h : ∀ s', env s s' → Q () (f s')) :
    (Thread.modify f).Ends env Q s := h

theorem Ends.doze {Q : Unit → σ → Prop} (h : ∀ s', env s s' → Q () s') : Thread.doze.Ends env Q s :=
  fun s' henv _ => h s' henv

theorem Ends.await {w : σ → Bool} {Q : Unit → σ → Prop} (htrans : ∀ s s' s'', env s s' → env s' s'' → env s s'')
    (h : ∀ s', env s s' → w s' = true → Q () s') : (Thread.await w).Ends env Q s := by
  intro s' henv
  show (if w s' = true then Thread.ret () else Thread.sleep w (Thread.ret ()) : Thread σ Unit).Ends env Q s'
  split
  · rename_i hw
    exact h s' henv hw
  · exact fun s'' henv' hw => h s'' (htrans s s' s'' henv henv') hw

/-- What is left of a thread that ends, after a part of it that nothing has disturbed. -/
theorem Ends.rest {t : Thread σ α} {k : α → Thread σ β} (h : (t >>= k).Ends env Q' s) (hrefl : ∀ s, env s s)
    {a : α} {s' : σ} (halone : t.alone s = some (a, s')) : (k a).Ends env Q' s' := by
  induction t generalizing s with
  | ret b =>
      cases halone
      exact h
  | act f g ih => exact ih s (h s (hrefl s)) halone
  | sleep w t ih =>
      unfold Thread.alone at halone
      split at halone
      · rename_i hw
        exact ih (h s (hrefl s) hw) halone
      · cases halone
  | _ => cases halone

end Ends

theorem alone_when {c : σ → Bool} {f : σ → Option σ} {s s' : σ} (hc : c s = true) (hf : f s = some s') :
    (when c f).alone s = some (true, s') := by
  show (if c s then (if (f s).isSome then ret true else .fault) else ret false : Thread σ Bool).alone
    (if c s then (f s).getD s else s) = _
  rw [if_pos hc, if_pos hc, hf]
  rfl

end Thread

/-! ## Runs of a pool -/

namespace Server

variable {σ R X C A : Type} (S : Server σ R X C A)

/-- Each thread that has been called acts as it should. -/
def Acting (P : σ → σ → Prop) (proc : Nat → Proc σ X C A) : Prop :=
  ∀ p c x t, proc p = .busy c x t → t.Acts P

variable {S} {P ok : σ → σ → Prop} {I : σ → Prop}

theorem Acting.update {proc : Nat → Proc σ X C A} {p : Nat} {q : Proc σ X C A} (h : Acting P proc)
    (hq : ∀ c x t, q = .busy c x t → t.Acts P) : Acting P (Function.update proc p q) := by
  intro p' c x t hp'
  by_cases hpp : p' = p
  · subst hpp
    rw [Function.update_self] at hp'
    exact hq c x t hp'
  · rw [Function.update_of_ne hpp] at hp'
    exact h p' c x t hp'

/-- One step. -/
theorem Acting.step {c c' : Pool σ X C A} (h : Acting P c.proc) (hthread : ∀ p c, (S.thread p c).Acts P)
    (hirq : ∀ s s', S.irq s s' → I s → I s') (hact : ∀ s s', I s → P s s' → ok s s' → I s') (hI : I c.state)
    (hs : S.Step ok c c') : I c'.state ∧ Acting P c'.proc := by
  cases hs with
  | irq hirq' => exact ⟨hirq _ _ hirq' hI, h⟩
  | schedule _ => exact ⟨hI, h⟩
  | yield _ => exact ⟨hI, h⟩
  | @call s proc p x c hp hc =>
      refine ⟨hI, h.update ?_⟩
      rintro _ _ _ ⟨⟩
      exact hthread p c
  | act hp hok =>
      have hacts := h _ _ _ _ hp
      refine ⟨hact _ _ hI (hacts _).1 hok, h.update ?_⟩
      rintro _ _ _ ⟨⟩
      exact (hacts _).2
  | choose y hp =>
      have hacts := h _ _ _ _ hp
      refine ⟨hI, h.update ?_⟩
      rintro _ _ _ ⟨⟩
      exact hacts y
  | sleep _ => exact ⟨hI, h⟩
  | wake hp _ =>
      have hacts := h _ _ _ _ hp
      refine ⟨hI, h.update ?_⟩
      rintro _ _ _ ⟨⟩
      exact hacts
  | ret _ =>
      refine ⟨hI, h.update ?_⟩
      rintro _ _ _ ⟨⟩

/-- **The invariant holds in every run of admitted actions.** -/
theorem reaches_inv (hthread : ∀ p c, (S.thread p c).Acts P) (hirq : ∀ s s', S.irq s s' → I s → I s')
    (hact : ∀ s s', I s → P s s' → ok s s' → I s') {s : σ} {x : Nat → X} (hI : I s) {c : Pool σ X C A}
    (hr : S.Reaches ok ⟨s, fun p => .idle (x p), none⟩ c) : I c.state := by
  have hboth : I c.state ∧ Acting P c.proc := by
    induction hr with
    | refl => exact ⟨hI, nofun⟩
    | tail _ hs ih => exact ih.2.step hthread hirq hact ih.1 hs
  exact hboth.1

/-- A process makes a call that nothing disturbs, and then gives the processor away. -/
theorem reaches_call {x : Nat → X} {p : Nat} (c : C) {s s' : σ} {a : A} (hpre : S.pre p c (x p) s)
    (h : (S.thread p c).alone s = some (a, s')) :
    S.Reaches (fun _ _ => True) ⟨s, fun q => .idle (x q), none⟩
      ⟨s', fun q => .idle (Function.update x p (S.after c a (x p)) q), none⟩ := by
  have hdone : (fun q => Proc.idle (Function.update x p (S.after c a (x p)) q)) =
      Function.update (fun q => (Proc.idle (x q) : Proc σ X C A)) p (.idle (S.after c a (x p))) := by
    funext q
    by_cases hq : q = p
    · subst hq
      simp
    · simp [Function.update_of_ne hq]
  apply ReflTransGen.head (.schedule (p := p) rfl)
  apply ReflTransGen.head (.call c rfl hpre)
  refine (reaches_alone h).trans ?_
  apply ReflTransGen.head (.ret (Function.update_self _ _ _))
  rw [hdone, Function.update_idem]
  exact .single (.yield (Function.update_self _ _ _))

end Server

end Coop
