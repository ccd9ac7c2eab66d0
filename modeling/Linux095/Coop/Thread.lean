import Mathlib

/-!
# `Coop.Thread` — cooperatively scheduled threads over a shared state

A thread is a tree of atomic actions on a shared state. It keeps the processor until it sleeps: only
interrupts may run between two of its actions, and other threads only while it sleeps. That is the execution
model of a uniprocessor kernel without preemption.

* `Thread` and its monad — programs are written in `do`-notation, one action per source step;
* `Step` / `Reaches` — any number of threads interleaved at their sleeping points, interrupted anywhere;
* `Thread.Ok` — every action of a thread preserves an invariant, with a postcondition on its result;
* `reaches_inv` — if every thread of a pool is `Ok` and interrupts preserve the invariant, it holds in every
  state the pool reaches, between any two actions.

Loops without a bound take fuel and `stop` when it runs out; a safety property proved for all amounts of fuel
covers every finite run of the loop.
-/

namespace Coop

/-- A thread over the shared state `σ`, returning an `α`. -/
inductive Thread (σ : Type) (α : Type) : Type 1 where
  /-- The thread is done. -/
  | ret (a : α)
  /-- One atomic action: the state `s` becomes `f s` and the thread goes on as `k s`. -/
  | act (f : σ → σ) (k : σ → Thread σ α)
  /-- Give up the processor until a moment at which `wake` holds. -/
  | sleep (wake : σ → Bool) (k : Thread σ α)
  /-- Go on with any value of `ι`: a choice made outside the model. -/
  | choose {ι : Type} (k : ι → Thread σ α)
  /-- The thread goes no further: the machine has panicked, or the fuel of a loop has run out. -/
  | stop
  /-- A null or dangling pointer was followed. -/
  | fault

namespace Thread

variable {σ α β : Type}

def bind : Thread σ α → (α → Thread σ β) → Thread σ β
  | ret a, k => k a
  | act f g, k => act f fun s => (g s).bind k
  | sleep w p, k => sleep w (p.bind k)
  | choose g, k => choose fun x => (g x).bind k
  | stop, _ => stop
  | fault, _ => fault

instance : Monad (Thread σ) where
  pure := ret
  bind := bind

/-- Read `f` of the state. -/
def reads (f : σ → α) : Thread σ α := act id fun s => ret (f s)

/-- Change the state. -/
def modify (f : σ → σ) : Thread σ Unit := act f fun _ => ret ()

/-- Change the state by `f`, which fails where it follows a null pointer. -/
def attempt (f : σ → Option σ) : Thread σ Unit :=
  act (fun s => (f s).getD s) fun s => if (f s).isSome then ret () else fault

/-- Test `c` and, where it holds, change the state by `f` before anything else can happen. -/
def when (c : σ → Bool) (f : σ → Option σ) : Thread σ Bool :=
  act (fun s => if c s then (f s).getD s else s) fun s =>
    if c s then (if (f s).isSome then ret true else fault) else ret false

/-- Change the state by `f` and take its result, in one action. -/
def atomic (f : σ → Option (α × σ)) : Thread σ α :=
  act (fun s => ((f s).map (·.2)).getD s) fun s =>
    match f s with
    | some r => ret r.1
    | none => fault

/-- `while (!wake) sleep_on(..)`: no other thread runs when `wake` already holds. -/
def await (wake : σ → Bool) : Thread σ Unit :=
  act id fun s => if wake s then ret () else sleep wake (ret ())

/-- Sleep once and be woken at any later moment. -/
def doze : Thread σ Unit := sleep (fun _ => true) (ret ())

/-- Any value of `ι`. -/
def any (ι : Type) : Thread σ ι := choose ret

/-- Follow a pointer. -/
def deref (p : Option α) : Thread σ α :=
  match p with
  | some a => ret a
  | none => fault

/-! ## Invariants of a thread -/

/-- From any state satisfying `I`, every action of the thread re-establishes `I`; no pointer is followed
    into nowhere; and its result satisfies `Q`. Nothing but `I` is kept across an action, since anything
    may happen in between. -/
def Ok (I : σ → Prop) (Q : α → Prop) : Thread σ α → Prop
  | ret a => Q a
  | act f k => ∀ s, I s → I (f s) ∧ (k s).Ok I Q
  | sleep _ p => p.Ok I Q
  | choose k => ∀ x, (k x).Ok I Q
  | stop => True
  | fault => False

section Ok
variable {I : σ → Prop} {Q : α → Prop} {R : β → Prop}

theorem Ok.pure {a : α} (h : Q a) : (Pure.pure a : Thread σ α).Ok I Q := h

theorem Ok.bind {p : Thread σ α} {k : α → Thread σ β} (hp : p.Ok I Q) (hk : ∀ a, Q a → (k a).Ok I R) :
    (p >>= k).Ok I R := by
  induction p with
  | ret a => exact hk a hp
  | act f g ih => exact fun s hs => ⟨(hp s hs).1, ih s (hp s hs).2⟩
  | sleep w p ih => exact ih hp
  | choose g ih => exact fun x => ih x (hp x)
  | stop => trivial
  | fault => exact hp

theorem Ok.reads {f : σ → α} {k : α → Thread σ β} (h : ∀ s, I s → (k (f s)).Ok I R) :
    (Thread.reads f >>= k).Ok I R :=
  fun s hs => ⟨hs, h s hs⟩

theorem Ok.modify {f : σ → σ} (h : ∀ s, I s → I (f s)) :
    (Thread.modify f).Ok I fun _ => True :=
  fun s hs => ⟨h s hs, trivial⟩

theorem Ok.attempt {f : σ → Option σ} (h : ∀ s, I s → ∃ s', f s = some s' ∧ I s') :
    (Thread.attempt f).Ok I fun _ => True := by
  intro s hs
  obtain ⟨s', hf, hs'⟩ := h s hs
  exact ⟨by simpa [hf] using hs', by simp [hf, Ok]⟩

theorem Ok.when {c : σ → Bool} {f : σ → Option σ}
    (h : ∀ s, I s → c s = true → ∃ s', f s = some s' ∧ I s') : (Thread.when c f).Ok I fun _ => True := by
  intro s hs
  by_cases hc : c s = true
  · obtain ⟨s', hf, hs'⟩ := h s hs hc
    exact ⟨by simpa [hc, hf] using hs', by simp [hc, hf, Ok]⟩
  · exact ⟨by simpa [hc] using hs, by simp [hc, Ok]⟩

theorem Ok.await {w : σ → Bool} : (Thread.await w).Ok I fun _ => True := by
  intro s hs
  refine ⟨hs, ?_⟩
  dsimp only
  split <;> exact trivial

theorem Ok.doze : (Thread.doze : Thread σ Unit).Ok I fun _ => True := trivial

theorem Ok.any {ι : Type} : (Thread.any ι : Thread σ ι).Ok I fun _ => True := fun _ => trivial

theorem Ok.stop : (Thread.stop : Thread σ α).Ok I Q := trivial

end Ok

end Thread

/-! ## Runs of one thread

The other threads and the interrupts are an environment that may step at any time. -/

/-- Started in `s`, the thread ends in `s'` with the result `a`. -/
inductive Runs {σ α : Type} (env : σ → σ → Prop) : Thread σ α → σ → α → σ → Prop
  | ret (a s) : Runs env (.ret a) s a s
  | act {f k s a s'} (h : Runs env (k s) (f s) a s') : Runs env (.act f k) s a s'
  | sleep {w p s a s'} (hw : w s = true) (h : Runs env p s a s') : Runs env (.sleep w p) s a s'
  | choose {ι : Type} {k : ι → Thread σ α} {s a s'} (x : ι) (h : Runs env (k x) s a s') :
      Runs env (.choose k) s a s'
  | env {p s s1 a s'} (he : env s s1) (h : Runs env p s1 a s') : Runs env p s a s'

namespace Runs
variable {σ α β : Type} {env : σ → σ → Prop} {I : σ → Prop} {s s' : σ}

/-- A run of `p >>= k` is a run of `p` and then one of `k`. -/
theorem bind_inv {p : Thread σ α} {k : α → Thread σ β} {b : β} (h : Runs env (p >>= k) s b s') :
    ∃ a s1, Runs env p s a s1 ∧ Runs env (k a) s1 b s' := by
  generalize hq : p >>= k = q at h
  induction h generalizing p with
  | ret b s =>
      cases p with
      | ret a => exact ⟨a, s, .ret a s, (show k a = _ from hq) ▸ .ret b s⟩
      | _ => cases hq
  | act h ih =>
      cases p with
      | ret a => exact ⟨a, _, .ret a _, (show k a = _ from hq) ▸ .act h⟩
      | act f g =>
          cases hq
          obtain ⟨a, s1, h1, h2⟩ := ih rfl
          exact ⟨a, s1, .act h1, h2⟩
      | _ => cases hq
  | sleep hw h ih =>
      cases p with
      | ret a => exact ⟨a, _, .ret a _, (show k a = _ from hq) ▸ .sleep hw h⟩
      | sleep w p =>
          cases hq
          obtain ⟨a, s1, h1, h2⟩ := ih rfl
          exact ⟨a, s1, .sleep hw h1, h2⟩
      | _ => cases hq
  | choose x h ih =>
      cases p with
      | ret a => exact ⟨a, _, .ret a _, (show k a = _ from hq) ▸ .choose x h⟩
      | choose g =>
          cases hq
          obtain ⟨a, s1, h1, h2⟩ := ih rfl
          exact ⟨a, s1, .choose x h1, h2⟩
      | _ => cases hq
  | env he h ih =>
      obtain ⟨a, s1, h1, h2⟩ := ih hq
      exact ⟨a, s1, .env he h1, h2⟩

/-- A run of `p` and then one of `k` make a run of `p >>= k`. -/
theorem bind {p : Thread σ α} {k : α → Thread σ β} {a : α} {b : β} {s1 : σ} (h : Runs env p s a s1)
    (hk : Runs env (k a) s1 b s') : Runs env (p >>= k) s b s' := by
  induction h with
  | ret a s => exact hk
  | act h ih => exact .act (ih hk)
  | sleep hw h ih => exact .sleep hw (ih hk)
  | choose x h ih => exact .choose x (ih hk)
  | env he h ih => exact .env he (ih hk)

/-- A run of `p` whose result `g` is applied to. -/
theorem map_inv {p : Thread σ α} {g : α → β} {b : β} (h : Runs env (p >>= fun a => pure (g a)) s b s') :
    ∃ a, Runs env p s a s' ∧ b = g a := by
  generalize hq : (p >>= fun a => pure (g a)) = q at h
  induction h generalizing p with
  | ret b s =>
      cases p with
      | ret a =>
          cases hq
          exact ⟨a, .ret a s, rfl⟩
      | _ => cases hq
  | act h ih =>
      cases p with
      | act f g =>
          cases hq
          obtain ⟨a, h1, hb⟩ := ih rfl
          exact ⟨a, .act h1, hb⟩
      | _ => cases hq
  | sleep hw h ih =>
      cases p with
      | sleep w p =>
          cases hq
          obtain ⟨a, h1, hb⟩ := ih rfl
          exact ⟨a, .sleep hw h1, hb⟩
      | _ => cases hq
  | choose x h ih =>
      cases p with
      | choose g =>
          cases hq
          obtain ⟨a, h1, hb⟩ := ih rfl
          exact ⟨a, .choose x h1, hb⟩
      | _ => cases hq
  | env he h ih =>
      obtain ⟨a, h1, hb⟩ := ih hq
      exact ⟨a, .env he h1, hb⟩

/-- An invariant that the thread and its environment keep holds at the end, and the result is as promised. -/
theorem ok (henv : ∀ s s', env s s' → I s → I s') {p : Thread σ α} {Q : α → Prop} (hp : p.Ok I Q) {a : α}
    (h : Runs env p s a s') (hs : I s) : I s' ∧ Q a := by
  induction h with
  | ret a s => exact ⟨hs, hp⟩
  | act h ih => exact ih (hp _ hs).2 (hp _ hs).1
  | sleep hw h ih => exact ih hp hs
  | choose x h ih => exact ih (hp x) hs
  | env he h ih => exact ih hp (henv _ _ he hs)

/-- A finished thread only waits. -/
theorem ret_inv {a b : α} (henv : ∀ s s', env s s' → I s → I s') (h : Runs env (.ret a) s b s') (hs : I s) :
    I s' ∧ b = a := by
  generalize hq : Thread.ret a = q at h
  induction h with
  | ret b s =>
      cases hq
      exact ⟨hs, rfl⟩
  | env he h ih => exact ih (henv _ _ he hs) hq
  | _ => cases hq

/-- Nothing ends well after a fault. -/
theorem not_fault {a : α} (h : Runs env .fault s a s') : False := by
  generalize hq : Thread.fault = q at h
  induction h with
  | env he h ih => exact ih hq
  | _ => cases hq

/-- Nothing ends after a panic. -/
theorem not_stop {a : α} (h : Runs env .stop s a s') : False := by
  generalize hq : Thread.stop = q at h
  induction h with
  | env he h ih => exact ih hq
  | _ => cases hq

/-- An action happens in a state that the environment has left `I` in; what it establishes, the environment
    leaves too. -/
theorem atomic_inv {f : σ → Option (α × σ)} {a : α} (henv : ∀ s s', env s s' → I s → I s')
    (h : Runs env (.atomic f) s a s') (hs : I s) :
    ∃ s1 s2, I s1 ∧ f s1 = some (a, s2) ∧
      ∀ J : σ → Prop, (∀ s s', env s s' → J s → J s') → J s2 → J s' := by
  unfold Thread.atomic at h
  generalize hq : Thread.act _ _ = q at h
  induction h with
  | @act g k s a s' h ih =>
      cases hq
      cases hf : f s with
      | none =>
          simp only [hf] at h
          exact (not_fault h).elim
      | some r =>
          simp only [hf, Option.map_some, Option.getD_some] at h
          refine ⟨s, r.2, hs, ?_, fun J hJ hr => (ret_inv hJ h hr).1⟩
          rw [hf, (ret_inv (I := fun _ => True) (fun _ _ _ _ => trivial) h trivial).2]
  | env he h ih => exact ih (henv _ _ he hs) hq
  | _ => cases hq

end Runs

/-- The run of a thread that nothing disturbs, as long as it has no choice to make and waits for nothing. -/
def Thread.alone {σ α : Type} : Thread σ α → σ → Option (α × σ)
  | ret a, s => some (a, s)
  | act f k, s => (k s).alone (f s)
  | sleep w p, s => if w s then p.alone s else none
  | _, _ => none

theorem Runs.of_alone {σ α : Type} {env : σ → σ → Prop} {p : Thread σ α} {s s' : σ} {a : α}
    (h : p.alone s = some (a, s')) : Runs env p s a s' := by
  induction p generalizing s with
  | ret b =>
      cases h
      exact .ret _ _
  | act f k ih => exact .act (ih _ h)
  | sleep w p ih =>
      unfold Thread.alone at h
      split at h
      · rename_i hw
        exact .sleep hw (ih h)
      · cases h
  | _ => cases h

/-! ## Pools -/

/-- The shared state, the threads, and the one that has the processor (none between a sleep and the next
    wake-up). -/
structure Config (σ : Type) where
  state : σ
  threads : List (Thread σ Unit)
  running : Option Nat

/-- A step of the pool; `irq` is what an interrupt may do to the state. -/
inductive Step {σ : Type} (irq : σ → σ → Prop) : Config σ → Config σ → Prop
  | irq {s s' ts r} (h : irq s s') : Step irq ⟨s, ts, r⟩ ⟨s', ts, r⟩
  | act {s ts i f k} (h : ts[i]? = some (.act f k)) :
      Step irq ⟨s, ts, some i⟩ ⟨f s, ts.set i (k s), some i⟩
  | choose {s ts i} {ι : Type} {k : ι → Thread σ Unit} (x : ι) (h : ts[i]? = some (.choose k)) :
      Step irq ⟨s, ts, some i⟩ ⟨s, ts.set i (k x), some i⟩
  | sleep {s ts i w p} (h : ts[i]? = some (.sleep w p)) : Step irq ⟨s, ts, some i⟩ ⟨s, ts, none⟩
  | wake {s ts i w p} (h : ts[i]? = some (.sleep w p)) (hw : w s = true) :
      Step irq ⟨s, ts, none⟩ ⟨s, ts.set i p, some i⟩
  | done {s ts i} (h : ts[i]? = some (.ret ())) : Step irq ⟨s, ts, some i⟩ ⟨s, ts, none⟩

/-- Any number of steps. -/
def Reaches {σ : Type} (irq : σ → σ → Prop) : Config σ → Config σ → Prop := Relation.ReflTransGen (Step irq)

/-- A pool of threads, none of which has started. -/
def Config.start {σ : Type} (s : σ) (ps : List (Thread σ Unit)) : Config σ :=
  ⟨s, ps.map (.sleep fun _ => true), none⟩

/-- What an invariant of the pool is: the state satisfies `I` and every thread is `Ok`. -/
def Config.Ok {σ : Type} (I : σ → Prop) (c : Config σ) : Prop :=
  I c.state ∧ ∀ p ∈ c.threads, p.Ok I fun _ => True

section Pool
variable {σ : Type} {irq : σ → σ → Prop} {I : σ → Prop}

theorem ok_set {ts : List (Thread σ Unit)} (h : ∀ p ∈ ts, p.Ok I fun _ => True) {i : Nat}
    {p : Thread σ Unit} (hp : p.Ok I fun _ => True) : ∀ q ∈ ts.set i p, q.Ok I fun _ => True := by
  intro q hq
  rcases List.mem_or_eq_of_mem_set hq with hq | rfl
  · exact h q hq
  · exact hp

/-- One step preserves the invariant of the pool. -/
theorem Step.ok (hirq : ∀ s s', irq s s' → I s → I s') {c c' : Config σ} (h : Step irq c c')
    (hc : c.Ok I) : c'.Ok I := by
  obtain ⟨hI, hts⟩ := hc
  cases h with
  | irq h => exact ⟨hirq _ _ h hI, hts⟩
  | act h =>
      have hp := hts _ (List.mem_of_getElem? h) _ hI
      exact ⟨hp.1, ok_set hts hp.2⟩
  | choose x h => exact ⟨hI, ok_set hts (hts _ (List.mem_of_getElem? h) x)⟩
  | sleep h => exact ⟨hI, hts⟩
  | wake h _ =>
      have hp : Thread.Ok I _ (.sleep _ _) := hts _ (List.mem_of_getElem? h)
      exact ⟨hI, ok_set hts hp⟩
  | done h => exact ⟨hI, hts⟩

/-- **The invariant rule.** Whatever the interleaving, `I` holds in every state the pool reaches. -/
theorem reaches_inv (hirq : ∀ s s', irq s s' → I s → I s') {s : σ} {ps : List (Thread σ Unit)}
    (hs : I s) (hps : ∀ p ∈ ps, p.Ok I fun _ => True) {c : Config σ}
    (h : Reaches irq (.start s ps) c) : I c.state := by
  suffices hc : c.Ok I from hc.1
  induction h with
  | refl =>
      refine ⟨hs, fun p hp => ?_⟩
      obtain ⟨q, hq, rfl⟩ := List.mem_map.mp hp
      exact hps q hq
  | tail _ hstep ih => exact hstep.ok hirq ih

end Pool

end Coop
