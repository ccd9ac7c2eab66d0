import Mathlib.Data.List.Nodup
import Mathlib.Logic.Relation

/-!
# `Sched.WaitQueue` — wait queues (`kernel/sched.c`)

A wait queue is a pointer to the task that went to sleep on it last; the task before that is in `tmp`, a variable in
the frame of `__sleep_on`, and so on. A task that is woken out of turn wakes the head and goes back to sleep.

* `sleepOn`, `wakeUp`, `Step` — the source's functions, and the tasks in them;
* `Chain` — the tasks that the pointer leads to through the frames;
* `wait_queue` — **the chain is made of the tasks that sleep, and after `wake_up` one of them is runnable**.
-/

namespace Linux095
namespace Sched

open Relation

/-- `state` of a task that is neither stopped nor dead. -/
inductive TaskState where
  | running
  | interruptible
  | uninterruptible
  deriving DecidableEq, Repr

/-- Where a task is with respect to a queue. -/
inductive Pc where
  | out
  /-- In `schedule()`, called from `__sleep_on`. -/
  | asleep (tmp : Option Nat)
  deriving DecidableEq, Repr

/-- A queue `*p`, and the tasks. -/
structure Config where
  head : Option Nat
  state : Nat → TaskState
  pc : Nat → Pc

namespace Config

def setState (c : Config) (t : Nat) (s : TaskState) : Config :=
  { c with state := fun x => if x = t then s else c.state x }

def setPc (c : Config) (t : Nat) (q : Pc) : Config := { c with pc := fun x => if x = t then q else c.pc x }

/-- `if (t) t->state = 0`. -/
def wake (c : Config) : Option Nat → Config
  | none => c
  | some t => c.setState t .running

/-- `__sleep_on` up to `schedule()`. Whoever sleeps on a queue that interrupts wake has disabled them. -/
def sleepOn (c : Config) (t : Nat) (s : TaskState) : Config :=
  ({ c with head := some t }.setState t s).setPc t (.asleep c.head)

/-- `wake_up`. -/
def wakeUp (c : Config) : Config := c.wake c.head

/-- The end of `__sleep_on`. An interrupt between the two assignments wakes whom the second one wakes. -/
def leave (c : Config) (t : Nat) (tmp : Option Nat) : Config := ({ c with head := tmp }.wake tmp).setPc t .out

/-- The body of the loop of `__sleep_on`, where `h` is the head. -/
def back (c : Config) (t h : Nat) : Config := (c.setState t .uninterruptible).setState h .running

/-- Inside `__sleep_on`. -/
def Inside (c : Config) (t : Nat) : Prop := ∃ tmp, c.pc t = .asleep tmp

end Config

/-- What a step is about. -/
inductive Event where
  | sleep (t : Nat)
  | wakeUp
  | signal (t : Nat)
  | back (t : Nat)
  | returned (t : Nat)
  deriving DecidableEq, Repr

/-- One step. Task 0 never sleeps. -/
inductive Step : Config → Event → Config → Prop
  | sleep {c : Config} {t : Nat} (s : TaskState) (ht : t ≠ 0) (hp : c.pc t = .out) (hs : s ≠ .running) :
      Step c (.sleep t) (c.sleepOn t s)
  /-- From another task or from an interrupt. -/
  | wakeUp {c : Config} : Step c .wakeUp c.wakeUp
  /-- `schedule()` has found a signal, or a timeout. -/
  | signal {c : Config} {t : Nat} (hs : c.state t = .interruptible) : Step c (.signal t) (c.setState t .running)
  /-- `schedule()` returns in a task that is not the head. -/
  | back {c : Config} {t h : Nat} {tmp : Option Nat} (hp : c.pc t = .asleep tmp) (hs : c.state t = .running)
      (hh : c.head = some h) (hne : h ≠ t) : Step c (.back t) (c.back t h)
  /-- `schedule()` returns in the head. -/
  | leave {c : Config} {t : Nat} {tmp : Option Nat} (hp : c.pc t = .asleep tmp) (hs : c.state t = .running)
      (hh : ∀ h, c.head = some h → h = t) : Step c (.returned t) (c.leave t tmp)

/-! ## The chain -/

/-- The tasks that a pointer leads to through the frames of `__sleep_on`. -/
inductive Chain (pc : Nat → Pc) : Option Nat → List Nat → Prop
  | nil : Chain pc none []
  | cons {t : Nat} {tmp : Option Nat} {l : List Nat} (ht : pc t = .asleep tmp) (h : Chain pc tmp l) :
      Chain pc (some t) (t :: l)

theorem Chain.congr {pc pc' : Nat → Pc} {p : Option Nat} {l : List Nat} (h : Chain pc p l)
    (hpc : ∀ t ∈ l, pc' t = pc t) : Chain pc' p l := by
  induction h with
  | nil => exact .nil
  | cons ht h ih =>
      apply Chain.cons
      · rw [hpc _ List.mem_cons_self]
        exact ht
      · exact ih fun t ht => hpc t (List.mem_cons_of_mem _ ht)

/-- **The invariant**: each task inside `__sleep_on` is on the chain once, and nobody else is. -/
structure Threaded (c : Config) (l : List Nat) : Prop where
  chain : Chain c.pc c.head l
  nodup : l.Nodup
  mem : ∀ t, t ∈ l ↔ c.Inside t

/-- Nobody enters, nobody leaves. -/
theorem Threaded.congr {c c' : Config} {l : List Nat} (h : Threaded c l) (hh : c'.head = c.head) (hpc : c'.pc = c.pc) :
    Threaded c' l := by
  obtain ⟨hchain, hnodup, hmem⟩ := h
  refine ⟨?_, hnodup, ?_⟩
  · rw [hh, hpc]
    exact hchain
  · unfold Config.Inside
    rw [hpc]
    exact hmem

@[simp] theorem head_wake (c : Config) (p : Option Nat) : (c.wake p).head = c.head := by cases p <;> rfl
@[simp] theorem pc_wake (c : Config) (p : Option Nat) : (c.wake p).pc = c.pc := by cases p <;> rfl

/-- A task puts itself on top. -/
theorem Threaded.sleepOn {c : Config} {l : List Nat} (h : Threaded c l) {t : Nat} (hp : c.pc t = .out) (s : TaskState) :
    Threaded (c.sleepOn t s) (t :: l) := by
  have hnot : t ∉ l := by
    intro ht
    obtain ⟨tmp, htmp⟩ := (h.mem t).mp ht
    rw [hp] at htmp
    cases htmp
  have hother : ∀ {x}, x ≠ t → (c.sleepOn t s).pc x = c.pc x := fun hx => if_neg hx
  refine ⟨?_, List.nodup_cons.mpr ⟨hnot, h.nodup⟩, fun x => ?_⟩
  · refine @Chain.cons _ _ c.head _ ?_ ?_
    · exact if_pos rfl
    · apply h.chain.congr
      intro x hx
      apply hother
      rintro rfl
      exact hnot hx
  · by_cases hx : x = t
    · subst hx
      exact iff_of_true List.mem_cons_self ⟨c.head, if_pos rfl⟩
    · unfold Config.Inside
      rw [List.mem_cons, hother hx, h.mem x]
      exact or_iff_right hx

/-- A task that is not the head cannot leave, so that the head takes itself off. -/
theorem Threaded.leave {c : Config} {l : List Nat} (h : Threaded c l) {t : Nat} {tmp : Option Nat}
    (hp : c.pc t = .asleep tmp) (hh : ∀ h, c.head = some h → h = t) :
    ∃ l', l = t :: l' ∧ Threaded (c.leave t tmp) l' := by
  have ht : t ∈ l := (h.mem t).mpr ⟨tmp, hp⟩
  obtain ⟨hchain, hnodup, hmem⟩ := h
  generalize hhead : c.head = p at hchain
  cases hchain with
  | nil => cases ht
  | @cons u tmp' l' hu hrest =>
      obtain rfl := hh u hhead
      rw [hp] at hu
      obtain rfl := Pc.asleep.inj hu
      obtain ⟨hnot, hnodup⟩ := List.nodup_cons.mp hnodup
      have hpc : ∀ x, (c.leave u tmp).pc x = if x = u then .out else c.pc x := by
        intro x
        unfold Config.leave Config.setPc
        rw [pc_wake]
      refine ⟨l', rfl, ?_, hnodup, fun x => ?_⟩
      · have hnext : (c.leave u tmp).head = tmp := head_wake _ tmp
        rw [hnext]
        apply hrest.congr
        intro x hx
        rw [hpc, if_neg]
        rintro rfl
        exact hnot hx
      · unfold Config.Inside
        rw [hpc]
        by_cases hx : x = u
        · subst hx
          rw [if_pos rfl]
          exact iff_of_false hnot fun ⟨_, hc⟩ => Pc.noConfusion hc
        · rw [if_neg hx, ← Config.Inside, ← hmem x, List.mem_cons]
          exact (or_iff_right hx).symm

/-- **Every step keeps the chain.** -/
theorem Threaded.step {c c' : Config} {e : Event} {l : List Nat} (h : Threaded c l) (hs : Step c e c') :
    ∃ l', Threaded c' l' := by
  cases hs with
  | sleep s ht hp hs => exact ⟨_, h.sleepOn hp s⟩
  | wakeUp => exact ⟨l, h.congr (head_wake _ _) (pc_wake _ _)⟩
  | signal hs => exact ⟨l, h.congr rfl rfl⟩
  | back hp hs hh hne => exact ⟨l, h.congr rfl rfl⟩
  | leave hp hs hh =>
      obtain ⟨l', -, h'⟩ := h.leave hp hh
      exact ⟨l', h'⟩

/-! ## Wake-ups -/

/-- Somebody on the chain can run. -/
def Awake (c : Config) (l : List Nat) : Prop := ∃ u ∈ l, c.state u = .running

theorem state_wake_some {c : Config} {t : Nat} : (c.wake (some t)).state t = .running := if_pos rfl

/-- **As long as a task of the chain does not return, somebody on the chain can run.** -/
theorem Awake.step {c c' : Config} {e : Event} {l : List Nat} (h : Threaded c l) (hw : Awake c l) {t : Nat}
    (ht : c.Inside t) (hs : Step c e c') (he : e ≠ .returned t) :
    ∃ l', Threaded c' l' ∧ Awake c' l' ∧ c'.Inside t := by
  obtain ⟨u, hu, hrun⟩ := hw
  have hmem : t ∈ l := (h.mem t).mpr ht
  cases hs with
  | @sleep x s hx hp hs =>
      have h' := h.sleepOn hp s
      refine ⟨_, h', ⟨u, List.mem_cons_of_mem x hu, ?_⟩, (h'.mem t).mp (List.mem_cons_of_mem x hmem)⟩
      apply (if_neg ?_).trans hrun
      rintro rfl
      obtain ⟨tmp, htmp⟩ := (h.mem _).mp hu
      rw [hp] at htmp
      cases htmp
  | wakeUp =>
      have h' : Threaded c.wakeUp l := h.congr (head_wake _ _) (pc_wake _ _)
      refine ⟨l, h', ⟨u, hu, ?_⟩, (h'.mem t).mp hmem⟩
      unfold Config.wakeUp Config.wake
      split
      · exact hrun
      · exact (ite_eq_left_iff.mpr fun _ => hrun)
  | @signal x hs =>
      have h' : Threaded (c.setState x .running) l := h.congr rfl rfl
      exact ⟨l, h', ⟨u, hu, ite_eq_left_iff.mpr fun _ => hrun⟩, ht⟩
  | @back x y tmp hp hs hh hne =>
      -- the head is made runnable in place of the task that goes back
      have h' : Threaded (c.back x y) l := h.congr rfl rfl
      refine ⟨l, h', ⟨y, ?_, if_pos rfl⟩, ht⟩
      obtain ⟨hchain, -, -⟩ := h
      rw [hh] at hchain
      cases hchain
      exact List.mem_cons_self
  | @leave x tmp hp hs hh =>
      obtain ⟨l', rfl, h'⟩ := h.leave hp hh
      have hne : t ≠ x := by
        rintro rfl
        exact he rfl
      have hin : t ∈ l' := (List.mem_cons.mp hmem).resolve_left hne
      refine ⟨l', h', ?_, (h'.mem t).mp hin⟩
      -- what is left of the chain begins with the task that is woken
      have hhead : (c.leave x tmp).head = tmp := head_wake _ tmp
      obtain ⟨hchain, -, -⟩ := h'
      rw [hhead] at hchain
      cases hchain with
      | nil => cases hin
      | @cons y _ l' hy hrest => exact ⟨y, List.mem_cons_self, state_wake_some (c := { c with head := some y })⟩

/-! ## Runs -/

/-- A run of the tasks. -/
def Run : Config → Config → Prop := ReflTransGen fun c c' => ∃ e, Step c e c'

/-- A run in which task `t` does not return from `__sleep_on`. -/
def RunWithout (t : Nat) : Config → Config → Prop := ReflTransGen fun c c' => ∃ e, Step c e c' ∧ e ≠ .returned t

theorem Run.threaded {c₀ c : Config} (h₀ : c₀.head = none) (hout : ∀ t, c₀.pc t = .out) (hrun : Run c₀ c) :
    ∃ l, Threaded c l := by
  induction hrun with
  | refl =>
      refine ⟨[], ?_, List.nodup_nil, fun t => ?_⟩
      · rw [h₀]
        exact .nil
      · refine iff_of_false List.not_mem_nil ?_
        rintro ⟨tmp, htmp⟩
        rw [hout t] at htmp
        cases htmp
  | tail _ hstep ih =>
      obtain ⟨l, hl⟩ := ih
      obtain ⟨e, hstep⟩ := hstep
      exact hl.step hstep

/-- After `wake_up` the head can run. -/
theorem Threaded.wakeUp {c : Config} {l : List Nat} (h : Threaded c l) {t : Nat} (ht : c.Inside t) :
    Threaded c.wakeUp l ∧ Awake c.wakeUp l := by
  have hmem : t ∈ l := (h.mem t).mpr ht
  refine ⟨h.congr (head_wake _ _) (pc_wake _ _), ?_⟩
  obtain ⟨hchain, -, -⟩ := h
  unfold Config.wakeUp
  generalize c.head = p at hchain
  cases hchain with
  | nil => cases hmem
  | @cons u tmp l' hu hrest => exact ⟨u, List.mem_cons_self, state_wake_some⟩

/-- **Wait queues lose no wake-up.** In every state that any number of tasks reach, the chain holds each task inside
    `__sleep_on` exactly once; and once `wake_up` has been called, somebody on the chain can run as long as some task
    that was waiting then has not returned. -/
theorem wait_queue {c₀ c : Config} (h₀ : c₀.head = none) (hout : ∀ t, c₀.pc t = .out) (hrun : Run c₀ c) :
    (∃ l, Chain c.pc c.head l ∧ l.Nodup ∧ ∀ t, t ∈ l ↔ c.Inside t) ∧
    ∀ t c₁ c₂, c.Inside t → Step c .wakeUp c₁ → RunWithout t c₁ c₂ →
      ∃ l, Chain c₂.pc c₂.head l ∧ ∃ u ∈ l, c₂.state u = .running := by
  obtain ⟨l, hl⟩ := hrun.threaded h₀ hout
  refine ⟨⟨l, hl.chain, hl.nodup, hl.mem⟩, fun t c₁ c₂ ht hwake hafter => ?_⟩
  have hfinal : ∃ l', Threaded c₂ l' ∧ Awake c₂ l' ∧ c₂.Inside t := by
    induction hafter with
    | refl =>
        cases hwake
        obtain ⟨h₁, hawake⟩ := hl.wakeUp ht
        exact ⟨l, h₁, hawake, (h₁.mem t).mp ((hl.mem t).mpr ht)⟩
    | tail _ hstep ih =>
        obtain ⟨l', h', hawake, hin⟩ := ih
        obtain ⟨e, hstep, he⟩ := hstep
        exact hawake.step h' hin hstep he
  obtain ⟨l', h', hawake, -⟩ := hfinal
  exact ⟨l', h'.chain, hawake⟩

/-- Nobody sleeps. -/
def idle : Config := { head := none, state := fun _ => .running, pc := fun _ => .out }

/-- Tasks 1 and 2 sleep, 2 is woken and wakes 1. -/
theorem wait_queue_two :
    let c := (idle.sleepOn 1 .uninterruptible).sleepOn 2 .interruptible
    (∃ l, Chain c.pc c.head l ∧ l.Nodup ∧ ∀ t, t ∈ l ↔ c.Inside t) ∧
    ∃ l, Chain (c.wakeUp.leave 2 (some 1)).pc (c.wakeUp.leave 2 (some 1)).head l ∧
      ∃ u ∈ l, (c.wakeUp.leave 2 (some 1)).state u = .running := by
  intro c
  have hfirst : Step idle (.sleep 1) (idle.sleepOn 1 .uninterruptible) := .sleep _ (by decide) rfl (by decide)
  have hsecond : Step _ (.sleep 2) c := .sleep _ (by decide) rfl (by decide)
  have hrun : Run idle c := ReflTransGen.tail (.single ⟨_, hfirst⟩) ⟨_, hsecond⟩
  have hleave : Step c.wakeUp (.returned 2) (c.wakeUp.leave 2 (some 1)) := by
    refine .leave rfl rfl fun h hh => ?_
    exact (Option.some.inj hh).symm
  have hqueue := wait_queue rfl (fun _ => rfl) hrun
  exact ⟨hqueue.1, hqueue.2 1 _ _ ⟨none, rfl⟩ .wakeUp (.single ⟨_, hleave, by decide⟩)⟩

end Sched
end Linux095
