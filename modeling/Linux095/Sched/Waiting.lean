import Mathlib.Algebra.BigOperators.Group.Finset.Piecewise
import Mathlib.Algebra.Order.BigOperators.Group.Finset
import Linux095.Sched.Schedule

/-!
# `Sched.Waiting` — how long a task waits for the processor

A task that is ready is passed over while the others use up their counters, and no longer. Only `fork` gives new time
to somebody before that: to a child, which begins with the priority of its parent.

* `others` — the time that is left to the other tasks;
* `others_step` — a tick takes it away, and nothing but `fork` adds to it;
* `Waits` — the runs in which a task that is ready does not get the processor;
* `waits_bounded` — **there is an end to them**.
-/

namespace Linux095
namespace Sched
namespace Schedule

open ProcessTree (NR_TASKS slots)

/-- Task `i` may run, and has time left. -/
def Ready (s : State) (i : Nat) : Prop := i ∈ slots ∧ ∃ c, RunsAt s.task i c ∧ 0 < c

def counterAt (s : State) (i : Nat) : Int := ((s.task i).map Task.counter).getD 0

/-- The counters of the tasks other than `i`. -/
def others (s : State) (i : Nat) : Int := ∑ j ∈ (Finset.range NR_TASKS).erase i, counterAt s j

/-- What a tick takes from `current`. -/
def charged (s : State) : Event → Int
  | .tick => if 0 < counterAt s s.current then 1 else 0
  | _ => 0

/-- What `fork` gives to the child. -/
def given (s : State) : Event → Int
  | .fork _ => ((s.task s.current).map Task.priority).getD 0
  | _ => 0

variable {s s' : State} {i : Nat} {e : Event}

theorem slots_lt : ∀ j ∈ slots, j < NR_TASKS := by decide

theorem counterAt_nonneg (h : Inv s) (j : Nat) : 0 ≤ counterAt s j := by
  unfold counterAt
  cases ht : s.task j with
  | none => exact le_rfl
  | some t => exact (h j t ht).counter

theorem others_nonneg (h : Inv s) : 0 ≤ others s i := Finset.sum_nonneg fun j _ => counterAt_nonneg h j

/-- One counter changes by `d` at most, and the others do not grow. -/
theorem others_le {j₀ : Nat} {d : Int} (hlt : j₀ < NR_TASKS) (hne : j₀ ≠ i)
    (hall : ∀ j, counterAt s' j ≤ counterAt s j + if j = j₀ then d else 0) : others s' i ≤ others s i + d := by
  calc others s' i ≤ ∑ j ∈ (Finset.range NR_TASKS).erase i, (counterAt s j + if j = j₀ then d else 0) :=
        Finset.sum_le_sum fun j _ => hall j
    _ = others s i + d := by
        rw [Finset.sum_add_distrib, Finset.sum_ite_eq' _ j₀ fun _ => d,
          if_pos (Finset.mem_erase.2 ⟨hne, Finset.mem_range.2 hlt⟩)]
        rfl

theorem counterAt_mapTask (nr : Nat) (f : Task → Task) (j : Nat) : counterAt (s.mapTask nr f) j =
    if j = nr then ((s.task j).map fun t => (f t).counter).getD 0 else counterAt s j := by
  unfold counterAt State.mapTask
  dsimp only
  split
  · rw [Option.map_map]
    rfl
  · rfl

/-- A task is changed, and gets no time. -/
theorem mapTask_le {nr : Nat} {f : Task → Task} (hf : ∀ t, s.task nr = some t → (f t).counter ≤ t.counter) (j : Nat) :
    counterAt (s.mapTask nr f) j ≤ counterAt s j := by
  rw [counterAt_mapTask]
  split
  · rename_i hj
    subst hj
    unfold counterAt
    cases ht : s.task j with
    | none => exact le_rfl
    | some t => exact hf t ht
  · exact le_rfl

theorem doTimer_counter {t : Task} (h : Fine t) :
    (doTimer t).counter = t.counter - if 0 < t.counter then 1 else 0 := by
  obtain ⟨hc, hb, -, -⟩ := h
  have heq : long (t.counter - 1) = t.counter - 1 := long_eq (by omega) (by omega)
  unfold doTimer
  dsimp only
  rw [heq]
  split <;> split <;> omega

/-- **When somebody is ready, nobody gets a new counter**: the first scan finds a task. -/
theorem schedule_ready (h : Inv s) (hready : Ready s i) (fuel : Nat) : ∃ s', schedule (fuel + 1) s = some s' ∧
    (∀ j, counterAt s' j = counterAt s j) ∧ s'.current ∈ slots ∧ 0 < counterAt s' s'.current := by
  obtain ⟨hi, c, ⟨t, ht, hrun, rfl⟩, hpos⟩ := hready
  let s₁ := s.mapAll (checkAlarm s.jiffies)
  have hinv : Inv s₁ := h.checkAlarm
  have hcounter : ∀ j, counterAt s₁ j = counterAt s j := by
    intro j
    show ((if j ∈ slots then (s.task j).map (checkAlarm s.jiffies) else s.task j).map Task.counter).getD 0 = _
    split
    · rw [Option.map_map, show Task.counter ∘ checkAlarm s.jiffies = Task.counter from
        funext fun t => (checkAlarm_same s.jiffies t).1]
      rfl
    · rfl
  have hat : RunsAt s₁.task i t.counter := by
    refine ⟨checkAlarm s.jiffies t, ?_, checkAlarm_running _ hrun, (checkAlarm_same _ t).1⟩
    show (if i ∈ slots then (s.task i).map (checkAlarm s.jiffies) else s.task i) = _
    rw [if_pos hi, ht]
    rfl
  have hnonneg : ∀ j ∈ slots, ∀ c, RunsAt s₁.task j c → 0 ≤ c := by
    rintro j - c ⟨u, hu, -, rfl⟩
    exact (hinv j u hu).counter
  obtain ⟨-, hno⟩ | ⟨hmem, ⟨u, hu, -, hc⟩, hbest⟩ := scan_spec hnonneg
  · exact absurd hat (hno i hi _)
  · have hlt : 0 < (scan s₁.task).1 := hpos.trans_le (hbest i hi _ hat)
    have hcur : counterAt s₁ (scan s₁.task).2 = (scan s₁.task).1 := by simp [counterAt, hu, hc]
    exact ⟨{ s₁ with current := (scan s₁.task).2 }, if_pos hlt.ne', hcounter, hmem, hlt.trans_eq hcur.symm⟩

/-- **A tick takes from what the others have left**, and only a child adds to it. -/
theorem others_step (h : Inv s) (hcur : s.current < NR_TASKS) (hready : Ready s i) (hne : s.current ≠ i)
    (hs : step s e = some s') : charged s e + others s' i ≤ others s i + given s e := by
  have hsame : charged s e = 0 → given s e = 0 → (∀ j, counterAt s' j ≤ counterAt s j) →
      charged s e + others s' i ≤ others s i + given s e := by
    intro hc hg hall
    have hle : others s' i ≤ others s i := Finset.sum_le_sum fun j _ => hall j
    omega
  cases e with
  | fork nr =>
      obtain ⟨-, c, ⟨t', ht', -⟩, -⟩ := hready
      simp only [step] at hs
      split at hs
      · rename_i t ht
        split at hs
        · rename_i hfree
          obtain rfl := Option.some.inj hs
          have hnr : nr ≠ i := by
            rintro rfl
            rw [ht'] at hfree
            cases hfree.2
          have hgiven : given s (.fork nr) = t.priority := by simp [given, ht]
          have hchild : counterAt s nr = 0 := by simp [counterAt, Option.isNone_iff_eq_none.1 hfree.2]
          rw [hgiven]
          refine (Int.zero_add _).trans_le (others_le (slots_lt nr hfree.1) hnr fun j => ?_)
          by_cases hj : j = nr
          · subst hj
            rw [if_pos rfl, hchild]
            simp [counterAt, child]
          · simp [counterAt, hj]
        · cases hs
      · cases hs
  | nice increment =>
      obtain rfl := Option.some.inj hs
      refine hsame rfl rfl (mapTask_le fun t _ => ?_)
      unfold sysNice
      split
      · exact le_rfl
      · exact le_rfl
  | tick =>
      obtain rfl := Option.some.inj hs
      by_cases hpos : 0 < counterAt s s.current
      · have hcharged : charged s .tick = 1 := if_pos hpos
        have hsum : others { s.mapTask s.current doTimer with jiffies := s.jiffies + 1 } i ≤ others s i + -1 := by
          refine others_le hcur hne fun j => (counterAt_mapTask s.current doTimer j).trans_le ?_
          split
          · rename_i hj
            subst hj
            unfold counterAt at hpos ⊢
            cases ht : s.task s.current with
            | none => simp [ht] at hpos
            | some t =>
                rw [ht] at hpos
                have htimer := doTimer_counter (h _ t ht)
                rw [if_pos (show 0 < t.counter from hpos)] at htimer
                exact htimer.le
          · exact (Int.add_zero _).ge
        rw [hcharged]
        change 1 + others _ i ≤ others s i + 0
        omega
      · refine hsame (if_neg hpos) rfl (mapTask_le fun t ht => ?_)
        rw [doTimer_counter (h _ t ht)]
        split <;> omega
  | giveUp =>
      obtain rfl := Option.some.inj hs
      exact hsame rfl rfl (mapTask_le fun t ht => (h _ t ht).counter)
  | state nr v =>
      obtain rfl := Option.some.inj hs
      exact hsame rfl rfl (mapTask_le fun t _ => le_rfl)
  | release nr =>
      obtain rfl := Option.some.inj hs
      refine hsame rfl rfl fun j => ?_
      unfold counterAt
      dsimp only
      split
      · exact counterAt_nonneg h j
      · exact le_rfl
  | others nr signal blocked timeout alarm euid =>
      obtain rfl := Option.some.inj hs
      exact hsame rfl rfl (mapTask_le fun t _ => le_rfl)
  | schedule fuel =>
      cases fuel with
      | zero => cases hs
      | succ fuel =>
          obtain ⟨s₁, hs₁, hcounter, -⟩ := schedule_ready h hready fuel
          obtain rfl := Option.some.inj (hs₁.symm.trans hs)
          exact hsame rfl rfl fun j => (hcounter j).le

/-- **A run in which task `i` waits**: it is ready all the time, and not `current`. `n` ticks are taken from the tasks that
    run meanwhile, and `g` is given to children. -/
inductive Waits (i : Nat) (s : State) : State → Int → Int → Prop
  | refl (hready : Ready s i) (hne : s.current ≠ i) : Waits i s s 0 0
  | tail {s' s'' : State} {e : Event} {n g : Int} (h : Waits i s s' n g) (hok : Admits s' e)
      (hs : step s' e = some s'') (hready : Ready s'' i) (hne : s''.current ≠ i) :
      Waits i s s'' (n + charged s' e) (g + given s' e)

theorem loop_current {fuel : Nat} (hs : loop fuel s = some s') : s'.current < NR_TASKS := by
  induction fuel generalizing s with
  | zero => cases hs
  | succ fuel ih =>
      unfold loop at hs
      dsimp only at hs
      split at hs
      · obtain rfl := Option.some.inj hs
        obtain ⟨hfound | ⟨hmem, -⟩, -⟩ := foldl_better s.task slots (-1, 0)
        · exact (congrArg Prod.snd hfound).trans_lt (by decide)
        · exact slots_lt _ hmem
      · exact ih hs

/-- `current` is a slot. -/
theorem current_lt (hcur : s.current < NR_TASKS) (hs : step s e = some s') : s'.current < NR_TASKS := by
  cases e with
  | fork nr =>
      simp only [step] at hs
      split at hs
      · split at hs
        · obtain rfl := Option.some.inj hs
          exact hcur
        · cases hs
      · cases hs
  | schedule fuel => exact loop_current hs
  | _ =>
      obtain rfl := Option.some.inj hs
      exact hcur

/-- When the others have no time left, the task is chosen. -/
theorem schedule_spent (h : Inv s) (hready : Ready s i) (hspent : others s i = 0) :
    ∃ s', schedule 1 s = some s' ∧ s'.current = i := by
  obtain ⟨s', hs, hsame, hmem, hpos⟩ := schedule_ready h hready 0
  refine ⟨s', hs, ?_⟩
  by_contra hne
  have hzero := (Finset.sum_eq_zero_iff_of_nonneg fun j _ => counterAt_nonneg h j).1 hspent s'.current
    (Finset.mem_erase.2 ⟨hne, Finset.mem_range.2 (slots_lt _ hmem)⟩)
  rw [hsame, hzero] at hpos
  exact lt_irrefl _ hpos

/-- **A task that is ready does not wait longer than the others have time**, together with what they give to children;
    when that is used up, `schedule` switches to the task. -/
theorem waits_bounded {n g : Int} (hr : Reaches Admits boot s) (hw : Waits i s s' n g) :
    n ≤ others s i + g ∧ (n = others s i + g → ∃ s'', schedule 1 s' = some s'' ∧ s''.current = i) := by
  have hcur : s.current < NR_TASKS := by
    clear hw
    induction hr with
    | refl => decide
    | tail _ hstep ih =>
        obtain ⟨e, -, hs⟩ := hstep
        exact current_lt ih hs
  have hall : Inv s' ∧ s'.current < NR_TASKS ∧ Ready s' i ∧ s'.current ≠ i ∧ n + others s' i ≤ others s i + g := by
    induction hw with
    | refl hready hne => exact ⟨inv_boot.reaches hr, hcur, hready, hne, by omega⟩
    | tail _ hok hs hready hne ih =>
        obtain ⟨hinv, hlt, hready', hne', hle⟩ := ih
        have hstep := others_step hinv hlt hready' hne' hs
        exact ⟨hinv.step hok hs, current_lt hlt hs, hready, hne, by omega⟩
  obtain ⟨hinv, -, hready, -, hle⟩ := hall
  have hnonneg := others_nonneg (i := i) hinv
  exact ⟨by omega, fun heq => schedule_spent hinv hready (by omega)⟩

set_option maxRecDepth 4000 in
/-- Of two children the one with the larger index runs first, and the other one waits. -/
theorem waits_bounded_children : ∃ s s', Waits 1 s s' 1 0 ∧ 1 ≤ others s 1 + 0 := by
  have hr : Reaches Admits boot _ :=
    .tail (.tail (.tail (.tail (.single ⟨.fork 1, trivial, rfl⟩) ⟨.fork 2, trivial, rfl⟩)
      ⟨.state 1 .running, trivial, rfl⟩) ⟨.state 2 .running, trivial, rfl⟩) ⟨.schedule 1, trivial, rfl⟩
  obtain ⟨s, hr, hready, hcur, hcharged⟩ : ∃ s, Reaches Admits boot s ∧ RunsAt s.task 1 15 ∧ s.current = 2 ∧
      charged s .tick = 1 := ⟨_, hr, ⟨_, rfl, rfl, rfl⟩, rfl, rfl⟩
  have hne : s.current ≠ 1 := by
    rw [hcur]
    decide
  have htask : (s.mapTask s.current doTimer).task 1 = s.task 1 := if_neg hne.symm
  have hstart : Ready s 1 := ⟨by decide, 15, hready, by decide⟩
  have hw := (Waits.refl hstart hne).tail (e := .tick) trivial rfl
    ⟨by decide, 15, by unfold RunsAt; rw [htask]; exact hready, by decide⟩ hne
  rw [hcharged] at hw
  exact ⟨s, _, hw, (waits_bounded hr hw).1⟩

end Schedule
end Sched
end Linux095
