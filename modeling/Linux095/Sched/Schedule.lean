import Linux095.Sched.ProcessTree
import Mathlib.Algebra.Group.Nat.Defs
import Mathlib.Algebra.Order.Group.Int

/-!
# `Sched.Schedule` — the scheduler (`kernel/sched.c`)

`schedule` switches to the runnable task with the largest `counter`. When the counters of all runnable tasks are used
up, it gives every task a new one, which depends on its `priority`.

* `schedule`, `sysNice`, `doTimer`, `fork` — the source's functions;
* `Step` — what happens between calls of `schedule`;
* `schedule_chooses` — **the loop ends, with the right task**, if `nice` leaves every task a priority;
* `scan_fails` — there is no end when it does not: `nice_ends` is a run that comes to this.
-/

namespace Linux095
namespace Sched
namespace Schedule
open Relation
open ProcessTree (NR_TASKS slots)

def SIGALRM : Nat := 14

/-- The range of `long`. -/
def long (n : Int) : Int := n.bmod (2 ^ 32)

/-- What the scheduler needs of `struct task_struct`. -/
structure Task where
  state : ProcessTree.TaskState
  counter : Int
  priority : Int
  signal : BitVec 32
  blocked : BitVec 32
  timeout : Nat
  alarm : Nat
  euid : Nat

/-- `task[]` by its index, and the index of `current`. -/
structure State where
  task : Nat → Option Task
  current : Nat
  jiffies : Nat

namespace State

def mapTask (s : State) (nr : Nat) (f : Task → Task) : State :=
  { s with task := fun i => if i = nr then (s.task i).map f else s.task i }

def mapAll (s : State) (f : Task → Task) : State :=
  { s with task := fun i => if i ∈ slots then (s.task i).map f else s.task i }

end State

/-! ## `schedule` -/

/-- Timeouts and alarms that have expired, and the signals of sleepers. -/
def checkAlarm (jiffies : Nat) (t : Task) : Task :=
  let t :=
    if t.timeout ≠ 0 ∧ t.timeout < jiffies then
      { t with timeout := 0, state := if t.state = .interruptible then .running else t.state }
    else t
  let t :=
    if t.alarm ≠ 0 ∧ t.alarm < jiffies then
      { t with signal := t.signal ||| BitVec.twoPow 32 (SIGALRM - 1), alarm := 0 }
    else t
  if t.signal &&& ~~~ t.blocked ≠ 0 ∧ t.state = .interruptible then { t with state := .running } else t

/-- A turn of the loop that looks for the largest counter: the largest so far, and where. -/
def better (task : Nat → Option Task) (best : Int × Nat) (i : Nat) : Int × Nat :=
  match task i with
  | none => best
  | some t => if t.state = .running ∧ best.1 < t.counter then (t.counter, i) else best

def scan (task : Nat → Option Task) : Int × Nat := slots.foldl (better task) (-1, 0)

/-- A new counter. -/
def recount (t : Task) : Task := { t with counter := long (t.counter / 2 + t.priority) }

/-- `while (1)`; `none` only if it does not end. -/
def loop : Nat → State → Option State
  | 0, _ => none
  | fuel + 1, s =>
      let (c, next) := scan s.task
      if c ≠ 0 then some { s with current := next } else loop fuel (s.mapAll recount)

/-- `schedule` up to the task that it switches to. -/
def schedule (fuel : Nat) (s : State) : Option State := loop fuel (s.mapAll (checkAlarm s.jiffies))

/-! ## What changes counters and priorities -/

/-- `sys_nice`. -/
def sysNice (increment : Int) (t : Task) : Task :=
  if increment < 0 ∧ t.euid ≠ 0 then t
  else
    let increment := if t.priority < increment then t.priority - 1 else increment
    { t with priority := long (t.priority - increment) }

/-- What `do_timer` does to the counter of `current`. -/
def doTimer (t : Task) : Task :=
  let counter := long (t.counter - 1)
  { t with counter := if 0 < counter then counter else 0 }

/-- What `sys_fork` gives a child. -/
def child (t : Task) : Task := { t with state := .uninterruptible, counter := t.priority, signal := 0, alarm := 0 }

inductive Event where
  | fork (nr : Nat)
  | nice (increment : Int)
  | tick
  /-- `do_no_page` gives up the processor. -/
  | giveUp
  /-- A task is woken up, goes to sleep, stops, or exits. -/
  | state (nr : Nat) (v : ProcessTree.TaskState)
  | release (nr : Nat)
  /-- Signals, alarms, timeouts and user ids. -/
  | others (nr : Nat) (signal blocked : BitVec 32) (timeout alarm euid : Nat)
  | schedule (fuel : Nat)

def step (s : State) : Event → Option State
  | .fork nr =>
      match s.task s.current with
      | some t =>
          if nr ∈ slots ∧ (s.task nr).isNone then
            some { s with task := fun i => if i = nr then some (child t) else s.task i }
          else none
      | none => none
  | .nice increment => some (s.mapTask s.current (sysNice increment))
  | .tick => some { s.mapTask s.current doTimer with jiffies := s.jiffies + 1 }
  | .giveUp => some (s.mapTask s.current fun t => { t with counter := 0 })
  | .state nr v => some (s.mapTask nr fun t => { t with state := v })
  | .release nr => some { s with task := fun i => if i = nr then none else s.task i }
  | .others nr signal blocked timeout alarm euid =>
      some (s.mapTask nr fun t => { t with signal, blocked, timeout, alarm, euid })
  | .schedule fuel => schedule fuel s

/-- A step that `ok` admits. -/
def Step (ok : State → Event → Prop) (s s' : State) : Prop := ∃ e, ok s e ∧ step s e = some s'

def Reaches (ok : State → Event → Prop) : State → State → Prop := ReflTransGen (Step ok)

/-- `INIT_TASK`. -/
def boot : State where
  task := fun i => if i = 0 then some ⟨.running, 15, 15, 0, 0, 0, 0, 0⟩ else none
  current := 0
  jiffies := 0

/-! ## What is expected -/

/-- There is a task to run, other than task 0. -/
def Runnable (s : State) (i : Nat) : Prop := i ∈ slots ∧ ∃ t, s.task i = some t ∧ t.state = .running

/-- **Where `schedule` switches to.** -/
structure Chooses (s : State) : Prop where
  idle : s.current = 0 ↔ ∀ i, ¬ Runnable s i
  best : s.current ≠ 0 → s.current ∈ slots ∧ ∃ t, s.task s.current = some t ∧ t.state = .running ∧ 0 < t.counter ∧
    ∀ i ∈ slots, ∀ u, s.task i = some u → u.state = .running → u.counter ≤ t.counter

/-- `nice` leaves a priority, and none that the counters cannot bear. -/
def Admits (s : State) : Event → Prop
  | .nice increment => ∀ t, s.task s.current = some t →
      if increment < 0 then t.euid = 0 → t.priority - increment ≤ 2 ^ 30 else increment ≠ t.priority
  | _ => True

/-! ## The scan -/

variable {task : Nat → Option Task}

/-- A runnable task with the counter `c` is at `i`. -/
def RunsAt (task : Nat → Option Task) (i : Nat) (c : Int) : Prop :=
  ∃ t, task i = some t ∧ t.state = .running ∧ t.counter = c

theorem better_of_runsAt {i : Nat} {c : Int} (h : RunsAt task i c) (best : Int × Nat) :
    better task best i = if best.1 < c then (c, i) else best := by
  obtain ⟨t, ht, hrun, rfl⟩ := h
  simp [better, ht, hrun]

theorem better_of_not {i : Nat} (h : ∀ c, ¬ RunsAt task i c) (best : Int × Nat) : better task best i = best := by
  unfold better
  cases ht : task i with
  | none => rfl
  | some t => exact if_neg fun hrun => h t.counter ⟨t, ht, hrun.1, rfl⟩

/-- **What the scan over `l` finds**: the best of what there is in `l` and what it began with. -/
theorem foldl_better (task : Nat → Option Task) (l : List Nat) (best : Int × Nat) :
    let found := l.foldl (better task) best
    (found = best ∨ found.2 ∈ l ∧ RunsAt task found.2 found.1) ∧ best.1 ≤ found.1 ∧
      ∀ i ∈ l, ∀ c, RunsAt task i c → c ≤ found.1 := by
  induction l generalizing best with
  | nil => exact ⟨.inl rfl, le_rfl, nofun⟩
  | cons i l ih =>
      obtain ⟨hfound, hle, hall⟩ := ih (better task best i)
      rw [List.foldl_cons]
      by_cases hruns : ∃ c, RunsAt task i c
      · obtain ⟨c, hc⟩ := hruns
        have hsame : ∀ c', RunsAt task i c' → c' = c := by
          rintro c' ⟨t, ht, -, rfl⟩
          obtain ⟨u, hu, -, rfl⟩ := hc
          rw [ht] at hu
          cases hu
          rfl
        have hbetter := better_of_runsAt hc best
        have hmax : best.1 ≤ (better task best i).1 ∧ c ≤ (better task best i).1 := by
          rw [hbetter]
          split
          · rename_i hlt
            exact ⟨hlt.le, le_rfl⟩
          · rename_i hlt
            exact ⟨le_rfl, not_lt.1 hlt⟩
        refine ⟨?_, hmax.1.trans hle, fun j hj c' hc' => ?_⟩
        · rcases hfound with heq | ⟨hmem, hat⟩
          · rw [heq, hbetter]
            split
            · exact .inr ⟨List.mem_cons_self, hc⟩
            · exact .inl rfl
          · exact .inr ⟨List.mem_cons_of_mem _ hmem, hat⟩
        · rcases List.mem_cons.1 hj with rfl | hj
          · rw [hsame c' hc']
            exact hmax.2.trans hle
          · exact hall j hj c' hc'
      · have hnot : ∀ c, ¬ RunsAt task i c := fun c hc => hruns ⟨c, hc⟩
        rw [better_of_not hnot] at hfound hle hall ⊢
        refine ⟨hfound.imp_right fun ⟨hmem, hat⟩ => ⟨List.mem_cons_of_mem _ hmem, hat⟩, hle, fun j hj c hc => ?_⟩
        rcases List.mem_cons.1 hj with rfl | hj
        · exact absurd hc (hnot c)
        · exact hall j hj c hc

/-- **The scan finds the largest counter**, or task 0 if there is nothing to run. -/
theorem scan_spec (hpos : ∀ i ∈ slots, ∀ c, RunsAt task i c → 0 ≤ c) :
    (scan task = (-1, 0) ∧ ∀ i ∈ slots, ∀ c, ¬ RunsAt task i c) ∨
      (scan task).2 ∈ slots ∧ RunsAt task (scan task).2 (scan task).1 ∧
        ∀ i ∈ slots, ∀ c, RunsAt task i c → c ≤ (scan task).1 := by
  obtain ⟨hfound | ⟨hmem, hat⟩, -, hall⟩ := foldl_better task slots (-1, 0)
  · refine .inl ⟨hfound, fun i hi c hc => ?_⟩
    have hle := hall i hi c hc
    have hnonneg := hpos i hi c hc
    rw [hfound] at hle
    exact absurd (hnonneg.trans hle) (by decide)
  · exact .inr ⟨hmem, hat, hall⟩

/-! ## Counters and priorities -/

/-- `n` is a `long`. -/
theorem long_eq {n : Int} (h : -2 ^ 31 ≤ n) (h' : n < 2 ^ 31) : long n = n := by
  unfold long
  rw [Int.bmod_def]
  omega

/-- What `nice` has to leave. -/
structure Fine (t : Task) : Prop where
  counter : 0 ≤ t.counter
  bound : t.counter < 2 ^ 31
  priority : 0 < t.priority
  limit : t.priority ≤ 2 ^ 30

/-- Every task is fine. -/
def Inv (s : State) : Prop := ∀ i t, s.task i = some t → Fine t

variable {t : Task} {s s' : State}

/-- Tasks with the same counter and priority. -/
theorem Fine.congr {u : Task} (h : Fine t) (hc : u.counter = t.counter) (hp : u.priority = t.priority) : Fine u where
  counter := hc ▸ h.counter
  bound := hc ▸ h.bound
  priority := hp ▸ h.priority
  limit := hp ▸ h.limit

theorem recount_counter (h : Fine t) : (recount t).counter = t.counter / 2 + t.priority := by
  obtain ⟨hc, hb, hp, hl⟩ := h
  exact long_eq (by omega) (by omega)

/-- **A new counter is positive**, and a `long`. -/
theorem Fine.recount (h : Fine t) : Fine (recount t) ∧ 0 < (recount t).counter := by
  have heq := recount_counter h
  obtain ⟨hc, hb, hp, hl⟩ := h
  refine ⟨⟨?_, ?_, hp, hl⟩, ?_⟩ <;> omega

theorem Fine.doTimer (h : Fine t) : Fine (doTimer t) := by
  obtain ⟨hc, hb, hp, hl⟩ := h
  have heq : long (t.counter - 1) = t.counter - 1 := long_eq (by omega) (by omega)
  unfold Schedule.doTimer
  dsimp only
  rw [heq]
  split
  · rename_i hlt
    exact ⟨hlt.le, by dsimp only; omega, hp, hl⟩
  · exact ⟨le_rfl, show (0 : Int) < 2 ^ 31 by decide, hp, hl⟩

/-- `nice` lowers a priority to 1 at least, if it is not asked for exactly the whole. -/
theorem Fine.sysNice (h : Fine t) {increment : Int}
    (hok : if increment < 0 then t.euid = 0 → t.priority - increment ≤ 2 ^ 30 else increment ≠ t.priority) :
    Fine (sysNice increment t) := by
  obtain ⟨hc, hb, hp, hl⟩ := h
  unfold Schedule.sysNice
  split
  · exact ⟨hc, hb, hp, hl⟩
  · rename_i hallowed
    split at hok
    · rename_i hneg
      have hroot : t.euid = 0 := by
        by_contra hroot
        exact hallowed ⟨hneg, hroot⟩
      have hle := hok hroot
      have hnot : ¬ t.priority < increment := by omega
      dsimp only
      rw [if_neg hnot, long_eq (by omega) (by omega)]
      exact ⟨hc, hb, by dsimp only; omega, hle⟩
    · dsimp only
      split
      · rw [long_eq (by omega) (by omega)]
        exact ⟨hc, hb, by dsimp only; omega, by dsimp only; omega⟩
      · rw [long_eq (by omega) (by omega)]
        exact ⟨hc, hb, by dsimp only; omega, by dsimp only; omega⟩

theorem checkAlarm_same (jiffies : Nat) (t : Task) :
    (checkAlarm jiffies t).counter = t.counter ∧ (checkAlarm jiffies t).priority = t.priority := by
  unfold checkAlarm
  dsimp only
  split_ifs <;> exact ⟨rfl, rfl⟩

theorem Inv.mapTask (h : Inv s) (nr : Nat) {f : Task → Task} (hf : ∀ t, s.task nr = some t → Fine t → Fine (f t)) :
    Inv (s.mapTask nr f) := by
  intro i u hu
  unfold State.mapTask at hu
  dsimp only at hu
  split at hu
  · rename_i hi
    obtain ⟨t, ht, rfl⟩ := Option.map_eq_some_iff.1 hu
    exact hf t (hi ▸ ht) (h i t ht)
  · exact h i u hu

theorem Inv.mapAll (h : Inv s) {f : Task → Task} (hf : ∀ t, Fine t → Fine (f t)) : Inv (s.mapAll f) := by
  intro i u hu
  unfold State.mapAll at hu
  dsimp only at hu
  split at hu
  · obtain ⟨t, ht, rfl⟩ := Option.map_eq_some_iff.1 hu
    exact hf t (h i t ht)
  · exact h i u hu

/-! ## The loop ends -/

theorem mapAll_runsAt {i : Nat} (hi : i ∈ slots) {c : Int} (h : RunsAt (s.mapAll recount).task i c) :
    ∃ t, s.task i = some t ∧ t.state = .running ∧ c = (recount t).counter := by
  obtain ⟨u, hu, hrun, rfl⟩ := h
  have hu : (if i ∈ slots then (s.task i).map recount else s.task i) = some u := hu
  rw [if_pos hi] at hu
  obtain ⟨t, ht, rfl⟩ := Option.map_eq_some_iff.1 hu
  exact ⟨t, ht, hrun, rfl⟩

/-- The scan has found a counter that is not zero. -/
theorem chooses_scan (h : Inv s) (hne : (scan s.task).1 ≠ 0) : Chooses { s with current := (scan s.task).2 } := by
  have hpos : ∀ i ∈ slots, ∀ c, RunsAt s.task i c → 0 ≤ c := by
    rintro i - c ⟨t, ht, -, rfl⟩
    exact (h i t ht).counter
  have hzero : (0 : Nat) ∉ slots := by decide
  rcases scan_spec hpos with ⟨hnone, hno⟩ | ⟨hmem, ⟨t, ht, hrun, hc⟩, hall⟩
  · refine ⟨iff_of_true (congrArg Prod.snd hnone) ?_, fun hcur => absurd (congrArg Prod.snd hnone) hcur⟩
    rintro i ⟨hi, t, ht, hrun⟩
    exact hno i hi _ ⟨t, ht, hrun, rfl⟩
  · refine ⟨iff_of_false (fun h0 => hzero (h0 ▸ hmem)) fun hno => hno _ ⟨hmem, t, ht, hrun⟩,
      fun _ => ⟨hmem, t, ht, hrun,
      ?_, fun i hi u hu hrun' => ?_⟩⟩
    · exact lt_of_le_of_ne (h _ t ht).counter (hc ▸ hne.symm)
    · rw [hc]
      exact hall i hi _ ⟨u, hu, hrun', rfl⟩

/-- **The loop ends**, in the second turn at the latest. -/
theorem loop_ends (h : Inv s) : ∃ s', loop 2 s = some s' ∧ Chooses s' ∧ Inv s' := by
  have hinv : Inv (s.mapAll recount) := h.mapAll fun t ht => ht.recount.1
  unfold loop
  dsimp only
  split
  · rename_i hne
    exact ⟨_, rfl, chooses_scan h hne, h⟩
  · rename_i hzero
    have hpos : ∀ i ∈ slots, ∀ c, RunsAt (s.mapAll recount).task i c → 0 < c := by
      intro i hi c hc
      obtain ⟨t, ht, -, rfl⟩ := mapAll_runsAt hi hc
      exact (h i t ht).recount.2
    have hne : (scan (s.mapAll recount).task).1 ≠ 0 := by
      rcases scan_spec fun i hi c hc => (hpos i hi c hc).le with ⟨hnone, -⟩ | ⟨hmem, hat, -⟩
      · rw [hnone]
        decide
      · exact (hpos _ hmem _ hat).ne'
    refine ⟨_, ?_, chooses_scan hinv hne, hinv⟩
    unfold loop
    exact if_pos hne

theorem loop_inv (h : Inv s) {fuel : Nat} (hs : loop fuel s = some s') : Inv s' := by
  induction fuel generalizing s with
  | zero => cases hs
  | succ fuel ih =>
      unfold loop at hs
      dsimp only at hs
      split at hs
      · cases hs
        exact h
      · exact ih (h.mapAll fun t ht => ht.recount.1) hs

theorem Inv.checkAlarm (h : Inv s) : Inv (s.mapAll (checkAlarm s.jiffies)) := by
  refine h.mapAll fun t ht => ?_
  obtain ⟨hc, hp⟩ := checkAlarm_same s.jiffies t
  exact ht.congr hc hp

/-! ## Runs -/

theorem inv_boot : Inv boot := by
  intro i t ht
  unfold boot at ht
  dsimp only at ht
  split at ht
  · cases ht
    exact ⟨by decide, by decide, by decide, by decide⟩
  · cases ht

theorem Inv.step (h : Inv s) {e : Event} (hok : Admits s e) (hs : step s e = some s') : Inv s' := by
  cases e with
  | fork nr =>
      simp only [Schedule.step] at hs
      split at hs
      · rename_i t ht
        split at hs
        · cases hs
          intro i u hu
          dsimp only at hu
          split at hu
          · cases hu
            obtain ⟨-, -, hp, hl⟩ := h _ t ht
            exact ⟨hp.le, by dsimp only [child]; omega, hp, hl⟩
          · exact h i u hu
        · cases hs
      · cases hs
  | nice increment =>
      cases hs
      exact h.mapTask _ fun t ht hfine => hfine.sysNice (hok t ht)
  | tick =>
      cases hs
      exact h.mapTask _ fun t _ hfine => hfine.doTimer
  | giveUp =>
      cases hs
      exact h.mapTask _ fun t _ hfine => ⟨le_rfl, show (0 : Int) < 2 ^ 31 by decide, hfine.priority, hfine.limit⟩
  | state nr v =>
      cases hs
      exact h.mapTask _ fun t _ hfine => hfine.congr rfl rfl
  | release nr =>
      cases hs
      intro i u hu
      dsimp only at hu
      split at hu
      · cases hu
      · exact h i u hu
  | others nr signal blocked timeout alarm euid =>
      cases hs
      exact h.mapTask _ fun t _ hfine => hfine.congr rfl rfl
  | schedule fuel => exact loop_inv h.checkAlarm hs

theorem Inv.reaches (h : Inv s) (hr : Reaches Admits s s') : Inv s' := by
  induction hr with
  | refl => exact h
  | tail _ hstep ih =>
      obtain ⟨e, hok, hs⟩ := hstep
      exact ih.step hok hs

/-- **`schedule` ends, and runs the right task**, in every state that is reached with `nice` used so. -/
theorem schedule_chooses (hr : Reaches Admits boot s) : ∃ s', schedule 2 s = some s' ∧ Chooses s' := by
  obtain ⟨s', hs', hchooses, -⟩ := loop_ends (inv_boot.reaches hr).checkAlarm
  exact ⟨s', hs', hchooses⟩

/-- Task 0 has made init. -/
theorem schedule_chooses_init : ∃ s s', s.task 1 ≠ none ∧ schedule 2 s = some s' ∧ Chooses s' := by
  have hfork : Step Admits boot _ := ⟨.fork 1, trivial, rfl⟩
  obtain ⟨s', hs', hchooses⟩ := schedule_chooses (.single hfork)
  exact ⟨_, s', by simp, hs', hchooses⟩

/-! ## Without a priority -/

/-- There is something to run, and nothing that would ever give it a counter. -/
structure Spent (s : State) : Prop where
  runnable : ∃ i, Runnable s i
  spent : ∀ i ∈ slots, ∀ t, s.task i = some t → t.state = .running → t.counter = 0 ∧ t.priority = 0

theorem Spent.scan (h : Spent s) : (scan s.task).1 = 0 := by
  have hzero : ∀ i ∈ slots, ∀ c, RunsAt s.task i c → c = 0 := by
    rintro i hi c ⟨t, ht, hrun, rfl⟩
    exact (h.spent i hi t ht hrun).1
  rcases scan_spec fun i hi c hc => (hzero i hi c hc).ge with ⟨-, hno⟩ | ⟨hmem, hat, -⟩
  · obtain ⟨i, hi, t, ht, hrun⟩ := h.runnable
    exact absurd ⟨t, ht, hrun, rfl⟩ (hno i hi t.counter)
  · exact hzero _ hmem _ hat

theorem Spent.recount (h : Spent s) : Spent (s.mapAll recount) := by
  have hat : ∀ i ∈ slots, (s.mapAll Schedule.recount).task i = (s.task i).map Schedule.recount := fun i hi => if_pos hi
  refine ⟨?_, fun i hi u hu hrun => ?_⟩
  · obtain ⟨i, hi, t, ht, hrun⟩ := h.runnable
    refine ⟨i, hi, Schedule.recount t, ?_, hrun⟩
    rw [hat i hi, ht]
    rfl
  · rw [hat i hi] at hu
    obtain ⟨t, ht, rfl⟩ := Option.map_eq_some_iff.1 hu
    obtain ⟨hc, hp⟩ := h.spent i hi t ht hrun
    refine ⟨?_, hp⟩
    unfold Schedule.recount
    dsimp only
    rw [hc, hp]
    rfl

/-- **There is no end then.** -/
theorem scan_fails (h : Spent s) (fuel : Nat) : loop fuel s = none := by
  induction fuel generalizing s with
  | zero => rfl
  | succ fuel ih =>
      unfold loop
      dsimp only
      rw [if_neg (not_not.2 h.scan)]
      exact ih h.recount

/-- What happens one after the other. -/
def runs (s : State) : List Event → Option State
  | [] => some s
  | e :: es => (step s e).bind fun s => runs s es

theorem reaches_of_runs {es : List Event} (h : runs s es = some s') : Reaches (fun _ _ => True) s s' := by
  induction es generalizing s with
  | nil =>
      cases h
      exact .refl
  | cons e es ih =>
      obtain ⟨s₁, hs, h⟩ := Option.bind_eq_some_iff.1 h
      exact .head ⟨e, trivial, hs⟩ (ih h)

theorem checkAlarm_running (jiffies : Nat) {t : Task} (h : t.state = .running) :
    (checkAlarm jiffies t).state = .running := by
  unfold checkAlarm
  dsimp only
  split_ifs <;> simp [h]

/-- Alarms and signals make no difference to a task that runs alone. -/
theorem spent_of_alone {t : Task} (hothers : ∀ i ∈ slots, i ≠ 1 → s.task i = none) (ht : s.task 1 = some t)
    (hrun : t.state = .running) (hc : t.counter = 0) (hp : t.priority = 0) :
    Spent (s.mapAll (checkAlarm s.jiffies)) := by
  have hat : ∀ i ∈ slots, (s.mapAll (checkAlarm s.jiffies)).task i = (s.task i).map (checkAlarm s.jiffies) :=
    fun i hi => if_pos hi
  have hone : 1 ∈ slots := by decide
  refine ⟨⟨1, hone, checkAlarm s.jiffies t, ?_, checkAlarm_running _ hrun⟩, fun i hi u hu _ => ?_⟩
  · rw [hat 1 hone, ht]
    rfl
  · rw [hat i hi] at hu
    obtain ⟨v, hv, rfl⟩ := Option.map_eq_some_iff.1 hu
    by_cases hi1 : i = 1
    · subst hi1
      rw [ht] at hv
      cases hv
      obtain ⟨hc', hp'⟩ := checkAlarm_same s.jiffies t
      exact ⟨hc'.trans hc, hp'.trans hp⟩
    · rw [hothers i hi hi1] at hv
      cases hv

set_option maxRecDepth 4000 in
/-- **A task that asks `nice` for its whole priority** stops the system, when nothing else is to run. -/
theorem nice_ends : ∃ s, Reaches (fun _ _ => True) boot s ∧ ∀ fuel, schedule fuel s = none := by
  let used : List Event := [.fork 1, .state 1 .running, .schedule 2, .nice 15] ++ List.replicate 15 .tick
  have hrun : ∃ s t, runs boot used = some s ∧ (∀ i ∈ slots, i ≠ 1 → s.task i = none) ∧ s.task 1 = some t ∧
      t.state = .running ∧ t.counter = 0 ∧ t.priority = 0 := by
    refine ⟨_, _, rfl, ?_, rfl, rfl, rfl, rfl⟩
    decide
  obtain ⟨s, t, hs, hothers, ht, hrun, hc, hp⟩ := hrun
  exact ⟨s, reaches_of_runs hs, scan_fails (spent_of_alone hothers ht hrun hc hp)⟩

end Schedule
end Sched
end Linux095
