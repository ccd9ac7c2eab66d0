import Linux095.Sched.ProcessTree
import Mathlib.Data.List.Perm.Subperm
import Mathlib.Data.List.FinRange
import Mathlib.Algebra.Order.Ring.Int

/-!
# `Kernel.Groups` — process ids, process groups and sessions (`kernel/fork.c`, `kernel/sys.c`, `kernel/exit.c`)

A task has a process id of its own, and is in a process group and in a session, which it inherits. A group is named by
the process id of the task that founded it, and so is a session.

* `findEmptyProcess`, `sessionOfPgrp`, `sysSetpgid`, `sysSetsid` — the source's functions;
* `Step` — what tasks do one after the other; `fork` and `waitpid` may sleep half-way;
* `pids_distinct` — **no two tasks have one process id**, and the search for a new one ends;
* `groups_in_sessions` — **a process group is in one session**, if no task leaves its group's members behind with
  `setsid`, and `setpgid` does not take an empty slot for a task; `setsid_splits` shows what happens if one does.
-/

namespace Linux095
namespace Kernel
namespace Groups
open Relation Seq Prog
open Sched.ProcessTree (Tasks Task TaskState Off Call Pc Config NR_TASKS slots)

def EPERM : Int := 1
def ESRCH : Int := 3
def EINVAL : Int := 22

/-! ## `fork` -/

/-- `if ((++last_pid)<0) last_pid=1;` -/
def nextPid (lastPid : Int) : Int :=
  let n := (lastPid + 1).bmod (2 ^ 32)
  if n < 0 then 1 else n

/-- A task has this process id, or is in this process group. -/
def inUse (s : Tasks) (n : Int) : Bool :=
  (List.range NR_TASKS).any fun i => (s.task i).any fun p => (s.page p).pid == n || (s.page p).pgrp == n

/-- `repeat` in `find_empty_process`; `none` only if it does not end. -/
def searchPid : Nat → Int → Tasks → Option Int
  | 0, _, _ => none
  | fuel + 1, lastPid, s =>
      let n := nextPid lastPid
      if inUse s n then searchPid fuel n s else some n

/-- The slot that `find_empty_process` finds; `none` is -EAGAIN. -/
def findEmptySlot (s : Tasks) : Option Nat := (List.range' 1 (NR_TASKS - 1)).find? fun i => (s.task i).isNone

/-! ## `setpgid` and `setsid` -/

/-- What is at the places of `pgrp` and `session` when a pointer to a task is NULL. -/
structure Page0 where
  pgrp : Int
  session : Int

/-- `*p`, for the slot `i`. -/
def pgrpAt (zero : Page0) (s : Tasks) (i : Nat) : Int := (s.task i).elim zero.pgrp fun p => (s.page p).pgrp

def sessionAt (zero : Page0) (s : Tasks) (i : Nat) : Int := (s.task i).elim zero.session fun p => (s.page p).session

/-- `session_of_pgrp`. It does not ask whether a slot is empty. -/
def sessionOfPgrp (zero : Page0) (pgrp : Int) (s : Tasks) : Int :=
  match slots.find? fun i => pgrpAt zero s i == pgrp with
  | some i => sessionAt zero s i
  | none => -1

/-- The task that `sys_setpgid` finds: `current` or one of its children. -/
def findTask (current : Nat) (pid : Int) (s : Tasks) : Option Nat :=
  (List.range NR_TASKS).findSome? fun i =>
    (s.task i).filter fun p => (s.page p).pid == pid && ((s.page p).pptr == current || p == current)

/-- `sys_setpgid`: what it returns, and the tasks then. -/
def sysSetpgid (zero : Page0) (current : Nat) (pid pgid : Int) (s : Tasks) : Int × Tasks :=
  let me := s.page current
  let pid := if pid = 0 then me.pid else pid
  let pgid := if pgid = 0 then me.pid else pgid
  if pgid < 0 then (-EINVAL, s)
  else
    match findTask current pid s with
    | none => (-ESRCH, s)
    | some p =>
        if (s.page p).leader then (-EPERM, s)
        else if (s.page p).session ≠ me.session ∨ pgid ≠ pid ∧ sessionOfPgrp zero pgid s ≠ me.session then (-EPERM, s)
        else (0, s.set p fun t => { t with pgrp := pgid })

/-- `sys_setsid`, without `current->tty`. -/
def sysSetsid (current : Nat) (suser : Bool) (s : Tasks) : Int × Tasks :=
  let me := s.page current
  if me.leader ∧ ¬ suser then (-EPERM, s)
  else (me.pid, s.set current fun t => { t with leader := true, session := t.pid, pgrp := t.pid })

/-! ## Runs -/

structure State where
  tree : Config
  lastPid : Int

namespace State

def tasks (s : State) : Tasks := s.tree.tasks

/-- `t` goes to `q`, and the tasks become those of `tasks`. -/
def next (s : State) (t : Nat) (q : Pc) (tasks : Tasks) : State :=
  { s with tree := ({ s.tree with tasks } : Config).goto t q }

end State

/-- Calls that the conditions below are about. -/
inductive Event where
  | setpgid (zero : Page0) (t : Nat) (pid pgid : Int)
  | setsid (t : Nat) (suser : Bool)

/-- One step. -/
inductive Step (ok : State → Event → Prop) : State → State → Prop
  | fork {s : State} {t p nr fuel : Nat} {pid : Int} (ht : s.tree.Runs t) (hpc : s.tree.pc t = .run)
      (hp : ¬ s.tasks.Live p) (hzero : s.tasks.task 0 ≠ some p) (hpid : searchPid fuel s.lastPid s.tasks = some pid)
      (hnr : findEmptySlot s.tasks = some nr) :
      Step ok s { s.next t (.forking p) (Sched.ProcessTree.fork t p nr pid s.tasks) with lastPid := pid }
  /-- There is no slot. -/
  | forkAgain {s : State} {t fuel : Nat} {pid : Int} (ht : s.tree.Runs t) (hpc : s.tree.pc t = .run)
      (hpid : searchPid fuel s.lastPid s.tasks = some pid) (hnr : findEmptySlot s.tasks = none) :
      Step ok s { s with lastPid := pid }
  | forkDone {s : State} {t p : Nat} (ht : s.tree.Linked t) (hpc : s.tree.pc t = .forking p) :
      Step ok s (s.next t .run (Sched.ProcessTree.forkDone t p s.tasks))
  /-- There is no memory. -/
  | forkFail {s : State} {t p nr : Nat} (ht : s.tree.Linked t) (hpc : s.tree.pc t = .forking p)
      (hnr : 0 < nr ∧ nr < NR_TASKS) (hp : s.tasks.task nr = some p) :
      Step ok s (s.next t .run (s.tasks.setTask nr none))
  | setpgid {s : State} {t : Nat} (zero : Page0) (pid pgid : Int) (ht : s.tree.Runs t) (hpc : s.tree.pc t = .run)
      (hok : ok s (.setpgid zero t pid pgid)) : Step ok s (s.next t .run (sysSetpgid zero t pid pgid s.tasks).2)
  | setsid {s : State} {t : Nat} (suser : Bool) (ht : s.tree.Runs t) (hpc : s.tree.pc t = .run)
      (hok : ok s (.setsid t suser)) : Step ok s (s.next t .run (sysSetsid t suser s.tasks).2)
  | exit {s : State} {t : Nat} {tasks : Tasks} (tty : Option Int) (ht : s.tree.Runs t)
      (hpc : ∀ p, s.tree.pc t ≠ .forking p) (hs : Sched.ProcessTree.doExit t tty s.tasks = .ok ((), tasks)) :
      Step ok s (s.next t .run tasks)
  /-- `schedule()` half-way through `do_exit`. -/
  | exitGone {s : State} {t : Nat} {tasks : Tasks} (tty : Option Int) (ht : s.tree.Runs t)
      (hpc : ∀ p, s.tree.pc t ≠ .forking p) (hs : Sched.ProcessTree.doExit t tty s.tasks = .error (.gone tasks)) :
      Step ok s (s.next t .run tasks)
  /-- The loop of `sys_waitpid` finds a zombie. -/
  | wait {s : State} {t p : Nat} (ht : s.tree.Runs t) (hpc : s.tree.pc t = .run)
      (hp : Links.Reaches (fun x => (s.tasks.page x).osptr) p (s.tasks.page t).cptr)
      (hz : (s.tasks.page p).state = .zombie) : Step ok s (s.next t (.reaping p) s.tasks)
  | release {s : State} {t p nr : Nat} (ht : s.tree.Linked t) (hpc : s.tree.pc t = .reaping p)
      (hnr : 0 < nr ∧ nr < NR_TASKS) (hp : s.tasks.task nr = some p) :
      Step ok s (s.next t .run (Sched.ProcessTree.release p nr s.tasks))
  /-- Sleeping, waking up, signals and `ptrace`. -/
  | other {s : State} {t : Nat} (v : TaskState) (ptraced : Bool) :
      Step ok s { s with tree := { s.tree with
        tasks := s.tasks.set t fun x => { x with state := v, ptraced } } }

def Reaches (ok : State → Event → Prop) : State → State → Prop := ReflTransGen (Step ok)

/-- A task of the boot. -/
def task0 (pid : Int) : Task := ⟨.running, pid, 0, 0, false, false, 0, none, none, none⟩

/-- Task 0 has made init. -/
def boot : State where
  tree := {
    tasks := {
      task := fun i => if i < 2 then some i else none
      page := fun p => if p = 0 then { task0 0 with cptr := some 1 } else task0 1 }
    pc := fun _ => .run }
  lastPid := 1

/-! ## What is expected -/

/-- The task in the slot `i`, which is not task 0. -/
def At (s : Tasks) (i p : Nat) : Prop := 0 < i ∧ i < NR_TASKS ∧ s.task i = some p

/-- **Process ids**: those of tasks are positive and distinct, and there is always another. -/
structure Distinct (s : State) : Prop where
  positive : ∀ i p, At s.tasks i p → 0 < (s.tasks.page p).pid
  distinct : ∀ i j p q, At s.tasks i p → At s.tasks j q → (s.tasks.page p).pid = (s.tasks.page q).pid → i = j
  /-- The search ends after as many steps as there may be process ids and groups, and one more. -/
  ends : ∃ n, searchPid (2 * NR_TASKS + 1) s.lastPid s.tasks = some n
  /-- The one that is found is new. -/
  fresh : ∀ fuel n, searchPid fuel s.lastPid s.tasks = some n → 0 < n ∧
    ∀ i < NR_TASKS, ∀ p, s.tasks.task i = some p → (s.tasks.page p).pid ≠ n ∧ (s.tasks.page p).pgrp ≠ n

/-- **Tasks of one process group are in one session.** -/
def Together (s : State) : Prop := ∀ i j p q, At s.tasks i p → At s.tasks j q →
  (s.tasks.page p).pgrp = (s.tasks.page q).pgrp → (s.tasks.page p).session = (s.tasks.page q).session

/-- The empty slot that `session_of_pgrp` takes for a task in the group `pgid`, if it does. -/
def mistaken (zero : Page0) (pgid : Int) (s : Tasks) : Bool :=
  match slots.find? fun i => pgrpAt zero s i == pgid with
  | some i => (s.task i).isNone
  | none => false

/-- `setsid` leaves no member of its new group in another session, and `setpgid` mistakes no empty slot for a task of
its session. -/
def Admits (s : State) : Event → Prop
  | .setsid t suser => ((s.tasks.page t).leader = true → suser = true) → ∀ i q, At s.tasks i q → q ≠ t →
      (s.tasks.page q).pgrp = (s.tasks.page t).pid → (s.tasks.page q).session = (s.tasks.page t).pid
  | .setpgid zero t _ pgid =>
      mistaken zero (if pgid = 0 then (s.tasks.page t).pid else pgid) s.tasks = true →
        zero.session ≠ (s.tasks.page t).session

/-! ## Ids alone -/

/-- What a slot says about ids. -/
structure Ids where
  pid : Int
  pgrp : Int
  session : Int

abbrev Table : Type := Nat → Option Ids

/-- The ids of a task. -/
def idsOf (t : Task) : Ids := ⟨t.pid, t.pgrp, t.session⟩

/-- The ids in `task[]`, without those of task 0. -/
def view (s : Tasks) : Table := fun i =>
  if 0 < i ∧ i < NR_TASKS then (s.task i).map fun p => idsOf (s.page p) else none

/-- **What a step can do to the ids.** What `setpgid` and `setsid` have found out counts only if the step is
`careful`. -/
inductive Change (careful : Prop) (V : Table) : Table → Prop
  | same : Change careful V V
  /-- `fork`. -/
  | add {i nr : Nat} {x : Ids} (pid : Int) (hx : V i = some x) (hnr : V nr = none) (hpos : 0 < pid)
      (hfresh : ∀ j y, V j = some y → y.pid ≠ pid ∧ y.pgrp ≠ pid) :
      Change careful V (Function.update V nr (some { x with pid }))
  | remove (nr : Nat) : Change careful V (Function.update V nr none)
  /-- `setpgid`. -/
  | regroup {i : Nat} {x : Ids} (pgrp : Int) (hx : V i = some x)
      (hpgrp : careful → pgrp = x.pid ∨ ∃ j y, V j = some y ∧ y.pgrp = pgrp ∧ y.session = x.session) :
      Change careful V (Function.update V i (some { x with pgrp }))
  /-- `setsid`. -/
  | leave {i : Nat} {x : Ids} (hx : V i = some x)
      (hothers : careful → ∀ j y, V j = some y → j ≠ i → y.pgrp = x.pid → y.session = x.pid) :
      Change careful V (Function.update V i (some ⟨x.pid, x.pid, x.pid⟩))

/-- **Ids are sane**, whatever is done. -/
structure Sane (V : Table) : Prop where
  positive : ∀ i x, V i = some x → 0 < x.pid
  distinct : ∀ i j x y, V i = some x → V j = some y → x.pid = y.pid → i = j
  session : ∀ i x, V i = some x → 0 ≤ x.session

/-- Groups are in sessions, and so is the group that a task has founded, or could found. -/
structure Grouped (V : Table) : Prop where
  together : ∀ i j x y, V i = some x → V j = some y → x.pgrp = y.pgrp → x.session = y.session
  founder : ∀ i j x y, V i = some x → V j = some y → y.pgrp = x.pid → y.session = x.session

section

variable {careful : Prop} {V V' : Table}

/-- An entry of a table where one has changed. -/
theorem update_cases {nr i : Nat} {o : Option Ids} {x : Ids} (h : Function.update V nr o i = some x) :
    i = nr ∧ o = some x ∨ i ≠ nr ∧ V i = some x := by
  by_cases hi : i = nr
  · subst hi
    exact .inl ⟨rfl, by rwa [Function.update_self] at h⟩
  · exact .inr ⟨hi, by rwa [Function.update_of_ne hi] at h⟩

/-- The entry keeps its process id. -/
theorem Sane.update (h : Sane V) {i : Nat} {x x' : Ids} (hx : V i = some x) (hpid : x'.pid = x.pid)
    (hsession : 0 ≤ x'.session) : Sane (Function.update V i (some x')) where
  positive j y hy := by
    rcases update_cases hy with ⟨rfl, hy'⟩ | ⟨-, hy'⟩
    · cases hy'
      exact hpid ▸ h.positive j x hx
    · exact h.positive j y hy'
  distinct j k y z hy hz heq := by
    rcases update_cases hy with ⟨rfl, hy'⟩ | ⟨-, hy'⟩ <;> rcases update_cases hz with ⟨rfl, hz'⟩ | ⟨-, hz'⟩
    · rfl
    · cases hy'
      exact h.distinct j k x z hx hz' (hpid ▸ heq)
    · cases hz'
      exact h.distinct j k y x hy' hx (hpid ▸ heq)
    · exact h.distinct j k y z hy' hz' heq
  session j y hy := by
    rcases update_cases hy with ⟨rfl, hy'⟩ | ⟨-, hy'⟩
    · cases hy'
      exact hsession
    · exact h.session j y hy'

/-- A new entry has a process id of its own. -/
theorem Sane.add (h : Sane V) {nr : Nat} {x : Ids} (hpos : 0 < x.pid) (hsession : 0 ≤ x.session)
    (hfresh : ∀ j y, V j = some y → y.pid ≠ x.pid) : Sane (Function.update V nr (some x)) where
  positive j y hy := by
    rcases update_cases hy with ⟨-, hy'⟩ | ⟨-, hy'⟩
    · cases hy'
      exact hpos
    · exact h.positive j y hy'
  distinct j k y z hy hz heq := by
    rcases update_cases hy with ⟨rfl, hy'⟩ | ⟨-, hy'⟩ <;> rcases update_cases hz with ⟨rfl, hz'⟩ | ⟨-, hz'⟩
    · rfl
    · cases hy'
      exact absurd heq.symm (hfresh k z hz')
    · cases hz'
      exact absurd heq (hfresh j y hy')
    · exact h.distinct j k y z hy' hz' heq
  session j y hy := by
    rcases update_cases hy with ⟨-, hy'⟩ | ⟨-, hy'⟩
    · cases hy'
      exact hsession
    · exact h.session j y hy'

/-- Nothing is said of fewer entries that was not said before. -/
theorem of_removed {nr j : Nat} {y : Ids} (hy : Function.update V nr none j = some y) : V j = some y := by
  rcases update_cases hy with ⟨-, hy'⟩ | ⟨-, hy'⟩
  · cases hy'
  · exact hy'

/-- What counts under one condition counts under a stronger one. -/
theorem Change.mono {careful' : Prop} (h : Change careful V V') (himp : careful' → careful) : Change careful' V V' := by
  cases h with
  | same => exact .same
  | add pid hx hnr hpos hfresh => exact .add pid hx hnr hpos hfresh
  | remove nr => exact .remove nr
  | regroup pgrp hx hpgrp => exact .regroup pgrp hx fun hc => hpgrp (himp hc)
  | leave hx hothers => exact .leave hx fun hc => hothers (himp hc)

theorem Sane.change (h : Sane V) (hc : Change careful V V') : Sane V' := by
  cases hc with
  | same => exact h
  | @add i nr x pid hx hnr hpos hfresh => exact h.add hpos (h.session i x hx) fun j y hy => (hfresh j y hy).1
  | remove nr =>
      exact ⟨fun j y hy => h.positive j y (of_removed hy),
        fun j k y z hy hz => h.distinct j k y z (of_removed hy) (of_removed hz),
        fun j y hy => h.session j y (of_removed hy)⟩
  | @regroup i x pgrp hx _ => exact h.update hx rfl (h.session i x hx)
  | @leave i x hx _ => exact h.update hx rfl (h.positive i x hx).le

/-- A new task is in the group and the session of its parent, and no group has its process id yet. -/
theorem Grouped.add (h : Grouped V) {i nr : Nat} {x : Ids} {pid : Int} (hx : V i = some x)
    (hfresh : ∀ j y, V j = some y → y.pid ≠ pid ∧ y.pgrp ≠ pid) :
    Grouped (Function.update V nr (some { x with pid })) := by
  -- The new task has the group and the session of an old one.
  have hlike : ∀ {j y}, Function.update V nr (some { x with pid }) j = some y →
      ∃ k z, V k = some z ∧ z.pgrp = y.pgrp ∧ z.session = y.session := fun {j y} hy => by
    rcases update_cases hy with ⟨-, hy⟩ | ⟨-, hy⟩
    · cases hy
      exact ⟨i, x, hx, rfl, rfl⟩
    · exact ⟨j, y, hy, rfl, rfl⟩
  refine ⟨fun j k y z hy hz heq => ?_, fun j k y z hy hz heq => ?_⟩
  · obtain ⟨j', y', hy', hgroup, hsession⟩ := hlike hy
    obtain ⟨k', z', hz', hgroup', hsession'⟩ := hlike hz
    rw [← hsession, ← hsession']
    exact h.together j' k' y' z' hy' hz' (by rw [hgroup, hgroup', heq])
  · obtain ⟨k', z', hz', hgroup', hsession'⟩ := hlike hz
    rw [← hsession']
    rcases update_cases hy with ⟨-, hy'⟩ | ⟨-, hy'⟩
    · cases hy'
      exact absurd (hgroup'.trans heq) (hfresh k' z' hz').2
    · exact h.founder j k' y z' hy' hz' (hgroup'.trans heq)

/-- A task gets another group and session, where it agrees with all others. -/
theorem Grouped.update (h : Grouped V) {i : Nat} {x x' : Ids} (hx : V i = some x)
    (hpid : x'.pid = x.pid)
    (hmember : ∀ j y, V j = some y → j ≠ i → y.pgrp = x'.pgrp → y.session = x'.session)
    (hfounder : ∀ j y, V j = some y → j ≠ i → x'.pgrp = y.pid → x'.session = y.session)
    (hfounded : ∀ j y, V j = some y → j ≠ i → y.pgrp = x.pid → y.session = x'.session) :
    Grouped (Function.update V i (some x')) := by
  refine ⟨fun j k y z hy hz heq => ?_, fun j k y z hy hz heq => ?_⟩
  · rcases update_cases hy with ⟨rfl, hy'⟩ | ⟨hj, hy'⟩ <;> rcases update_cases hz with ⟨rfl, hz'⟩ | ⟨hk, hz'⟩
    · cases hy'
      cases hz'
      rfl
    · cases hy'
      exact (hmember k z hz' hk heq.symm).symm
    · cases hz'
      exact hmember j y hy' hj heq
    · exact h.together j k y z hy' hz' heq
  · rcases update_cases hy with ⟨rfl, hy'⟩ | ⟨hj, hy'⟩ <;> rcases update_cases hz with ⟨rfl, hz'⟩ | ⟨hk, hz'⟩
    · cases hy'
      cases hz'
      rfl
    · cases hy'
      exact hfounded k z hz' hk (heq.trans hpid)
    · cases hz'
      exact hfounder j y hy' hj heq
    · exact h.founder j k y z hy' hz' heq

/-- **A careful step keeps groups in sessions.** -/
theorem Grouped.change (h : Grouped V) (hV : Sane V) (hcareful : careful) (hc : Change careful V V') :
    Grouped V' := by
  cases hc with
  | same => exact h
  | add pid hx hnr hpos hfresh => exact h.add hx hfresh
  | remove nr =>
      exact ⟨fun j k y z hy hz => h.together j k y z (of_removed hy) (of_removed hz),
        fun j k y z hy hz => h.founder j k y z (of_removed hy) (of_removed hz)⟩
  | @regroup i x pgrp hx hpgrp =>
      -- It founds the group of its own process id, or joins one of its session.
      refine h.update hx rfl (fun j y hy _ heq => ?_) (fun j y hy hj heq => ?_)
        fun j y hy _ heq => h.founder i j x y hx hy heq
      · rcases hpgrp hcareful with rfl | ⟨k, z, hz, hgroup, hsession⟩
        · exact h.founder i j x y hx hy heq
        · rw [show Ids.session { x with pgrp } = x.session from rfl, ← hsession]
          exact h.together j k y z hy hz (heq.trans hgroup.symm)
      · rcases hpgrp hcareful with rfl | ⟨k, z, hz, hgroup, hsession⟩
        · exact absurd (hV.distinct j i y x hy hx heq.symm) hj
        · rw [show Ids.session { x with pgrp } = x.session from rfl, ← hsession]
          exact h.founder j k y z hy hz (hgroup.trans heq)
  | @leave i x hx hothers =>
      have hothers := hothers hcareful
      refine h.update hx rfl (fun j y hy hj heq => hothers j y hy hj heq) (fun j y hy hj heq => ?_)
        fun j y hy hj heq => hothers j y hy hj heq
      exact absurd (hV.distinct j i y x hy hx heq.symm) hj

end

/-! ## The search -/

/-- How many process ids there are. -/
def PIDS : Int := 2 ^ 31 - 1

theorem nextPid_eq {n : Int} (h : 0 ≤ n) (h' : n < 2 ^ 31) : nextPid n = n % PIDS + 1 := by
  unfold nextPid PIDS
  rw [Int.bmod_def]
  dsimp only
  split_ifs <;> omega

/-- The process ids that the search tries. -/
def candidate (lastPid : Int) (k : Nat) : Int := (lastPid + k) % PIDS + 1

theorem candidate_range (n : Int) (k : Nat) : 0 < candidate n k ∧ candidate n k < 2 ^ 31 := by
  unfold candidate PIDS
  omega

theorem candidate_succ {n : Int} (h : 0 ≤ n) (h' : n < 2 ^ 31) (k : Nat) :
    candidate (nextPid n) k = candidate n (k + 1) := by
  rw [nextPid_eq h h']
  unfold candidate PIDS
  push_cast
  omega

theorem candidate_zero {n : Int} (h : 0 ≤ n) (h' : n < 2 ^ 31) : nextPid n = candidate n 0 := by
  rw [nextPid_eq h h', candidate]
  simp

/-- There are many different ones. -/
theorem candidate_inj {n : Int} {j k : Nat} (hj : j < 2 * NR_TASKS + 1) (hk : k < 2 * NR_TASKS + 1)
    (h : candidate n j = candidate n k) : j = k := by
  unfold candidate PIDS at h
  unfold NR_TASKS at hj hk
  omega

/-- **What the search finds**: the first of them that is not in use. -/
theorem searchPid_spec {fuel : Nat} {n pid : Int} {s : Tasks} (h : 0 ≤ n) (h' : n < 2 ^ 31)
    (hs : searchPid fuel n s = some pid) : inUse s pid = false ∧ 0 < pid ∧ pid < 2 ^ 31 := by
  induction fuel generalizing n with
  | zero => cases hs
  | succ fuel ih =>
      obtain ⟨hpos, hlt⟩ := candidate_range n 0
      rw [← candidate_zero h h'] at hpos hlt
      unfold searchPid at hs
      dsimp only at hs
      split at hs
      · exact ih hpos.le hlt hs
      · rename_i hfree
        cases hs
        exact ⟨Bool.eq_false_of_not_eq_true hfree, hpos, hlt⟩

theorem searchPid_eq_none {fuel : Nat} {n : Int} {s : Tasks} (h : 0 ≤ n) (h' : n < 2 ^ 31)
    (hs : searchPid fuel n s = none) : ∀ k < fuel, inUse s (candidate n k) = true := by
  induction fuel generalizing n with
  | zero => exact fun k hk => absurd hk (Nat.not_lt_zero k)
  | succ fuel ih =>
      obtain ⟨hpos, hlt⟩ := candidate_range n 0
      rw [← candidate_zero h h'] at hpos hlt
      unfold searchPid at hs
      dsimp only at hs
      split at hs
      · rename_i hused
        rintro (_ | k) hk
        · rw [← candidate_zero h h']
          exact hused
        · rw [← candidate_succ h h']
          exact ih hpos.le hlt hs k (Nat.lt_of_succ_lt_succ hk)
      · cases hs

/-- The process ids and groups of the slot `i`. -/
def usedAt (s : Tasks) (i : Nat) : List Int :=
  (s.task i).elim [] fun p => [(s.page p).pid, (s.page p).pgrp]

theorem inUse_iff {s : Tasks} {n : Int} : inUse s n = true ↔ n ∈ (List.range NR_TASKS).flatMap (usedAt s) := by
  unfold inUse
  rw [List.any_eq_true, List.mem_flatMap]
  refine exists_congr fun i => and_congr_right fun _ => ?_
  unfold usedAt
  cases s.task i with
  | none => simp
  | some p =>
      simp only [Option.any_some, Option.elim_some, Bool.or_eq_true, beq_iff_eq, List.mem_cons, List.not_mem_nil,
        or_false]
      exact or_congr eq_comm eq_comm

theorem length_flatMap_le {l : List Nat} {f : Nat → List Int} (h : ∀ i, (f i).length ≤ 2) :
    (l.flatMap f).length ≤ 2 * l.length := by
  induction l with
  | nil => exact le_rfl
  | cons i l ih =>
      have := h i
      rw [List.flatMap_cons, List.length_append, List.length_cons]
      omega

/-- **The search ends**: not all that it tries can be in use. -/
theorem searchPid_ends {n : Int} (h : 0 ≤ n) (h' : n < 2 ^ 31) (s : Tasks) :
    ∃ pid, searchPid (2 * NR_TASKS + 1) n s = some pid := by
  rw [← Option.ne_none_iff_exists']
  intro hnone
  have hused := searchPid_eq_none h h' hnone
  let tried := (List.range (2 * NR_TASKS + 1)).map (candidate n)
  have hnodup : tried.Nodup := by
    refine List.Nodup.map_on (fun j hj k hk heq => ?_) List.nodup_range
    exact candidate_inj (List.mem_range.1 hj) (List.mem_range.1 hk) heq
  have hsub : tried ⊆ (List.range NR_TASKS).flatMap (usedAt s) := fun x hx => by
    obtain ⟨k, hk, rfl⟩ := List.mem_map.1 hx
    exact inUse_iff.1 (hused k (List.mem_range.1 hk))
  have hle := (List.subperm_of_subset hnodup hsub).length_le
  have hbound : ((List.range NR_TASKS).flatMap (usedAt s)).length ≤ 2 * (List.range NR_TASKS).length := by
    refine length_flatMap_le fun i => ?_
    unfold usedAt
    cases s.task i with
    | none => exact Nat.zero_le 2
    | some p => exact le_rfl
  rw [List.length_map, List.length_range] at hle
  rw [List.length_range] at hbound
  omega

/-! ## Calls that leave the ids alone -/

/-- The same tasks, with the same ids. -/
structure SameIds (s s' : Tasks) : Prop where
  task : s'.task = s.task
  ids : ∀ x, idsOf (s'.page x) = idsOf (s.page x)

namespace SameIds

variable {s s' s'' : Tasks}

theorem refl (s : Tasks) : SameIds s s := ⟨rfl, fun _ => rfl⟩

theorem trans (h : SameIds s s') (h' : SameIds s' s'') : SameIds s s'' :=
  ⟨h'.task.trans h.task, fun x => (h'.ids x).trans (h.ids x)⟩

theorem set (s : Tasks) (p : Nat) {f : Task → Task} (hf : ∀ t, idsOf (f t) = idsOf t) : SameIds s (s.set p f) where
  task := rfl
  ids x := by
    unfold Tasks.set
    dsimp only
    split
    · exact hf _
    · rfl

/-- One more field is set. -/
theorem thenSet (h : SameIds s s') {p : Nat} {f : Task → Task} (hf : ∀ t, idsOf (f t) = idsOf t) :
    SameIds s (s'.set p f) := h.trans (.set s' p hf)

theorem view (h : SameIds s s') : view s' = view s := by
  funext i
  unfold Groups.view
  rw [h.task]
  split
  · cases s.task i with
    | none => rfl
    | some p => exact congrArg some (h.ids p)
  · rfl

end SameIds

open SameIds

/-- However the call ends, the ids are those that there were. -/
def Keeps {α : Type} (m : Call α) : Prop :=
  ∀ s, Ends m s (fun e => ∀ s', e = .gone s' → SameIds s s') fun _ s' => SameIds s s'

namespace Keeps

variable {α β : Type}

theorem bind {m : Call α} {f : α → Call β} (hm : Keeps m) (hf : ∀ a, Keeps (f a)) : Keeps (m >>= f) := fun s =>
  (hm s).then_ fun a s' h => (hf a s').weaken (fun _ he s'' heq => h.trans (he s'' heq)) fun _ _ h' => h.trans h'

theorem pure (a : α) : Keeps (Pure.pure a) := fun s => .pure (.refl s)

theorem reads (f : Tasks → α) : Keeps (.reads f) := fun s => .reads (.refl s)

theorem modify {f : Tasks → Tasks} (h : ∀ s, SameIds s (f s)) : Keeps (.modify f) := fun s => .modify (h s)

theorem set (p : Tasks → Nat) {f : Tasks → Task → Task} (h : ∀ s t, idsOf (f s t) = idsOf t) :
    Keeps (.modify fun s => s.set (p s) (f s)) := .modify fun s => SameIds.set s (p s) (h s)

theorem fault : Keeps (.halt .fault : Call α) := fun _ => .halt nofun

end Keeps

open Sched.ProcessTree

theorem deliver_sameIds (sig p : Nat) (s : Tasks) : SameIds s (deliver sig p s) := by
  have hstate : ∀ (s : Tasks) (q : Nat) (v : TaskState), SameIds s (s.setState q v) := fun s q v =>
    SameIds.set s q fun _ => rfl
  unfold deliver
  dsimp only
  split_ifs <;>
    first
    | exact .refl _
    | exact hstate _ _ _
    | exact (hstate _ _ _).trans (hstate _ _ _)
    | exact ((hstate _ _ _).trans (hstate _ _ _)).trans (hstate _ _ _)

theorem sendSig_keeps (current sig p : Nat) : Keeps (sendSig current sig p) := by
  refine .bind (.modify fun s => deliver_sameIds sig p s) fun _ => .bind (.reads _) fun b => ?_
  cases b with
  | false => exact .pure _
  | true =>
      intro s s' heq
      cases heq
      exact .refl s

theorem killSlots_keeps (current : Nat) (pgrp : Int) (sig : Nat) (l : List Nat) :
    Keeps (killSlots current pgrp sig l) := by
  induction l with
  | nil => exact .pure _
  | cons nr l ih =>
      refine .bind (.reads _) fun found => ?_
      cases found with
      | none => exact ih
      | some p => exact .bind (sendSig_keeps current sig p) fun _ => ih

theorem killPg_keeps (current : Nat) (pgrp : Int) (sig : Nat) : Keeps (killPg current pgrp sig) := by
  unfold killPg
  split
  · exact .pure _
  · exact killSlots_keeps current pgrp sig slots

theorem hangUp_keeps (current p : Nat) (orphaned : Tasks → Bool) : Keeps (hangUp current p orphaned) := by
  refine .bind (.reads _) fun b => ?_
  cases b with
  | false => exact .pure _
  | true =>
      exact .bind (.reads _) fun pgrp => .bind (killPg_keeps current pgrp SIGHUP) fun _ =>
        killPg_keeps current pgrp SIGCONT

theorem splice_keeps (current p : Nat) : Keeps (splice current p) := by
  refine .bind (.reads _) fun init => .bind (.reads _) fun first => .bind (.set (fun _ => p) fun _ _ => rfl) fun _ => ?_
  cases first with
  | none => exact .fault
  | some c =>
      exact .bind (.set (fun _ => c) fun _ _ => rfl) fun _ => .bind (.set (fun _ => init) fun _ _ => rfl) fun _ =>
        .set (fun _ => current) fun _ _ => rfl

theorem adopt_keeps (current fuel p : Nat) : Keeps (adopt current fuel p) := by
  induction fuel generalizing p with
  | zero => exact .fault
  | succ fuel ih =>
      refine .bind (.set (fun _ => p) fun _ _ => rfl) fun _ =>
        .bind (hangUp_keeps current p (orphansChild current p)) fun _ => .bind (.reads _) fun older => ?_
      cases older with
      | none => exact splice_keeps current p
      | some q => exact ih q

/-- **`do_exit` takes nobody out of a group or a session.** -/
theorem doExit_keeps (current : Nat) (tty : Option Int) : Keeps (doExit current tty) := by
  refine .bind (.modify fun s => SameIds.set s current fun _ => rfl) fun _ =>
    .bind (hangUp_keeps current current (orphansOwn current)) fun _ => .bind (.reads _) fun father =>
    .bind (sendSig_keeps current SIGCHLD father) fun _ => .bind ?_ fun _ => .bind (.reads _) fun pgrp => ?_
  · refine .bind (.reads _) fun first => ?_
    cases first with
    | none => exact .pure _
    | some p => exact adopt_keeps current NR_TASKS p
  · cases pgrp with
    | none => exact .pure _
    | some g => exact killPg_keeps current g SIGHUP

theorem forkDone_sameIds (t p : Nat) (s : Tasks) : SameIds s (forkDone t p s) := by
  unfold forkDone Tasks.setState
  cases (s.page t).cptr with
  | none =>
      dsimp only [Option.elim]
      iterate 3 refine SameIds.thenSet ?_ fun _ => rfl
      exact .refl s
  | some o =>
      dsimp only [Option.elim]
      iterate 4 refine SameIds.thenSet ?_ fun _ => rfl
      exact .refl s

theorem release_sameIds (p nr : Nat) (s : Tasks) : SameIds (s.setTask nr none) (release p nr s) := by
  have hfirst : SameIds (s.setTask nr none)
      ((s.page p).osptr.elim (s.setTask nr none) fun o =>
        (s.setTask nr none).set o fun x => { x with ysptr := (s.page p).ysptr }) := by
    cases (s.page p).osptr with
    | none => exact .refl _
    | some o =>
        rw [Option.elim_some]
        apply SameIds.set
        exact fun _ => rfl
  unfold release
  dsimp only
  split
  · exact hfirst.thenSet fun _ => rfl
  · exact hfirst.thenSet fun _ => rfl

/-! ## What a step does to the ids -/

variable {s s' : Tasks} {i p nr : Nat}

theorem view_eq_some {x : Ids} : view s i = some x ↔ ∃ p, At s i p ∧ idsOf (s.page p) = x := by
  unfold view At
  constructor
  · intro h
    split at h
    · rename_i hi
      obtain ⟨p, hp, rfl⟩ := Option.map_eq_some_iff.1 h
      exact ⟨p, ⟨hi.1, hi.2, hp⟩, rfl⟩
    · cases h
  · rintro ⟨p, ⟨hpos, hlt, hp⟩, rfl⟩
    rw [if_pos ⟨hpos, hlt⟩, hp]
    rfl

theorem At.view (h : At s i p) : view s i = some (idsOf (s.page p)) := view_eq_some.2 ⟨p, h, rfl⟩

/-- A slot is emptied. -/
theorem view_setTask (hnr : 0 < nr ∧ nr < NR_TASKS) :
    view (s.setTask nr none) = Function.update (view s) nr none := by
  funext j
  by_cases hj : j = nr
  · subst hj
    rw [Function.update_self]
    unfold view Tasks.setTask
    dsimp only
    rw [if_pos hnr, if_pos rfl]
    rfl
  · rw [Function.update_of_ne hj]
    unfold view Tasks.setTask
    dsimp only
    rw [if_neg hj]

/-- The ids of the task in one slot change. -/
theorem view_set (h : At s i p) (honly : ∀ j, At s j p → j = i) (f : Task → Task) :
    view (s.set p f) = Function.update (view s) i (some (idsOf (f (s.page p)))) := by
  funext j
  by_cases hj : j = i
  · subst hj
    have hset : At (s.set p f) j p := h
    rw [Function.update_self, hset.view]
    exact congrArg (fun x => some (idsOf x)) (if_pos rfl)
  · rw [Function.update_of_ne hj]
    unfold view
    split
    · rename_i hrange
      refine Option.map_congr fun q hq => ?_
      have hqp : q ≠ p := by
        rintro rfl
        exact hj (honly j ⟨hrange.1, hrange.2, hq⟩)
      exact congrArg idsOf (if_neg hqp)
    · rfl

/-- It is the page of no task, or of task 0. -/
theorem view_set_absent (h : ∀ j, ¬ At s j p) (f : Task → Task) : view (s.set p f) = view s := by
  funext j
  unfold view
  split
  · rename_i hrange
    refine Option.map_congr fun q hq => ?_
    have hqp : q ≠ p := by
      rintro rfl
      exact h j ⟨hrange.1, hrange.2, hq⟩
    exact congrArg idsOf (if_neg hqp)
  · rfl

theorem view_fork {t : Nat} {pid : Int} (hnr : 0 < nr ∧ nr < NR_TASKS) (hp : ∀ j, ¬ At s j p) (hpt : p ≠ t) :
    view (fork t p nr pid s) = Function.update (view s) nr (some { idsOf (s.page t) with pid }) := by
  funext j
  unfold view fork Tasks.setTask Tasks.set
  by_cases hj : j = nr
  · subst hj
    rw [Function.update_self, if_pos hnr]
    simp [idsOf]
  · rw [Function.update_of_ne hj]
    dsimp only
    rw [if_neg hj]
    split
    · rename_i hrange
      refine Option.map_congr fun q hq => ?_
      have hqp : q ≠ p := by
        rintro rfl
        exact hp j ⟨hrange.1, hrange.2, hq⟩
      exact congrArg idsOf (if_neg hqp)
    · rfl

/-- A task is in one slot. -/
theorem Sane.only (h : Sane (view s)) (hi : At s i p) : ∀ j, At s j p → j = i := fun j hj =>
  h.distinct j i _ _ hj.view hi.view rfl

theorem findEmptySlot_spec (h : findEmptySlot s = some nr) : (0 < nr ∧ nr < NR_TASKS) ∧ s.task nr = none := by
  have hmem := List.mem_of_find?_eq_some h
  rw [List.mem_range'_1] at hmem
  refine ⟨⟨hmem.1, ?_⟩, ?_⟩
  · have hlt := hmem.2
    unfold NR_TASKS at hlt ⊢
    omega
  · simpa using List.find?_some h

/-- No task has the new process id, and no group. -/
theorem fresh_of_not_inUse {n : Int} (h : inUse s n = false) {i : Nat} (hi : i < NR_TASKS) {p : Nat}
    (hp : s.task i = some p) : (s.page p).pid ≠ n ∧ (s.page p).pgrp ≠ n := by
  unfold inUse at h
  have hno := List.any_eq_false.1 h i (List.mem_range.2 hi)
  rw [hp, Option.any_some] at hno
  simpa [not_or] using hno

/-- A task that runs is in a slot. -/
theorem at_of_live {t : Nat} (h : s.Live t) : ∃ i, At s i t := by
  obtain ⟨i, hpos, hlt, hi⟩ := h
  exact ⟨i, hpos, hlt, hi⟩

theorem findTask_spec {t : Nat} {pid : Int} (h : findTask t pid s = some p) : (s.page p).pid = pid := by
  obtain ⟨i, -, hi⟩ := List.exists_of_findSome?_eq_some h
  obtain ⟨-, hp⟩ := Option.filter_eq_some_iff.1 hi
  rw [Bool.and_eq_true, beq_iff_eq] at hp
  exact hp.1

/-- **`setpgid`** lets a task found a group, or join one of its session. -/
theorem setpgid_change (h : Sane (view s)) {t : Nat} (ht : s.Live t) (zero : Page0) (pid pgid : Int) :
    Change (mistaken zero (if pgid = 0 then (s.page t).pid else pgid) s = true → zero.session ≠ (s.page t).session)
      (view s) (view (sysSetpgid zero t pid pgid s).2) := by
  unfold sysSetpgid
  dsimp only
  generalize hpgid : (if pgid = 0 then (s.page t).pid else pgid) = g
  generalize hpid : (if pid = 0 then (s.page t).pid else pid) = n
  split
  · exact .same
  · cases hfind : findTask t n s with
    | none => exact .same
    | some p =>
        dsimp only
        split
        · exact .same
        · split
          · exact .same
          · rename_i hallowed
            obtain ⟨hsession, hgroup⟩ := not_or.1 hallowed
            have hsession := not_not.1 hsession
            by_cases hat : ∃ i, At s i p
            · obtain ⟨i, hi⟩ := hat
              rw [view_set hi (h.only hi)]
              refine .regroup g hi.view fun hcareful => ?_
              by_cases hself : g = n
              · exact .inl (hself.trans (findTask_spec hfind).symm)
              · refine .inr ?_
                have hof : sessionOfPgrp zero g s = (s.page t).session := by
                  by_contra hne
                  exact hgroup ⟨hself, hne⟩
                unfold sessionOfPgrp at hof
                unfold mistaken at hcareful
                cases hslot : slots.find? fun i => pgrpAt zero s i == g with
                | none =>
                    rw [hslot] at hof
                    obtain ⟨j, hj⟩ := at_of_live ht
                    have hnonneg : 0 ≤ (s.page t).session := h.session j _ hj.view
                    have hminus : (-1 : Int) = (s.page t).session := hof
                    omega
                | some j =>
                    rw [hslot] at hof hcareful
                    have hmem := List.mem_of_find?_eq_some hslot
                    have hpgrp := List.find?_some hslot
                    rw [slots, List.mem_reverse, List.mem_range'_1] at hmem
                    cases hq : s.task j with
                    | none =>
                        have hzero : zero.session = (s.page t).session := by
                          rw [← hof]
                          simp [sessionAt, hq]
                        exact absurd hzero (hcareful (by simp [hq]))
                    | some q =>
                        have hjq : At s j q := ⟨hmem.1, by have := hmem.2; unfold NR_TASKS at this ⊢; omega, hq⟩
                        refine ⟨j, _, hjq.view, ?_, ?_⟩
                        · simpa [pgrpAt, hq, idsOf] using hpgrp
                        · simp only [sessionAt, hq] at hof
                          exact hof.trans hsession.symm
            · rw [view_set_absent fun i hi => hat ⟨i, hi⟩]
              exact .same

/-- **`setsid`** lets a task found a session. -/
theorem setsid_change (h : Sane (view s)) {t : Nat} (ht : s.Live t) (suser : Bool) :
    Change (((s.page t).leader = true → suser = true) → ∀ i q, At s i q → q ≠ t →
      (s.page q).pgrp = (s.page t).pid → (s.page q).session = (s.page t).pid)
      (view s) (view (sysSetsid t suser s).2) := by
  unfold sysSetsid
  dsimp only
  split
  · exact .same
  · rename_i hallowed
    obtain ⟨i, hi⟩ := at_of_live ht
    rw [view_set hi (h.only hi)]
    refine .leave hi.view fun hcareful j y hy hj hgroup => ?_
    obtain ⟨q, hq, rfl⟩ := view_eq_some.1 hy
    refine hcareful (fun hleader => ?_) j q hq (fun hqt => ?_) hgroup
    · by_contra hsu
      exact hallowed ⟨hleader, hsu⟩
    · subst hqt
      exact hj (h.only hi j hq)

/-- The events of a step are careful, if they are admitted. -/
def Careful (ok : State → Event → Prop) : Prop := ∀ s e, ok s e → Admits s e

/-- **One step** changes the ids in one of these ways. -/
theorem step_change {ok : State → Event → Prop} {s s' : State} (h : Sane (view s.tasks))
    (hpid : 0 ≤ s.lastPid ∧ s.lastPid < 2 ^ 31) (hs : Step ok s s') :
    Change (Careful ok) (view s.tasks) (view s'.tasks) ∧ 0 ≤ s'.lastPid ∧ s'.lastPid < 2 ^ 31 := by
  cases hs with
  | @fork t p nr fuel pid ht hpc hp hzero hsearch hnr =>
      obtain ⟨hfree, hpos, hlt⟩ := searchPid_spec hpid.1 hpid.2 hsearch
      obtain ⟨hrange, hslot⟩ := findEmptySlot_spec hnr
      have habsent : ∀ j, ¬ At s.tasks j p := fun j hj => hp ⟨j, hj.1, hj.2.1, hj.2.2⟩
      obtain ⟨i, hi⟩ := at_of_live ht.1.1
      have hpt : p ≠ t := fun hpt => habsent i (hpt ▸ hi)
      refine ⟨?_, hpos.le, hlt⟩
      have hview : view (fork t p nr pid s.tasks) = _ := view_fork hrange habsent hpt
      show Change (Careful ok) (view s.tasks) (view (fork t p nr pid s.tasks))
      rw [hview]
      refine .add pid hi.view ?_ hpos fun j y hy => ?_
      · unfold view
        rw [if_pos hrange, hslot]
        rfl
      · obtain ⟨q, hq, rfl⟩ := view_eq_some.1 hy
        exact fresh_of_not_inUse hfree hq.2.1 hq.2.2
  | forkAgain ht hpc hsearch hnr =>
      obtain ⟨-, hpos, hlt⟩ := searchPid_spec hpid.1 hpid.2 hsearch
      exact ⟨.same, hpos.le, hlt⟩
  | @forkDone t p ht hpc =>
      refine ⟨?_, hpid⟩
      show Change (Careful ok) (view s.tasks) (view (forkDone t p s.tasks))
      rw [(forkDone_sameIds t p s.tasks).view]
      exact .same
  | @forkFail t p nr ht hpc hnr hp =>
      refine ⟨?_, hpid⟩
      show Change (Careful ok) (view s.tasks) (view (s.tasks.setTask nr none))
      rw [view_setTask hnr]
      exact .remove nr
  | @setpgid t zero pid pgid ht hpc hok =>
      refine ⟨?_, hpid⟩
      exact (setpgid_change h ht.1.1 zero pid pgid).mono fun hcareful => hcareful s _ hok
  | @setsid t suser ht hpc hok =>
      refine ⟨?_, hpid⟩
      exact (setsid_change h ht.1.1 suser).mono fun hcareful => hcareful s _ hok
  | @exit t tasks tty ht hpc hdone =>
      refine ⟨?_, hpid⟩
      show Change (Careful ok) (view s.tasks) (view tasks)
      rw [((doExit_keeps t tty s.tasks).ok_of hdone).view]
      exact .same
  | @exitGone t tasks tty ht hpc hgone =>
      refine ⟨?_, hpid⟩
      show Change (Careful ok) (view s.tasks) (view tasks)
      rw [((doExit_keeps t tty s.tasks).error_of hgone tasks rfl).view]
      exact .same
  | wait ht hpc hp hz => exact ⟨.same, hpid⟩
  | @release t p nr ht hpc hnr hp =>
      refine ⟨?_, hpid⟩
      show Change (Careful ok) (view s.tasks) (view (release p nr s.tasks))
      rw [(release_sameIds p nr s.tasks).view, view_setTask hnr]
      exact .remove nr
  | @other t v ptraced =>
      refine ⟨?_, hpid⟩
      show Change (Careful ok) (view s.tasks) (view (s.tasks.set t fun x => { x with state := v, ptraced }))
      have hsame : SameIds s.tasks (s.tasks.set t fun x => { x with state := v, ptraced }) := by
        refine SameIds.set s.tasks t ?_
        exact fun _ => rfl
      rw [hsame.view]
      exact .same

/-! ## Runs -/

/-- What holds in every state. -/
structure Inv (s : State) : Prop where
  sane : Sane (view s.tasks)
  lastPid : 0 ≤ s.lastPid ∧ s.lastPid < 2 ^ 31

theorem view_boot {i : Nat} {x : Ids} (h : view boot.tasks i = some x) : i = 1 ∧ x = ⟨1, 0, 0⟩ := by
  obtain ⟨p, ⟨hpos, -, hp⟩, rfl⟩ := view_eq_some.1 h
  have hp : (if i < 2 then some i else none) = some p := hp
  split at hp
  · cases hp
    obtain rfl : i = 1 := by omega
    exact ⟨rfl, rfl⟩
  · cases hp

theorem inv_boot : Inv boot where
  sane := by
    refine ⟨fun i x hx => ?_, fun i j x y hx hy _ => ?_, fun i x hx => ?_⟩
    · rw [(view_boot hx).2]
      decide
    · rw [(view_boot hx).1, (view_boot hy).1]
    · rw [(view_boot hx).2]
  lastPid := by decide

theorem Inv.reaches {ok : State → Event → Prop} {s s' : State} (h : Inv s) (hr : Reaches ok s s') : Inv s' := by
  induction hr with
  | refl => exact h
  | tail _ hstep ih =>
      obtain ⟨hchange, hlast⟩ := step_change ih.sane ih.lastPid hstep
      exact ⟨ih.sane.change hchange, hlast⟩

/-- **Process ids are distinct**, in every state that is reached, and there is always another. -/
theorem pids_distinct {s : State} (hr : Reaches (fun _ _ => True) boot s) : Distinct s := by
  have h := inv_boot.reaches hr
  refine ⟨fun i p hp => h.sane.positive i _ hp.view,
    fun i j p q hp hq heq => h.sane.distinct i j _ _ hp.view hq.view heq,
    searchPid_ends h.lastPid.1 h.lastPid.2 s.tasks, fun fuel n hn => ?_⟩
  obtain ⟨hfree, hpos, -⟩ := searchPid_spec h.lastPid.1 h.lastPid.2 hn
  exact ⟨hpos, fun i hi p hp => fresh_of_not_inUse hfree hi hp⟩

/-- **A process group is in one session**, as long as the steps are admitted. -/
theorem groups_in_sessions {s : State} (hr : Reaches Admits boot s) : Together s := by
  have hgrouped : Grouped (view s.tasks) := by
    induction hr with
    | refl =>
        refine ⟨fun i j x y hx hy _ => ?_, fun i j x y hx hy heq => ?_⟩
        · rw [(view_boot hx).2, (view_boot hy).2]
        · rw [(view_boot hx).2, (view_boot hy).2] at heq
          cases heq
    | tail hr hstep ih =>
        have h := inv_boot.reaches hr
        exact ih.change h.sane (fun _ _ => id) (step_change h.sane h.lastPid hstep).1
  exact fun i j p q hp hq heq => hgrouped.together i j _ _ hp.view hq.view heq

/-! ## Init and its first child -/

/-- Init founds its own process group. -/
def founded : State := boot.next 1 .run (sysSetpgid ⟨0, 0⟩ 1 0 0 boot.tasks).2

/-- Init, in page 1, is half-way through the fork of the task in page 2. -/
def forking : State :=
  { founded.next 1 (.forking 2) (fork 1 2 2 2 founded.tasks) with lastPid := 2 }

theorem boot_runs : boot.tree.Runs 1 := ⟨⟨⟨1, by decide, by decide, rfl⟩, nofun⟩, rfl⟩

theorem founded_run : ∀ t, founded.tree.pc t = .run := fun _ => ite_self _

theorem founded_runs : founded.tree.Runs 1 := by
  refine ⟨⟨⟨1, by decide, by decide, rfl⟩, fun ⟨t, ht⟩ => ?_⟩, rfl⟩
  rw [founded_run t] at ht
  cases ht

theorem founded_admits : Admits boot (.setpgid ⟨0, 0⟩ 1 0 0) := by
  have hfound : mistaken ⟨0, 0⟩ 1 boot.tasks = false := by decide
  intro hno
  have hno : mistaken ⟨0, 0⟩ 1 boot.tasks = true := hno
  rw [hfound] at hno
  cases hno

/-- The new task gets the process id 2, and the slot 2. -/
theorem forking_step (ok : State → Event → Prop) : Step ok founded forking := by
  refine @Step.fork ok founded 1 2 2 1 2 founded_runs (founded_run 1) ?_ ?_ (by decide) (by decide)
  · rintro ⟨nr, -, -, hnr⟩
    have hnr : (if nr < 2 then some nr else none) = some 2 := hnr
    split at hnr
    · cases hnr
      contradiction
    · cases hnr
  · exact nofun

/-- Init and its child have two process ids. -/
theorem pids_distinct_two : (forking.tasks.page 2).pid = 2 ∧ Distinct forking :=
  ⟨rfl, pids_distinct (.head (.setpgid ⟨0, 0⟩ 0 0 boot_runs rfl trivial) (.single (forking_step _)))⟩

/-- They are in one group and one session. -/
theorem groups_in_sessions_two : (forking.tasks.page 2).pgrp = 1 ∧ Together forking :=
  ⟨rfl, groups_in_sessions (.head (.setpgid ⟨0, 0⟩ 0 0 boot_runs rfl founded_admits) (.single (forking_step _)))⟩

/-- **`setsid` takes a task out of the session of its group**: init leaves its child behind, in the group 1, and is in
the group 1 of the new session itself. -/
theorem setsid_splits : ∃ s, Reaches (fun _ _ => True) boot s ∧ ¬ Together s := by
  let done : State := forking.next 1 .run (forkDone 1 2 forking.tasks)
  have hforking : forking.tree.Linked 1 := by
    refine ⟨⟨1, by decide, by decide, rfl⟩, fun ⟨t, ht⟩ => ?_⟩
    have ht : (if t = 1 then Pc.forking 2 else founded.tree.pc t) = .forking 1 := ht
    rw [founded_run] at ht
    split at ht <;> cases ht
  have hdone : ∀ t, done.tree.pc t = .run := fun t => by
    show (if t = 1 then Pc.run else if t = 1 then Pc.forking 2 else founded.tree.pc t) = .run
    rw [founded_run]
    split_ifs <;> rfl
  have hruns : done.tree.Runs 1 := by
    refine ⟨⟨⟨1, by decide, by decide, rfl⟩, fun ⟨t, ht⟩ => ?_⟩, rfl⟩
    rw [hdone t] at ht
    cases ht
  have hrun : Reaches (fun _ _ => True) boot (done.next 1 .run (sysSetsid 1 false done.tasks).2) :=
    .head (.setpgid ⟨0, 0⟩ 0 0 boot_runs rfl trivial) (.head (forking_step _)
      (.head (.forkDone hforking rfl) (.single (.setsid false hruns (hdone 1) trivial))))
  refine ⟨_, hrun, fun h => ?_⟩
  have hsplit := h 1 2 1 2 ⟨by decide, by decide, rfl⟩ ⟨by decide, by decide, rfl⟩ rfl
  exact absurd hsplit (by decide)

end Groups
end Kernel
end Linux095
