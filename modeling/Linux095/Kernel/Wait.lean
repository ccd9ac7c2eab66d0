import Linux095.Kernel.Kill
import Linux095.Sched.TreeInv
import Mathlib.Algebra.BigOperators.Group.List.Basic
import Mathlib.Algebra.Group.Prod
import Mathlib.Data.BitVec

/-!
# `Kernel.Wait` — how a task waits for its children (`kernel/exit.c`)

`waitpid` looks through the children of a task for one that has exited or stopped. It takes the times of one that has
exited and releases it; of one that has stopped it clears the exit code, so that the stop is told once.

* `scan`, `look`, `release` — the source's `sys_waitpid`, cut where it may sleep;
* `Step` — what all tasks do: waits, forks, exits, stops, signals;
* `release_children` — the children here and the links of `Sched.ProcessTree`;
* `Accounted` — **what waiting is for**; `waits_accounted` says in which runs it is so, and `stopped_child_hidden` is a
  run in which it is not.

A task is named by how many were made before it, so that nobody is ever taken for somebody else. The tasks 0 and 1 are
task 0 and init. The children of a task are the list that `p_cptr` and then `p_osptr` leads through.
-/

namespace Linux095
namespace Kernel
namespace Wait
open Sched.ProcessTree (TaskState SIGCHLD)
open SignalMask (bit SIGKILL SIGCONT SIGSTOP SIGTSTP SIGTTIN SIGTTOU)
open Kill (neg)
open Relation

def ECHILD : Int := 10
def ERESTARTSYS : Int := 512

def WNOHANG : BitVec 32 := 1
def WUNTRACED : BitVec 32 := 2

/-- `utime` and `stime`, or `cutime` and `cstime`. -/
abbrev Times : Type := BitVec 32 × BitVec 32

/-- The arguments of `waitpid`. -/
structure Call where
  pid : Int
  /-- `stat_addr` is not NULL. -/
  stat : Bool
  options : BitVec 32

/-- Where a task is in `sys_waitpid`. -/
inductive Pc where
  | user
  | verifyArea (call : Call)
  /-- At `repeat`. -/
  | scan (call : Call)
  /-- Storing what is to be said of the child `p`, which had stopped for the `n`-th time. -/
  | stopped (call : Call) (p n : Nat) (status : BitVec 32)
  /-- Storing the exit code of the child `p`. -/
  | zombie (call : Call) (p : Nat) (status : BitVec 32)
  /-- In `schedule()`, at the end of `release`. -/
  | released (call : Call) (flag : Int) (status : BitVec 32)
  | asleep (call : Call) (oldblocked : BitVec 32)

/-- What `waitpid` needs of `struct task_struct`. -/
structure Task where
  state : TaskState
  pid : Int
  pgrp : Int
  /-- `flags & PF_PTRACED`. -/
  ptraced : Bool
  exitCode : BitVec 32
  time : Times
  ctime : Times
  signal : BitVec 32
  blocked : BitVec 32
  children : List Nat
  pc : Pc
  /-- How often the task has stopped. -/
  stops : Nat

structure Config where
  task : Nat → Task
  /-- How many tasks have been made. -/
  born : Nat
  /-- Who has reported and released whom. -/
  reaped : List (Nat × Nat)
  /-- The stops that have been reported: whose, and which. -/
  seen : List (Nat × Nat)

namespace Config

def set (c : Config) (t : Nat) (f : Task → Task) : Config :=
  { c with task := fun x => if x = t then f (c.task x) else c.task x }

def goto (c : Config) (t : Nat) (q : Pc) : Config := c.set t fun x => { x with pc := q }

/-- `t` can make a step. -/
def Runs (c : Config) (t : Nat) : Prop := t < c.born ∧ (c.task t).state = .running

end Config

/-- What a call returns, and what it has stored. -/
structure Return where
  task : Nat
  call : Call
  value : Int
  status : Option (BitVec 32)

/-! ## `sys_waitpid` -/

/-- `continue`, before the `switch`. -/
def skips (pid pgrp : Int) (t : Task) : Bool :=
  if pid > 0 then t.pid != pid
  else if pid = 0 then t.pgrp != pgrp
  else if pid ≠ -1 then t.pgrp != neg pid
  else false

/-- How the loop ends. -/
inductive Found where
  | stopped (p : Nat)
  | zombie (p : Nat)
  | nothing (flag : Bool)

/-- The loop over the children. -/
def scan (task : Nat → Task) (pgrp : Int) (call : Call) : List Nat → Bool → Found
  | [], flag => .nothing flag
  | p :: l, flag =>
      if skips call.pid pgrp (task p) then scan task pgrp call l flag
      else
        match (task p).state with
        | .stopped =>
            -- `flag` stays as it is.
            if call.options &&& WUNTRACED = 0 ∨ (task p).exitCode = 0 then scan task pgrp call l flag
            else .stopped p
        | .zombie => .zombie p
        | _ => scan task pgrp call l true

section

variable (t : Nat) (call : Call)

/-- `if (stat_addr)`. -/
def stored (status : BitVec 32) : Option (BitVec 32) := if call.stat then some status else none

/-- The end of the case `TASK_STOPPED`. -/
def reportStop (p n : Nat) (status : BitVec 32) (c : Config) : Option Return × Config :=
  let c' := (c.set p fun x => { x with exitCode := 0 }).goto t .user
  (some ⟨t, call, (c.task p).pid, stored call status⟩, { c' with seen := (p, n) :: c.seen })

/-- `release`, up to `schedule()`: the siblings of `p` remain. -/
def release (p : Nat) (status : BitVec 32) (c : Config) : Config :=
  let c' := c.set t fun x => { x with children := x.children.erase p, pc := .released call (c.task p).pid status }
  { c' with reaped := (t, p) :: c.reaped }

/-- The case `TASK_ZOMBIE`, up to `put_fs_long`. -/
def charge (p : Nat) (c : Config) : Config :=
  c.set t fun x => { x with ctime := x.ctime + (c.task p).time, pc := .zombie call p (c.task p).exitCode }

/-- `schedule()`, while SIGCHLD is not blocked. -/
def sleep (c : Config) : Config :=
  c.set t fun x =>
    { x with state := .interruptible, blocked := x.blocked &&& ~~~ bit SIGCHLD, pc := .asleep call x.blocked }

/-- From `repeat` on: what is returned, if anything. -/
def look (c : Config) : Option Return × Config :=
  match scan c.task (c.task t).pgrp call (c.task t).children false with
  | .stopped p =>
      let status := (c.task p).exitCode <<< 8 ||| 0x7f
      let c' := c.goto t (.stopped call p (c.task p).stops status)
      if call.stat then (none, c') else reportStop t call p (c.task p).stops status c'
  | .zombie p =>
      let c' := charge t call p c
      if call.stat then (none, c') else (none, release t call p (c.task p).exitCode c')
  | .nothing true =>
      if call.options &&& WNOHANG ≠ 0 then (some ⟨t, call, 0, none⟩, c.goto t .user) else (none, sleep t call c)
  | .nothing false => (some ⟨t, call, -ECHILD, none⟩, c.goto t .user)

/-- After `schedule()`. -/
def wake (oldblocked : BitVec 32) (c : Config) : Option Return × Config :=
  let c' := c.set t fun x => { x with blocked := oldblocked }
  if (c'.task t).signal &&& ~~~ ((c'.task t).blocked ||| bit SIGCHLD) ≠ 0 then
    (some ⟨t, call, -ERESTARTSYS, none⟩, c'.goto t .user)
  else (none, c'.goto t (.scan call))

end

/-! ## What other tasks do -/

/-- What SIGKILL and SIGCONT undo. -/
def resume (sig : Nat) (t : Task) : Task :=
  if sig = SIGKILL ∨ sig = SIGCONT then
    { t with
      state := if t.state = .stopped then .running else t.state
      exitCode := 0
      signal := t.signal &&& ~~~ (bit SIGSTOP ||| bit SIGTSTP ||| bit SIGTTIN ||| bit SIGTTOU) }
  else t

/-- A task that is traced stops. -/
def trace (sig : Nat) (t : Task) : Task :=
  let t := { t with exitCode := BitVec.ofNat 32 sig }
  if t.state = .interruptible ∨ t.state = .running then { t with state := .stopped, stops := t.stops + 1 } else t

/-- `send_sig`, as far as the task goes that the signal is for. -/
def sendSig (sig : Nat) (t : Task) : Task :=
  let t := resume sig t
  let signal := if SIGSTOP ≤ sig ∧ sig ≤ SIGTTOU then t.signal &&& ~~~ bit SIGCONT else t.signal
  let t := { t with signal := signal ||| bit sig }
  if t.ptraced then trace sig t else t

/-- `do_signal`, for a signal that stops. -/
def stop (signr : Nat) (t : Task) : Task :=
  { t with state := .stopped, exitCode := BitVec.ofNat 32 signr, stops := t.stops + 1 }

/-- `sys_fork`: the child comes first. -/
def fork (t : Nat) (pid : Int) (c : Config) : Config :=
  let p := c.born
  { c with
    task := fun x =>
      if x = p then
        { c.task t with
          state := .running, pid, signal := 0, time := 0, ctime := 0, children := [], pc := .user, stops := 0 }
      else if x = t then { c.task t with children := p :: (c.task t).children }
      else c.task x
    born := c.born + 1 }

/-- `do_exit`: the children go in front of those of init. -/
def exit (t : Nat) (code : BitVec 32) (c : Config) : Config :=
  { c with
    task := fun x =>
      if x = t then { c.task t with state := .zombie, exitCode := code, children := [], pc := .user }
      else if x = 1 then { c.task 1 with children := (c.task t).children ++ (c.task 1).children }
      else if x ∈ (c.task t).children then { c.task x with ptraced := false }
      else c.task x }

/-- Where a task runs on behalf of itself, or may be killed by a page fault. -/
def Pc.Mortal : Pc → Prop
  | .user | .verifyArea _ | .stopped _ _ _ _ | .zombie _ _ _ => True
  | _ => False

/-- Steps that the conditions below are about. -/
inductive Event where
  | scan (t : Nat) (call : Call)
  | signal (p sig : Nat)

/-- One step, and what it returns. The tasks 0 and 1 do not exit. -/
inductive Step (ok : Config → Event → Prop) (c : Config) : Option Return → Config → Prop
  | call {t : Nat} (call : Call) (ht : c.Runs t) (hpc : (c.task t).pc = .user) :
      Step ok c none (c.goto t (if call.stat then .verifyArea call else .scan call))
  | verified {t : Nat} {call : Call} (ht : c.Runs t) (hpc : (c.task t).pc = .verifyArea call) :
      Step ok c none (c.goto t (.scan call))
  | scan {t : Nat} {call : Call} (ht : c.Runs t) (hpc : (c.task t).pc = .scan call) (hok : ok c (.scan t call)) :
      Step ok c (look t call c).1 (look t call c).2
  | stopped {t : Nat} {call : Call} {p n : Nat} {status : BitVec 32} (ht : c.Runs t)
      (hpc : (c.task t).pc = .stopped call p n status) :
      Step ok c (reportStop t call p n status c).1 (reportStop t call p n status c).2
  | zombie {t : Nat} {call : Call} {p : Nat} {status : BitVec 32} (ht : c.Runs t)
      (hpc : (c.task t).pc = .zombie call p status) : Step ok c none (release t call p status c)
  | released {t : Nat} {call : Call} {flag : Int} {status : BitVec 32} (ht : c.Runs t)
      (hpc : (c.task t).pc = .released call flag status) :
      Step ok c (some ⟨t, call, flag, stored call status⟩) (c.goto t .user)
  | wake {t : Nat} {call : Call} {oldblocked : BitVec 32} (ht : c.Runs t)
      (hpc : (c.task t).pc = .asleep call oldblocked) :
      Step ok c (wake t call oldblocked c).1 (wake t call oldblocked c).2
  | fork {t : Nat} (pid : Int) (ht : c.Runs t) (hpc : (c.task t).pc = .user) (hpid : 0 < pid) :
      Step ok c none (fork t pid c)
  | exit {t : Nat} (code : BitVec 32) (ht : c.Runs t) (hpc : (c.task t).pc.Mortal) (h1 : 1 < t) :
      Step ok c none (exit t code c)
  | stop {t signr : Nat} (ht : c.Runs t) (hpc : (c.task t).pc = .user) (hsig : SIGSTOP ≤ signr ∧ signr ≤ SIGTTOU) :
      Step ok c none (c.set t (stop signr))
  | signal {p sig : Nat} (hp : p < c.born) (hsig : 0 < sig ∧ sig ≤ 32) (hok : ok c (.signal p sig)) :
      Step ok c none (c.set p (sendSig sig))
  /-- `ptrace` lets a task go on that has stopped. -/
  | goOn {p : Nat} (signal : BitVec 32) (hp : p < c.born) (hstate : (c.task p).state = .stopped) :
      Step ok c none (c.set p fun x => { x with state := .running, signal })
  /-- Time goes by, tasks sleep and wake up, change their process groups, block signals and get themselves traced. -/
  | other {p : Nat} (v : TaskState) (pgrp : Int) (ptraced : Bool) (time : Times) (signal blocked : BitVec 32)
      (hp : p < c.born)
      (hv : v = (c.task p).state ∨
        v ≠ .zombie ∧ v ≠ .stopped ∧ (c.task p).state ≠ .zombie ∧ (c.task p).state ≠ .stopped)
      (hpgrp : 0 ≤ pgrp ∧ pgrp < 2 ^ 31) (htime : (c.task p).state = .zombie → time = (c.task p).time) :
      Step ok c none (c.set p fun x => { x with state := v, pgrp, ptraced, time, signal, blocked })

def Next (ok : Config → Event → Prop) (c c' : Config) : Prop := ∃ r, Step ok c r c'

/-! ## What is expected -/

/-- Some tasks, and nobody is waiting yet. -/
structure Start (c : Config) : Prop where
  roots : 1 < c.born ∧ (c.task 0).state ≠ .zombie ∧ (c.task 1).state ≠ .zombie
  kid : ∀ t, ∀ p ∈ (c.task t).children, t < c.born ∧ 0 < p ∧ p < c.born
  nodup : ∀ t, (c.task t).children.Nodup
  one : ∀ t t' p, p ∈ (c.task t).children → p ∈ (c.task t').children → t = t'
  placed : ∀ p, 0 < p → p < c.born → ∃ t, p ∈ (c.task t).children
  dead : ∀ t, (c.task t).state = .zombie → (c.task t).children = []
  pid : ∀ p, 0 < p → p < c.born → 0 < (c.task p).pid
  pgrp : ∀ p < c.born, 0 ≤ (c.task p).pgrp ∧ (c.task p).pgrp < 2 ^ 31
  user : ∀ t, (c.task t).pc = .user
  unborn : ∀ t, c.born ≤ t → (c.task t).ctime = 0
  fresh : c.reaped = [] ∧ c.seen = []

/-- The child `p` is one that a call waits for. -/
def Matches (pid pgrp : Int) (p : Task) : Prop :=
  if 0 < pid then p.pid = pid
  else if pid = 0 then p.pgrp = pgrp
  else if pid = -1 then True
  else p.pgrp = -pid

/-- A child that a call waits for. -/
def Awaited (c : Config) (t : Nat) (call : Call) (p : Nat) : Prop :=
  p ∈ (c.task t).children ∧ Matches call.pid (c.task t).pgrp (c.task p)

/-- There is something to say of `p`: it has exited, or stopped. -/
def Reportable (c : Config) (call : Call) (p : Nat) : Prop :=
  (c.task p).state = .zombie ∨
    (c.task p).state = .stopped ∧ call.options &&& WUNTRACED ≠ 0 ∧ (c.task p).exitCode ≠ 0

/-- The children that `t` has released. -/
def released (c : Config) (t : Nat) : List Nat := (c.reaped.filter fun e => e.1 = t).map Prod.snd

/-- The times of the child that is about to be released. -/
def due (c : Config) : Pc → Times
  | .zombie _ p _ => (c.task p).time
  | _ => 0

/-- All children that a call waits for have stopped, and there is nothing to say of them. -/
def Hidden (c : Config) (t : Nat) (call : Call) : Prop :=
  (∃ p, Awaited c t call p) ∧ ∀ p, Awaited c t call p → (c.task p).state = .stopped ∧ ¬ Reportable c call p

/-- A task that is traced and has stopped gets a signal that does not let it go on, and its stop has been reported. -/
def Again (c : Config) (p sig : Nat) : Prop :=
  (c.task p).ptraced ∧ (c.task p).state = .stopped ∧ (c.task p).exitCode = 0 ∧ sig ≠ SIGKILL ∧ sig ≠ SIGCONT

/-- Nothing of the kind. -/
def Clear (c : Config) : Event → Prop
  | .scan t call => ¬ Hidden c t call
  | .signal p sig => ¬ Again c p sig

/-! ## What is always so -/

/-- Everybody but task 0 is one task's child, or has been released. -/
structure Family (c : Config) : Prop where
  roots : 1 < c.born ∧ (c.task 0).state ≠ .zombie ∧ (c.task 1).state ≠ .zombie
  kid : ∀ t, ∀ p ∈ (c.task t).children, t < c.born ∧ 0 < p ∧ p < c.born
  nodup : ∀ t, (c.task t).children.Nodup
  one : ∀ t t' p, p ∈ (c.task t).children → p ∈ (c.task t').children → t = t'
  placed : ∀ p, 0 < p → p < c.born → (∃ t, p ∈ (c.task t).children) ∨ p ∈ c.reaped.map Prod.snd
  dead : ∀ t, (c.task t).state = .zombie → (c.task t).children = []
  once : (c.reaped.map Prod.snd).Nodup
  gone : ∀ p ∈ c.reaped.map Prod.snd, p < c.born ∧ (c.task p).state = .zombie ∧ ∀ t, p ∉ (c.task t).children

/-- What a task knows of the child that it is about to report. -/
def PcOk (c : Config) (t : Nat) : Pc → Prop
  | .stopped _ p n _ => p ∈ (c.task t).children ∧ n ≤ (c.task p).stops ∧ (p, n) ∉ c.seen
  | .zombie _ p _ => p ∈ (c.task t).children ∧ (c.task p).state = .zombie
  | .released _ flag _ => 0 < flag
  | _ => True

/-- A call is on its way only in a task that lives. -/
structure Calls (c : Config) : Prop where
  ok : ∀ t, PcOk c t (c.task t).pc
  dead : ∀ t, (c.task t).state = .zombie → (c.task t).pc = .user
  unborn : ∀ t, c.born ≤ t → (c.task t).pc = .user
  pid : ∀ p, 0 < p → p < c.born → 0 < (c.task p).pid
  pgrp : ∀ p < c.born, 0 ≤ (c.task p).pgrp ∧ (c.task p).pgrp < 2 ^ 31

/-- A stop that has been reported leaves no exit code. -/
structure Told (c : Config) : Prop where
  nodup : c.seen.Nodup
  mem : ∀ e ∈ c.seen, e.1 < c.born ∧ e.2 ≤ (c.task e.1).stops
  clear : ∀ p, (c.task p).state = .stopped → (p, (c.task p).stops) ∈ c.seen → (c.task p).exitCode = 0

/-- The times of children come to their parent once. -/
structure Charged (c₀ c : Config) : Prop where
  times : ∀ t, (c.task t).state ≠ .zombie →
    (c.task t).ctime = (c₀.task t).ctime + ((released c t).map fun p => (c.task p).time).sum + due c (c.task t).pc
  unborn : ∀ t, c.born ≤ t → (c₀.task t).ctime = 0
  mine : ∀ e ∈ c.reaped, e.1 < c.born

structure Inv (c₀ c : Config) : Prop where
  family : Family c
  calls : Calls c
  told : Told c
  charged : Charged c₀ c

section

variable {c₀ c c' : Config} {t p : Nat} {f : Task → Task}

theorem set_self (c : Config) (t : Nat) (f : Task → Task) : (c.set t f).task t = f (c.task t) := if_pos rfl

theorem set_other {x : Nat} (h : x ≠ t) : (c.set t f).task x = c.task x := if_neg h

/-- A field that a change leaves alone. -/
theorem set_field {α : Type} (g : Task → α) (h : g (f (c.task t)) = g (c.task t)) (x : Nat) :
    g ((c.set t f).task x) = g (c.task x) := by
  by_cases hx : x = t
  · rw [hx, set_self, h]
  · rw [set_other hx]

/-- So does something that is said of a field. -/
theorem set_prop (P : Task → Prop) (h : P (f (c.task t)) ↔ P (c.task t)) (x : Nat) :
    P ((c.set t f).task x) ↔ P (c.task x) := by
  by_cases hx : x = t
  · rw [hx, set_self, h]
  · rw [set_other hx]

/-- The family does not look at anything but children and zombies. -/
theorem Family.congr (h : Family c) (hborn : c'.born = c.born) (hreaped : c'.reaped = c.reaped)
    (hchildren : ∀ x, (c'.task x).children = (c.task x).children)
    (hzombie : ∀ x, (c'.task x).state = .zombie ↔ (c.task x).state = .zombie) : Family c' where
  roots := by
    rw [hborn, ne_eq, ne_eq, hzombie, hzombie]
    exact h.roots
  kid t p hp := by
    rw [hchildren] at hp
    rw [hborn]
    exact h.kid t p hp
  nodup t := by
    rw [hchildren]
    exact h.nodup t
  one t t' p hp hp' := by
    rw [hchildren] at hp hp'
    exact h.one t t' p hp hp'
  placed p hp hpb := by
    rw [hborn] at hpb
    simp only [hchildren, hreaped]
    exact h.placed p hp hpb
  dead t ht := by
    rw [hchildren]
    exact h.dead t ((hzombie t).1 ht)
  once := by
    rw [hreaped]
    exact h.once
  gone p hp := by
    rw [hreaped] at hp
    simp only [hborn, hzombie, hchildren]
    exact h.gone p hp

/-- What a task knows remains so. -/
theorem PcOk.mono {q : Pc} (h : PcOk c t q) (hchildren : ∀ p ∈ (c.task t).children, p ∈ (c'.task t).children)
    (hzombie : ∀ p ∈ (c.task t).children, (c.task p).state = .zombie → (c'.task p).state = .zombie)
    (hstops : ∀ p ∈ (c.task t).children, (c.task p).stops ≤ (c'.task p).stops)
    (hseen : ∀ p n, p ∈ (c.task t).children → (p, n) ∈ c'.seen → (p, n) ∈ c.seen) : PcOk c' t q := by
  cases q with
  | stopped call p n status =>
      obtain ⟨hp, hn, hnew⟩ := h
      exact ⟨hchildren p hp, hn.trans (hstops p hp), fun hno => hnew (hseen p n hp hno)⟩
  | zombie call p status => exact ⟨hchildren p h.1, hzombie p h.1 h.2⟩
  | released => exact h
  | _ => trivial

theorem released_congr (h : c'.reaped = c.reaped) (t : Nat) : released c' t = released c t := by
  unfold released
  rw [h]

theorem mem_released : p ∈ released c t → p ∈ c.reaped.map Prod.snd := fun h => by
  obtain ⟨e, he, rfl⟩ := List.mem_map.1 h
  exact List.mem_map_of_mem (List.mem_filter.1 he).1

/-- The sum of the times that have been taken already stays. -/
theorem sum_congr (hreaped : c'.reaped = c.reaped)
    (htime : ∀ p ∈ c.reaped.map Prod.snd, (c'.task p).time = (c.task p).time) (t : Nat) :
    ((released c' t).map fun p => (c'.task p).time).sum = ((released c t).map fun p => (c.task p).time).sum := by
  rw [released_congr hreaped, List.map_congr_left fun p hp => htime p (mem_released hp)]

/-! ## A change of one task -/

/-- A change that has nothing to do with waiting. -/
structure Mild (c : Config) (p : Nat) (x : Task) : Prop where
  children : x.children = (c.task p).children
  pc : x.pc = (c.task p).pc
  pid : x.pid = (c.task p).pid
  ctime : x.ctime = (c.task p).ctime
  zombie : x.state = .zombie ↔ (c.task p).state = .zombie
  pgrp : 0 ≤ x.pgrp ∧ x.pgrp < 2 ^ 31
  time : (c.task p).state = .zombie → x.time = (c.task p).time
  stops : (c.task p).stops ≤ x.stops
  clear : x.state = .stopped → (p, x.stops) ∈ c.seen → x.exitCode = 0

/-- It keeps everything. -/
theorem Inv.mild (h : Inv c₀ c) (hx : Mild c p (f (c.task p))) : Inv c₀ (c.set p f) := by
  have hchildren := set_field (c := c) Task.children hx.children
  have hpc := set_field (c := c) Task.pc hx.pc
  have hzombie := set_prop (c := c) (fun y => y.state = .zombie) hx.zombie
  have hstops : ∀ x, (c.task x).stops ≤ ((c.set p f).task x).stops := fun x => by
    by_cases hxp : x = p
    · rw [hxp, set_self]
      exact hx.stops
    · rw [set_other hxp]
  have htime : ∀ x, (c.task x).state = .zombie → ((c.set p f).task x).time = (c.task x).time := fun x hdead => by
    by_cases hxp : x = p
    · rw [hxp] at hdead ⊢
      rw [set_self]
      exact hx.time hdead
    · rw [set_other hxp]
  refine ⟨h.family.congr rfl rfl hchildren hzombie, ⟨fun t => ?_, fun t ht => ?_, fun t ht => ?_, fun q hq hqb => ?_,
    fun q hq => ?_⟩, ⟨h.told.nodup, fun e he => ?_, fun q hq hseen => ?_⟩,
    ⟨fun t ht => ?_, h.charged.unborn, h.charged.mine⟩⟩
  · rw [hpc]
    apply (h.calls.ok t).mono
    · exact fun q hq => (hchildren t).symm ▸ hq
    · exact fun q _ => (hzombie q).2
    · exact fun q _ => hstops q
    · exact fun q n _ hseen => hseen
  · rw [hpc]
    exact h.calls.dead t ((hzombie t).1 ht)
  · rw [hpc]
    exact h.calls.unborn t ht
  · rw [set_field Task.pid hx.pid]
    exact h.calls.pid q hq hqb
  · by_cases hqp : q = p
    · rw [hqp, set_self]
      exact hx.pgrp
    · rw [set_other hqp]
      exact h.calls.pgrp q hq
  · obtain ⟨hborn, hle⟩ := h.told.mem e he
    exact ⟨hborn, hle.trans (hstops e.1)⟩
  · by_cases hqp : q = p
    · rw [hqp, set_self] at hq hseen ⊢
      exact hx.clear hq hseen
    · rw [set_other hqp] at hq hseen ⊢
      exact h.told.clear q hq hseen
  · have hdue : due (c.set p f) (c.task t).pc = due c (c.task t).pc := by
      have hok := h.calls.ok t
      cases hq : (c.task t).pc with
      | zombie call q status =>
          rw [hq] at hok
          exact htime q hok.2
      | _ => rfl
    have hsum := sum_congr (c := c) (Eq.refl (c.set p f).reaped)
      (fun q hq => htime q (h.family.gone q hq).2.1) t
    rw [set_field Task.ctime hx.ctime, hpc, hdue, hsum]
    exact h.charged.times t fun hdead => ht ((hzombie t).2 hdead)

/-! ## Steps of `waitpid` -/

/-- A step of a task that runs, without a child that comes or goes. -/
structure Turn (c : Config) (t : Nat) (x : Task) : Prop where
  children : x.children = (c.task t).children
  pid : x.pid = (c.task t).pid
  pgrp : x.pgrp = (c.task t).pgrp
  state : x.state ≠ .zombie ∧ x.state ≠ .stopped
  stops : x.stops = (c.task t).stops
  time : x.time = (c.task t).time
  ok : PcOk c t x.pc
  ctime : x.ctime + due c (c.task t).pc = (c.task t).ctime + due c x.pc

theorem Inv.turn (h : Inv c₀ c) (ht : c.Runs t) (hx : Turn c t (f (c.task t))) : Inv c₀ (c.set t f) := by
  have halive : (c.task t).state ≠ .zombie := by
    rw [ht.2]
    exact nofun
  have hchildren := set_field (c := c) Task.children hx.children
  have hstops := set_field (c := c) Task.stops hx.stops
  have htime := set_field (c := c) Task.time hx.time
  have hzombie := set_prop (c := c) (fun y => y.state = .zombie) (iff_of_false hx.state.1 halive)
  have hok : ∀ {x q}, PcOk c x q → PcOk (c.set t f) x q := fun {x q} hq => by
    apply hq.mono
    · exact fun p hp => (hchildren x).symm ▸ hp
    · exact fun p _ => (hzombie p).2
    · exact fun p _ => (hstops p).ge
    · exact fun p n _ hseen => hseen
  refine ⟨h.family.congr rfl rfl hchildren hzombie, ⟨fun x => ?_, fun x hdead => ?_, fun x hborn => ?_,
    fun p hp hpb => ?_, fun p hp => ?_⟩, ⟨h.told.nodup, fun e he => ?_, fun p hp hseen => ?_⟩,
    ⟨fun x hlive => ?_, h.charged.unborn, h.charged.mine⟩⟩
  · by_cases hxt : x = t
    · rw [hxt, set_self]
      exact hok hx.ok
    · rw [set_other hxt]
      exact hok (h.calls.ok x)
  · have hxt : x ≠ t := fun hxt => halive (hxt ▸ (hzombie x).1 hdead)
    rw [set_other hxt]
    exact h.calls.dead x ((hzombie x).1 hdead)
  · have hxt : x ≠ t := fun hxt => absurd ht.1 (hxt ▸ not_lt.2 hborn)
    rw [set_other hxt]
    exact h.calls.unborn x hborn
  · rw [set_field Task.pid hx.pid]
    exact h.calls.pid p hp hpb
  · rw [set_field Task.pgrp hx.pgrp]
    exact h.calls.pgrp p hp
  · rw [hstops]
    exact h.told.mem e he
  · have hpt : p ≠ t := fun hpt => by
      rw [hpt, set_self] at hp
      exact hx.state.2 hp
    rw [set_other hpt] at hp hseen ⊢
    exact h.told.clear p hp hseen
  · have hdue : ∀ q, due (c.set t f) q = due c q := fun q => by
      cases q with
      | zombie call p status => exact htime p
      | _ => rfl
    have hsum := sum_congr (c := c) (Eq.refl (c.set t f).reaped) (fun p _ => htime p) x
    rw [hdue, hsum]
    by_cases hxt : x = t
    · rw [hxt, set_self]
      have hold := h.charged.times t halive
      have hnew := hx.ctime
      rw [hold, add_assoc, add_comm (due c (c.task t).pc), ← add_assoc] at hnew
      exact add_right_cancel hnew
    · rw [set_other hxt] at hlive ⊢
      exact h.charged.times x hlive

/-- `t` goes somewhere else. -/
theorem Inv.goto (h : Inv c₀ c) (ht : c.Runs t) {q : Pc} (hok : PcOk c t q) (hdue : due c (c.task t).pc = due c q) :
    Inv c₀ (c.goto t q) := by
  have hstate : (c.task t).state ≠ .zombie ∧ (c.task t).state ≠ .stopped := by
    rw [ht.2]
    exact ⟨nofun, nofun⟩
  apply h.turn ht
  exact ⟨rfl, rfl, rfl, hstate, rfl, rfl, hok, congrArg _ hdue⟩

theorem Inv.charge (h : Inv c₀ c) (ht : c.Runs t) {call : Call} (hpc : (c.task t).pc = .scan call)
    (hp : p ∈ (c.task t).children) (hz : (c.task p).state = .zombie) : Inv c₀ (charge t call p c) := by
  have hstate : (c.task t).state ≠ .zombie ∧ (c.task t).state ≠ .stopped := by
    rw [ht.2]
    exact ⟨nofun, nofun⟩
  apply h.turn ht
  refine ⟨rfl, rfl, rfl, hstate, rfl, rfl, ⟨hp, hz⟩, ?_⟩
  rw [hpc]
  exact add_zero _

theorem Inv.sleep (h : Inv c₀ c) (ht : c.Runs t) {call : Call} (hpc : (c.task t).pc = .scan call) :
    Inv c₀ (sleep t call c) := by
  apply h.turn ht
  refine ⟨rfl, rfl, rfl, ⟨nofun, nofun⟩, rfl, rfl, trivial, ?_⟩
  rw [hpc]
  rfl

theorem Inv.wake (h : Inv c₀ c) (ht : c.Runs t) {call : Call} {oldblocked : BitVec 32}
    (hpc : (c.task t).pc = .asleep call oldblocked) : Inv c₀ (wake t call oldblocked c).2 := by
  have hstate : (c.task t).state ≠ .zombie ∧ (c.task t).state ≠ .stopped := by
    rw [ht.2]
    exact ⟨nofun, nofun⟩
  have hblocked : Inv c₀ (c.set t fun x => { x with blocked := oldblocked }) := by
    apply h.turn ht
    exact ⟨rfl, rfl, rfl, hstate, rfl, rfl, h.calls.ok t, rfl⟩
  have hruns : (c.set t fun x => { x with blocked := oldblocked }).Runs t := by
    refine ⟨ht.1, ?_⟩
    rw [set_self]
    exact ht.2
  have hasleep : due (c.set t fun x => { x with blocked := oldblocked })
      ((c.set t fun x => { x with blocked := oldblocked }).task t).pc = 0 := by
    rw [set_self]
    dsimp only
    rw [hpc]
    rfl
  unfold Wait.wake
  dsimp only
  split
  · exact hblocked.goto hruns trivial hasleep
  · exact hblocked.goto hruns trivial hasleep

/-- The exit code of a child that has been reported is cleared. -/
theorem Inv.clear (h : Inv c₀ c) (hp : p < c.born) : Inv c₀ (c.set p fun x => { x with exitCode := 0 }) := by
  apply h.mild
  exact ⟨rfl, rfl, rfl, rfl, .rfl, h.calls.pgrp p hp, fun _ => rfl, le_rfl, fun _ _ => rfl⟩

/-- **A stop is reported**, which has not been before. -/
theorem Inv.reportStop (h : Inv c₀ c) (ht : c.Runs t) {call : Call} {n : Nat} {status : BitVec 32}
    (hpc : (c.task t).pc = .stopped call p n status) : Inv c₀ (reportStop t call p n status c).2 := by
  obtain ⟨hkid, hn, hnew⟩ : PcOk c t (.stopped call p n status) := hpc ▸ h.calls.ok t
  have hp := h.family.kid t p hkid
  have hcleared := h.clear hp.2.2
  have hruns : (c.set p fun x => { x with exitCode := 0 }).Runs t :=
    ⟨ht.1, (set_field Task.state rfl t).trans ht.2⟩
  have hdue : due (c.set p fun x => { x with exitCode := 0 })
      ((c.set p fun x => { x with exitCode := 0 }).task t).pc =
        due (c.set p fun x => { x with exitCode := 0 }) .user := by
    rw [set_field (c := c) Task.pc rfl, hpc]
    rfl
  have hreturned := hcleared.goto hruns (q := .user) trivial hdue
  have hchildren : ∀ x, (((c.set p fun x => { x with exitCode := 0 }).goto t .user).task x).children =
      (c.task x).children := fun x => (set_field Task.children rfl x).trans (set_field Task.children rfl x)
  have hstops : ∀ x, (((c.set p fun x => { x with exitCode := 0 }).goto t .user).task x).stops = (c.task x).stops :=
    fun x => (set_field Task.stops rfl x).trans (set_field Task.stops rfl x)
  refine ⟨hreturned.family.congr rfl rfl (fun _ => rfl) fun _ => .rfl, ⟨fun x => ?_, hreturned.calls.dead,
    hreturned.calls.unborn, hreturned.calls.pid, hreturned.calls.pgrp⟩, ⟨?_, fun e he => ?_, fun q hq hseen => ?_⟩,
    ⟨hreturned.charged.times, hreturned.charged.unborn, hreturned.charged.mine⟩⟩
  · by_cases hxt : x = t
    · have hself : ((Wait.reportStop t call p n status c).2.task t).pc = .user := congrArg Task.pc (if_pos rfl)
      rw [hxt, hself]
      trivial
    · -- The child is nobody else's.
      have hok := hreturned.calls.ok x
      apply hok.mono
      · exact fun q hq => hq
      · exact fun q _ hz => hz
      · exact fun q _ => le_rfl
      · intro q m hq hmem
        refine (List.mem_cons.1 hmem).resolve_left fun heq => hxt ?_
        cases heq
        exact h.family.one x t p ((hchildren x) ▸ hq) hkid
  · exact List.nodup_cons.2 ⟨hnew, h.told.nodup⟩
  · rcases List.mem_cons.1 he with rfl | he
    · exact ⟨hp.2.2, hn.trans (hstops p).ge⟩
    · exact hreturned.told.mem e he
  · rcases List.mem_cons.1 hseen with heq | hseen
    · have hqp : q = p := congrArg Prod.fst heq
      rw [hqp]
      have hcode : (((c.set p fun x => { x with exitCode := 0 }).goto t .user).task p).exitCode =
          ((c.set p fun x => { x with exitCode := 0 }).task p).exitCode := set_field Task.exitCode rfl p
      exact hcode.trans (congrArg Task.exitCode (set_self c p _))
    · exact hreturned.told.clear q hq hseen

/-- **A child is released**, which has not been before. -/
theorem Inv.release (h : Inv c₀ c) (ht : c.Runs t) {call : Call} {status : BitVec 32}
    (hpc : (c.task t).pc = .zombie call p status) : Inv c₀ (release t call p status c) := by
  obtain ⟨hkid, hz⟩ : PcOk c t (.zombie call p status) := hpc ▸ h.calls.ok t
  have hp := h.family.kid t p hkid
  have halive : (c.task t).state ≠ .zombie := by
    rw [ht.2]
    exact nofun
  have htask : ∀ x, (Wait.release t call p status c).task x = if x = t then
      { c.task t with children := (c.task t).children.erase p, pc := .released call (c.task p).pid status }
      else c.task x := fun x => by
    by_cases hxt : x = t
    · rw [if_pos hxt, hxt]
      exact if_pos rfl
    · rw [if_neg hxt]
      exact if_neg hxt
  -- A field other than the children and the pc.
  have hfield : ∀ {α : Type} (g : Task → α) (x : Nat), (∀ y l q, g { y with children := l, pc := q } = g y) →
      g ((Wait.release t call p status c).task x) = g (c.task x) := fun g x hg => by
    rw [htask]
    split
    · next hxt => rw [hxt, hg]
    · rfl
  have hstate := fun x => hfield Task.state x fun _ _ _ => rfl
  have hkids : ∀ x q, q ∈ ((Wait.release t call p status c).task x).children ↔ q ∈ (c.task x).children ∧ q ≠ p :=
    fun x q => by
      rw [htask]
      by_cases hxt : x = t
      · rw [if_pos hxt, hxt, (h.family.nodup t).mem_erase_iff, and_comm]
      · rw [if_neg hxt, and_iff_left_of_imp]
        rintro hq rfl
        exact hxt (h.family.one x t q hq hkid)
  have hnew : p ∉ c.reaped.map Prod.snd := fun hno => (h.family.gone p hno).2.2 t hkid
  refine ⟨⟨?_, fun x q hq => ?_, fun x => ?_, fun x x' q hq hq' => ?_, fun q hq hqb => ?_, fun x hdead => ?_, ?_,
    fun q hq => ?_⟩, ⟨fun x => ?_, fun x hdead => ?_, fun x hborn => ?_, fun q hq hqb => ?_, fun q hq => ?_⟩,
    ⟨h.told.nodup, fun e he => ?_, fun q hq hseen => ?_⟩, ⟨fun x hlive => ?_, h.charged.unborn, fun e he => ?_⟩⟩
  · rw [hstate, hstate]
    exact h.family.roots
  · exact h.family.kid x q ((hkids x q).1 hq).1
  · rw [htask]
    split
    · exact (h.family.nodup t).erase p
    · exact h.family.nodup x
  · exact h.family.one x x' q ((hkids x q).1 hq).1 ((hkids x' q).1 hq').1
  · by_cases hqp : q = p
    · rw [hqp]
      exact .inr List.mem_cons_self
    · rcases h.family.placed q hq hqb with ⟨x, hx⟩ | hgone
      · exact .inl ⟨x, (hkids x q).2 ⟨hx, hqp⟩⟩
      · exact .inr (List.mem_cons_of_mem p hgone)
  · rw [hstate] at hdead
    have hxt : x ≠ t := fun hxt => halive (hxt ▸ hdead)
    rw [htask, if_neg hxt]
    exact h.family.dead x hdead
  · exact List.nodup_cons.2 ⟨hnew, h.family.once⟩
  · rw [hstate]
    rcases List.mem_cons.1 hq with rfl | hq
    · exact ⟨hp.2.2, hz, fun x hx => ((hkids x q).1 hx).2 rfl⟩
    · obtain ⟨hborn, hdead, hnot⟩ := h.family.gone q hq
      exact ⟨hborn, hdead, fun x hx => hnot x ((hkids x q).1 hx).1⟩
  · rw [htask]
    by_cases hxt : x = t
    · rw [if_pos hxt]
      exact h.calls.pid p hp.2.1 hp.2.2
    · rw [if_neg hxt]
      apply (h.calls.ok x).mono
      · exact fun q hq => (hkids x q).2 ⟨hq, fun hqp => hxt (h.family.one x t p (hqp ▸ hq) hkid)⟩
      · exact fun q _ hzq => (hstate q).trans hzq
      · exact fun q _ => (hfield Task.stops q fun _ _ _ => rfl).ge
      · exact fun q n _ hseen => hseen
  · rw [hstate] at hdead
    have hxt : x ≠ t := fun hxt => halive (hxt ▸ hdead)
    rw [htask, if_neg hxt]
    exact h.calls.dead x hdead
  · have hxt : x ≠ t := fun hxt => absurd ht.1 (hxt ▸ not_lt.2 hborn)
    rw [htask, if_neg hxt]
    exact h.calls.unborn x hborn
  · rw [hfield Task.pid q fun _ _ _ => rfl]
    exact h.calls.pid q hq hqb
  · rw [hfield Task.pgrp q fun _ _ _ => rfl]
    exact h.calls.pgrp q hq
  · rw [hfield Task.stops e.1 fun _ _ _ => rfl]
    exact h.told.mem e he
  · rw [hstate] at hq
    rw [hfield Task.stops q fun _ _ _ => rfl] at hseen
    rw [hfield Task.exitCode q fun _ _ _ => rfl]
    exact h.told.clear q hq hseen
  · rw [hstate] at hlive
    have htime := fun q => hfield Task.time q fun _ _ _ => rfl
    have hold := h.charged.times x hlive
    rw [hfield Task.ctime x fun _ _ _ => rfl, hold, htask]
    simp only [htime]
    by_cases hxt : x = t
    · -- What was due has come to be taken.
      have hmore : released (Wait.release t call p status c) x = p :: released c x := by
        rw [hxt]
        exact congrArg (List.map Prod.snd) (List.filter_cons_of_pos (by simp))
      rw [if_pos hxt, hmore, hxt, hpc, List.map_cons, List.sum_cons]
      simp only [due]
      rw [add_zero, add_assoc, add_comm (c.task p).time]
    · have hsame : released (Wait.release t call p status c) x = released c x :=
        congrArg (List.map Prod.snd) (List.filter_cons_of_neg (by simpa using fun heq => hxt heq.symm))
      have hdue : ∀ q, due (Wait.release t call p status c) q = due c q := fun q => by
        cases q with
        | zombie call q status => exact htime q
        | _ => rfl
      rw [if_neg hxt, hsame, hdue]
  · rcases List.mem_cons.1 he with rfl | he
    · exact ht.1
    · exact h.charged.mine e he

/-! ## Forks and exits -/

/-- **A new child** is its parent's, and has stopped and taken times never. -/
theorem Inv.fork (h : Inv c₀ c) (ht : c.Runs t) (hpc : (c.task t).pc = .user) {pid : Int} (hpid : 0 < pid) :
    Inv c₀ (fork t pid c) := by
  have htb : t ≠ c.born := ht.1.ne
  have halive : (c.task t).state ≠ .zombie := by
    rw [ht.2]
    exact nofun
  have hnew : (Wait.fork t pid c).task c.born = { c.task t with
      state := .running, pid, signal := 0, time := 0, ctime := 0, children := [], pc := .user, stops := 0 } :=
    if_pos rfl
  have hself : (Wait.fork t pid c).task t = { c.task t with children := c.born :: (c.task t).children } := by
    refine (if_neg htb).trans (if_pos rfl)
  have hother : ∀ x, x ≠ c.born → x ≠ t → (Wait.fork t pid c).task x = c.task x := fun x hx hxt => by
    refine (if_neg hx).trans (if_neg hxt)
  -- A field of the tasks that have been there, other than the children.
  have hfield : ∀ {α : Type} (g : Task → α) (x : Nat), x ≠ c.born → (∀ y l, g { y with children := l } = g y) →
      g ((Wait.fork t pid c).task x) = g (c.task x) := fun g x hx hg => by
    by_cases hxt : x = t
    · rw [hxt, hself, hg]
    · rw [hother x hx hxt]
  have hstate := fun x hx => hfield Task.state x hx fun _ _ => rfl
  have hkids : ∀ x q, q ∈ ((Wait.fork t pid c).task x).children ↔ q ∈ (c.task x).children ∧ x ≠ c.born ∨
      q = c.born ∧ x = t := fun x q => by
    by_cases hx : x = c.born
    · rw [hx, hnew]
      exact iff_of_false nofun fun hno => hno.elim (fun hno => hno.2 rfl) fun hno => htb hno.2.symm
    · by_cases hxt : x = t
      · rw [hxt, hself, List.mem_cons, and_iff_left htb, and_iff_left rfl, or_comm]
      · rw [hother x hx hxt, and_iff_left hx, or_iff_left fun hno => hxt hno.2]
  have hold : ∀ {x q}, q ∈ (c.task x).children → x ≠ c.born ∧ q ≠ c.born := fun {x q} hq =>
    ⟨(h.family.kid x q hq).1.ne, (h.family.kid x q hq).2.2.ne⟩
  have hlt : c.born < (Wait.fork t pid c).born := Nat.lt_succ_self c.born
  have hcase : ∀ {q}, q < (Wait.fork t pid c).born → q = c.born ∨ q < c.born := fun {q} hq =>
    (Nat.lt_succ_iff_lt_or_eq.1 hq).symm
  refine ⟨⟨⟨h.family.roots.1.trans hlt, ?_, ?_⟩, fun x q hq => ?_, fun x => ?_, fun x x' q hq hq' => ?_,
    fun q hq hqb => ?_, fun x hdead => ?_, h.family.once, fun q hq => ?_⟩, ⟨fun x => ?_, fun x hdead => ?_,
    fun x hborn => ?_, fun q hq hqb => ?_, fun q hq => ?_⟩, ⟨h.told.nodup, fun e he => ?_, fun q hq hseen => ?_⟩,
    ⟨fun x hlive => ?_, fun x hborn => h.charged.unborn x (hlt.le.trans hborn),
      fun e he => (h.charged.mine e he).trans hlt⟩⟩
  · rw [hstate 0 (by have := h.family.roots.1; omega)]
    exact h.family.roots.2.1
  · rw [hstate 1 h.family.roots.1.ne]
    exact h.family.roots.2.2
  · rcases (hkids x q).1 hq with ⟨hq, -⟩ | ⟨rfl, rfl⟩
    · obtain ⟨hx, hpos, hqb⟩ := h.family.kid x q hq
      exact ⟨hx.trans hlt, hpos, hqb.trans hlt⟩
    · exact ⟨ht.1.trans hlt, Nat.zero_lt_of_lt ht.1, hlt⟩
  · by_cases hx : x = c.born
    · rw [hx, hnew]
      exact List.nodup_nil
    · by_cases hxt : x = t
      · rw [hxt, hself]
        exact List.nodup_cons.2 ⟨fun hno => (hold hno).2 rfl, h.family.nodup t⟩
      · rw [hother x hx hxt]
        exact h.family.nodup x
  · rcases (hkids x q).1 hq with ⟨hqx, -⟩ | ⟨hqb, hxt⟩
    · rcases (hkids x' q).1 hq' with ⟨hqx', -⟩ | ⟨hqb, -⟩
      · exact h.family.one x x' q hqx hqx'
      · exact absurd hqb (hold hqx).2
    · rcases (hkids x' q).1 hq' with ⟨hqx', -⟩ | ⟨-, hxt'⟩
      · exact absurd hqb (hold hqx').2
      · exact hxt.trans hxt'.symm
  · rcases hcase hqb with rfl | hqb
    · exact .inl ⟨t, (hkids t _).2 (.inr ⟨rfl, rfl⟩)⟩
    · rcases h.family.placed q hq hqb with ⟨x, hx⟩ | hgone
      · exact .inl ⟨x, (hkids x q).2 (.inl ⟨hx, (hold hx).1⟩)⟩
      · exact .inr hgone
  · by_cases hx : x = c.born
    · rw [hx, hnew]
    · have hxt : x ≠ t := fun hxt => halive (by rw [← hxt, ← hstate x hx, hdead])
      rw [hother x hx hxt] at hdead ⊢
      exact h.family.dead x hdead
  · obtain ⟨hqb, hdead, hnot⟩ := h.family.gone q hq
    refine ⟨hqb.trans hlt, (hstate q hqb.ne).trans hdead, fun x hx => ?_⟩
    exact ((hkids x q).1 hx).elim (fun hx => hnot x hx.1) fun hx => hqb.ne hx.1
  · by_cases hx : x = c.born
    · rw [hx, hnew]
      trivial
    · rw [hfield Task.pc x hx fun _ _ => rfl]
      apply (h.calls.ok x).mono
      · exact fun q hq => (hkids x q).2 (.inl ⟨hq, hx⟩)
      · exact fun q hq hz => (hstate q (hold hq).2).trans hz
      · exact fun q hq => (hfield Task.stops q (hold hq).2 fun _ _ => rfl).ge
      · exact fun q n _ hseen => hseen
  · by_cases hx : x = c.born
    · rw [hx, hnew]
    · rw [hstate x hx] at hdead
      rw [hfield Task.pc x hx fun _ _ => rfl]
      exact h.calls.dead x hdead
  · rw [hfield Task.pc x (by omega) fun _ _ => rfl]
    exact h.calls.unborn x (hlt.le.trans hborn)
  · rcases hcase hqb with rfl | hqb
    · rw [hnew]
      exact hpid
    · rw [hfield Task.pid q hqb.ne fun _ _ => rfl]
      exact h.calls.pid q hq hqb
  · rcases hcase hq with rfl | hq
    · rw [hnew]
      exact h.calls.pgrp t ht.1
    · rw [hfield Task.pgrp q hq.ne fun _ _ => rfl]
      exact h.calls.pgrp q hq
  · obtain ⟨hb, hle⟩ := h.told.mem e he
    refine ⟨hb.trans hlt, ?_⟩
    rw [hfield Task.stops e.1 hb.ne fun _ _ => rfl]
    exact hle
  · by_cases hqb : q = c.born
    · exact absurd (h.told.mem _ hseen).1 hqb.not_lt
    · rw [hstate q hqb] at hq
      rw [hfield Task.stops q hqb fun _ _ => rfl] at hseen
      rw [hfield Task.exitCode q hqb fun _ _ => rfl]
      exact h.told.clear q hq hseen
  · have htime : ∀ q ∈ c.reaped.map Prod.snd, ((Wait.fork t pid c).task q).time = (c.task q).time := fun q hq =>
      hfield Task.time q (h.family.gone q hq).1.ne fun _ _ => rfl
    have hsum := sum_congr (c := c) (Eq.refl (Wait.fork t pid c).reaped) htime x
    rw [hsum]
    by_cases hx : x = c.born
    · -- Nobody has been released by the new task.
      have hnone : released c x = [] := by
        unfold released
        rw [List.filter_eq_nil_iff.2, List.map_nil]
        intro e he
        simpa [hx] using (h.charged.mine e he).ne
      rw [hnone, hx, hnew, h.charged.unborn c.born le_rfl]
      rfl
    · rw [hstate x hx] at hlive
      have hdue : due (Wait.fork t pid c) (c.task x).pc = due c (c.task x).pc := by
        have hok := h.calls.ok x
        cases hq : (c.task x).pc with
        | zombie call q status =>
            rw [hq] at hok
            exact hfield Task.time q (hold hok.1).2 fun _ _ => rfl
        | _ => rfl
      rw [hfield Task.ctime x hx fun _ _ => rfl, hfield Task.pc x hx fun _ _ => rfl, hdue]
      exact h.charged.times x hlive

/-- **A task exits**: init has its children then. -/
theorem Inv.exit (h : Inv c₀ c) (ht : c.Runs t) (h1 : 1 < t) (code : BitVec 32) : Inv c₀ (exit t code c) := by
  have halive : (c.task t).state ≠ .zombie := by
    rw [ht.2]
    exact nofun
  have hself : (Wait.exit t code c).task t =
      { c.task t with state := .zombie, exitCode := code, children := [], pc := .user } := if_pos rfl
  have hinit : (Wait.exit t code c).task 1 =
      { c.task 1 with children := (c.task t).children ++ (c.task 1).children } := (if_neg h1.ne).trans (if_pos rfl)
  have hother : ∀ x, x ≠ t → x ≠ 1 → (Wait.exit t code c).task x =
      if x ∈ (c.task t).children then { c.task x with ptraced := false } else c.task x :=
    fun x hx hx1 => (if_neg hx).trans (if_neg hx1)
  -- A field that none of the tasks changes.
  have hfield : ∀ {α : Type} (g : Task → α) (x : Nat), x ≠ t → (∀ y l b, g { y with children := l } = g y ∧
      g { y with ptraced := b } = g y) → g ((Wait.exit t code c).task x) = g (c.task x) := fun g x hx hg => by
    by_cases hx1 : x = 1
    · rw [hx1, hinit, (hg _ _ true).1]
    · rw [hother x hx hx1]
      split
      · rw [(hg _ [] _).2]
      · rfl
  have hstate := fun x hx => hfield Task.state x hx fun _ _ _ => ⟨rfl, rfl⟩
  have hpc := fun x hx => hfield Task.pc x hx fun _ _ _ => ⟨rfl, rfl⟩
  have hstops : ∀ x, ((Wait.exit t code c).task x).stops = (c.task x).stops := fun x => by
    by_cases hx : x = t
    · rw [hx, hself]
    · exact hfield Task.stops x hx fun _ _ _ => ⟨rfl, rfl⟩
  have htime : ∀ x, ((Wait.exit t code c).task x).time = (c.task x).time := fun x => by
    by_cases hx : x = t
    · rw [hx, hself]
    · exact hfield Task.time x hx fun _ _ _ => ⟨rfl, rfl⟩
  have hzombie : ∀ x, (c.task x).state = .zombie → ((Wait.exit t code c).task x).state = .zombie := fun x hdead => by
    by_cases hx : x = t
    · rw [hx, hself]
    · exact (hstate x hx).trans hdead
  have hchildren : ∀ x, x ≠ t → x ≠ 1 → ((Wait.exit t code c).task x).children = (c.task x).children :=
    fun x hx hx1 => by
      rw [hother x hx hx1]
      split <;> rfl
  have hkids : ∀ x q, q ∈ ((Wait.exit t code c).task x).children ↔ x ≠ t ∧
      (q ∈ (c.task x).children ∨ x = 1 ∧ q ∈ (c.task t).children) := fun x q => by
    by_cases hx : x = t
    · rw [hx, hself]
      exact iff_of_false nofun fun hno => hno.1 rfl
    · rw [and_iff_right hx]
      by_cases hx1 : x = 1
      · rw [hx1, hinit, List.mem_append, and_iff_right rfl, or_comm]
      · rw [hchildren x hx hx1, or_iff_left fun hno => hx1 hno.1]
  have hfrom : ∀ {x q}, q ∈ ((Wait.exit t code c).task x).children → ∃ y, q ∈ (c.task y).children ∧
      (y = x ∨ y = t ∧ x = 1) := fun {x q} hq => by
    rcases ((hkids x q).1 hq).2 with hq | ⟨hx, hq⟩
    · exact ⟨x, hq, .inl rfl⟩
    · exact ⟨t, hq, .inr ⟨rfl, hx⟩⟩
  refine ⟨⟨⟨h.family.roots.1, ?_, ?_⟩, fun x q hq => ?_, fun x => ?_, fun x x' q hq hq' => ?_, fun q hq hqb => ?_,
    fun x hdead => ?_, h.family.once, fun q hq => ?_⟩, ⟨fun x => ?_, fun x hdead => ?_, fun x hborn => ?_,
    fun q hq hqb => ?_, fun q hq => ?_⟩, ⟨h.told.nodup, fun e he => ?_, fun q hq hseen => ?_⟩,
    ⟨fun x hlive => ?_, h.charged.unborn, h.charged.mine⟩⟩
  · rw [hstate 0 (by omega)]
    exact h.family.roots.2.1
  · rw [hstate 1 h1.ne]
    exact h.family.roots.2.2
  · obtain ⟨y, hqy, hy⟩ := hfrom hq
    obtain ⟨-, hpos, hqb⟩ := h.family.kid y q hqy
    refine ⟨?_, hpos, hqb⟩
    rcases hy with rfl | ⟨-, rfl⟩
    · exact (h.family.kid y q hqy).1
    · exact h.family.roots.1
  · by_cases hx : x = t
    · rw [hx, hself]
      exact List.nodup_nil
    · by_cases hx1 : x = 1
      · rw [hx1, hinit]
        refine List.nodup_append.2 ⟨h.family.nodup t, h.family.nodup 1, fun q hq q' hq' heq => ?_⟩
        exact h1.ne (h.family.one 1 t q (heq ▸ hq') hq)
      · rw [hchildren x hx hx1]
        exact h.family.nodup x
  · obtain ⟨y, hqy, hy⟩ := hfrom hq
    obtain ⟨y', hqy', hy'⟩ := hfrom hq'
    have hsame := h.family.one y y' q hqy hqy'
    have hxt := ((hkids x q).1 hq).1
    have hxt' := ((hkids x' q).1 hq').1
    grind
  · rcases h.family.placed q hq hqb with ⟨x, hx⟩ | hgone
    · by_cases hxt : x = t
      · exact .inl ⟨1, (hkids 1 q).2 ⟨h1.ne, .inr ⟨rfl, hxt ▸ hx⟩⟩⟩
      · exact .inl ⟨x, (hkids x q).2 ⟨hxt, .inl hx⟩⟩
    · exact .inr hgone
  · by_cases hx : x = t
    · rw [hx, hself]
    · rw [hstate x hx] at hdead
      refine List.eq_nil_iff_forall_not_mem.2 fun q hq => ?_
      rcases ((hkids x q).1 hq).2 with hq | ⟨rfl, -⟩
      · rw [h.family.dead x hdead] at hq
        cases hq
      · exact h.family.roots.2.2 hdead
  · obtain ⟨hqb, hdead, hnot⟩ := h.family.gone q hq
    refine ⟨hqb, hzombie q hdead, fun x hx => ?_⟩
    obtain ⟨y, hy, -⟩ := hfrom hx
    exact hnot y hy
  · by_cases hx : x = t
    · rw [hx, hself]
      trivial
    · rw [hpc x hx]
      apply (h.calls.ok x).mono
      · exact fun q hq => (hkids x q).2 ⟨hx, .inl hq⟩
      · exact fun q _ => hzombie q
      · exact fun q _ => (hstops q).ge
      · exact fun q n _ hseen => hseen
  · by_cases hx : x = t
    · rw [hx, hself]
    · rw [hstate x hx] at hdead
      rw [hpc x hx]
      exact h.calls.dead x hdead
  · rw [hpc x fun hx => absurd ht.1 (hx ▸ not_lt.2 hborn)]
    exact h.calls.unborn x hborn
  · by_cases hx : q = t
    · rw [hx, hself]
      exact h.calls.pid t (by omega) ht.1
    · rw [hfield Task.pid q hx fun _ _ _ => ⟨rfl, rfl⟩]
      exact h.calls.pid q hq hqb
  · by_cases hx : q = t
    · rw [hx, hself]
      exact h.calls.pgrp t ht.1
    · rw [hfield Task.pgrp q hx fun _ _ _ => ⟨rfl, rfl⟩]
      exact h.calls.pgrp q hq
  · rw [hstops]
    exact h.told.mem e he
  · have hx : q ≠ t := fun hx => by
      rw [hx, hself] at hq
      cases hq
    rw [hstate q hx] at hq
    rw [hstops] at hseen
    rw [hfield Task.exitCode q hx fun _ _ _ => ⟨rfl, rfl⟩]
    exact h.told.clear q hq hseen
  · have hx : x ≠ t := fun hx => by
      rw [hx, hself] at hlive
      exact hlive rfl
    rw [hstate x hx] at hlive
    have hsum := sum_congr (c := c) (Eq.refl (Wait.exit t code c).reaped) (fun q _ => htime q) x
    have hdue : ∀ q, due (Wait.exit t code c) q = due c q := fun q => by
      cases q with
      | zombie call q status => exact htime q
      | _ => rfl
    rw [hfield Task.ctime x hx fun _ _ _ => ⟨rfl, rfl⟩, hpc x hx, hdue, hsum]
    exact h.charged.times x hlive

/-! ## The loop over the children -/

/-- What the loop has found, among `l`. -/
inductive Scanned (task : Nat → Task) (pgrp : Int) (call : Call) (l : List Nat) (flag : Bool) : Found → Prop
  | stopped {p : Nat} (hp : p ∈ l) (hskip : skips call.pid pgrp (task p) = false) (hstate : (task p).state = .stopped)
      (hopt : call.options &&& WUNTRACED ≠ 0) (hcode : (task p).exitCode ≠ 0) :
        Scanned task pgrp call l flag (.stopped p)
  | zombie {p : Nat} (hp : p ∈ l) (hskip : skips call.pid pgrp (task p) = false) (hstate : (task p).state = .zombie) :
      Scanned task pgrp call l flag (.zombie p)
  | nothing {flag' : Bool}
      (hnone : ∀ p ∈ l, skips call.pid pgrp (task p) = false → (task p).state ≠ .zombie ∧
        ((task p).state = .stopped → call.options &&& WUNTRACED = 0 ∨ (task p).exitCode = 0))
      (hflag : flag' = true ↔ flag = true ∨
        ∃ p ∈ l, skips call.pid pgrp (task p) = false ∧ (task p).state ≠ .stopped) :
      Scanned task pgrp call l flag (.nothing flag')

/-- One more child, which the loop goes past with `flag`. -/
theorem Scanned.cons {task : Nat → Task} {pgrp : Int} {call : Call} {l : List Nat} {flag flag' : Bool} {r : Found}
    (h : Scanned task pgrp call l flag' r)
    (hpast : skips call.pid pgrp (task p) = false → (task p).state ≠ .zombie ∧
      ((task p).state = .stopped → call.options &&& WUNTRACED = 0 ∨ (task p).exitCode = 0))
    (hflag : flag' = true ↔ flag = true ∨ skips call.pid pgrp (task p) = false ∧ (task p).state ≠ .stopped) :
    Scanned task pgrp call (p :: l) flag r := by
  cases h with
  | stopped hp hskip hstate hopt hcode => exact .stopped (List.mem_cons_of_mem p hp) hskip hstate hopt hcode
  | zombie hp hskip hstate => exact .zombie (List.mem_cons_of_mem p hp) hskip hstate
  | nothing hnone hflag' =>
      refine .nothing (List.forall_mem_cons.2 ⟨hpast, hnone⟩) ?_
      rw [hflag', hflag, List.exists_mem_cons_iff, or_assoc]

/-- **The loop** finds the first child that there is something to say of. -/
theorem scan_spec (task : Nat → Task) (pgrp : Int) (call : Call) (l : List Nat) (flag : Bool) :
    Scanned task pgrp call l flag (scan task pgrp call l flag) := by
  induction l generalizing flag with
  | nil => exact .nothing nofun (by simp)
  | cons p l ih =>
      rw [scan]
      by_cases hskip : skips call.pid pgrp (task p) = true
      · rw [if_pos hskip]
        exact (ih flag).cons (fun hno => by simp [hskip] at hno) (by simp [hskip])
      · rw [if_neg hskip]
        have hno := Bool.eq_false_of_not_eq_true hskip
        cases hstate : (task p).state with
        | stopped =>
            dsimp only
            split
            · next hpast =>
                refine (ih flag).cons (fun _ => ⟨?_, fun _ => hpast⟩) ?_
                · rw [hstate]
                  exact nofun
                · rw [or_iff_left fun h => h.2 hstate]
            · next hpast =>
                rw [not_or] at hpast
                exact .stopped List.mem_cons_self hno hstate hpast.1 hpast.2
        | zombie => exact .zombie List.mem_cons_self hno hstate
        | _ =>
            -- It runs, or sleeps.
            dsimp only
            refine (ih true).cons (fun _ => ⟨?_, fun hstop => ?_⟩) (iff_of_true rfl (.inr ⟨hno, ?_⟩))
            · rw [hstate]
              exact nofun
            · rw [hstate] at hstop
              cases hstop
            · rw [hstate]
              exact nofun

end

section

variable {ok : Config → Event → Prop} {c₀ c c' : Config} {t : Nat} {call : Call} {r : Return}

theorem Inv.look (h : Inv c₀ c) (ht : c.Runs t) (hpc : (c.task t).pc = .scan call) : Inv c₀ (look t call c).2 := by
  have hdue : due c (c.task t).pc = 0 := by
    rw [hpc]
    rfl
  have hspec := scan_spec c.task (c.task t).pgrp call (c.task t).children false
  have hgoto : ∀ {q : Pc}, ((c.goto t q).task t).pc = q := fun {q} => congrArg Task.pc (set_self c t _)
  unfold Wait.look
  generalize scan c.task (c.task t).pgrp call (c.task t).children false = found at hspec ⊢
  cases hspec with
  | @stopped p hp hskip hstate hopt hcode =>
      have hnew : (p, (c.task p).stops) ∉ c.seen := fun hseen => hcode (h.told.clear p hstate hseen)
      have hstop : Inv c₀ (c.goto t (.stopped call p (c.task p).stops ((c.task p).exitCode <<< 8 ||| 0x7f))) :=
        h.goto ht ⟨hp, le_rfl, hnew⟩ hdue
      dsimp only
      split
      · exact hstop
      · exact hstop.reportStop ⟨ht.1, (set_field Task.state rfl t).trans ht.2⟩ hgoto
  | @zombie p hp hskip hstate =>
      have hcharge := h.charge ht hpc hp hstate
      dsimp only
      split
      · exact hcharge
      · exact hcharge.release ⟨ht.1, (set_field Task.state rfl t).trans ht.2⟩ (congrArg Task.pc (set_self c t _))
  | @nothing flag' hnone hflag =>
      cases flag' with
      | true =>
          dsimp only
          split
          · exact h.goto ht trivial hdue
          · exact h.sleep ht hpc
      | false => exact h.goto ht trivial hdue

/-- What a signal does to the task that it is for. -/
theorem mild_signal (h : Inv c₀ c) {p sig : Nat} (hp : p < c.born) (hagain : ¬ Again c p sig) :
    Mild c p (sendSig sig (c.task p)) := by
  have hpgrp := h.calls.pgrp p hp
  -- A stop that has been reported is one that has been.
  have hnew : ∀ n, (c.task p).stops < n → (p, n) ∉ c.seen := fun n hn hseen =>
    absurd (h.told.mem _ hseen).2 (not_le.2 hn)
  have hresume : Mild c p (resume sig (c.task p)) ∧ (resume sig (c.task p)).stops = (c.task p).stops ∧
      (resume sig (c.task p)).ptraced = (c.task p).ptraced ∧ ((resume sig (c.task p)).state = .stopped →
        resume sig (c.task p) = c.task p ∧ sig ≠ SIGKILL ∧ sig ≠ SIGCONT) := by
    unfold resume
    by_cases hsig : sig = SIGKILL ∨ sig = SIGCONT
    · rw [if_pos hsig]
      refine ⟨⟨rfl, rfl, rfl, rfl, ?_, hpgrp, fun _ => rfl, le_rfl, fun _ _ => rfl⟩, rfl, rfl, fun hno => ?_⟩
      · dsimp only
        split
        · next hstop =>
            rw [hstop]
            exact ⟨nofun, nofun⟩
        · rfl
      · dsimp only at hno
        split at hno
        · cases hno
        · next hstop => exact absurd hno hstop
    · rw [if_neg hsig]
      exact ⟨⟨rfl, rfl, rfl, rfl, .rfl, hpgrp, fun _ => rfl, le_rfl, h.told.clear p⟩, rfl, rfl,
        fun _ => ⟨rfl, not_or.1 hsig⟩⟩
  obtain ⟨hmild, hstops, hptraced, hstill⟩ := hresume
  unfold sendSig
  dsimp only
  split
  · next htraced =>
      unfold trace
      dsimp only
      split
      · -- It stops once more.
        next hgo =>
          refine ⟨hmild.children, hmild.pc, hmild.pid, hmild.ctime, iff_of_false nofun ?_, hmild.pgrp, hmild.time, ?_,
            fun _ hseen => absurd hseen (hnew _ ?_)⟩
          · rw [← hmild.zombie]
            rcases hgo with hgo | hgo <;> rw [hgo] <;> exact nofun
          · dsimp only
            omega
          · dsimp only
            omega
      · next hgo =>
          refine ⟨hmild.children, hmild.pc, hmild.pid, hmild.ctime, hmild.zombie, hmild.pgrp, hmild.time, hmild.stops,
            fun hstop hseen => ?_⟩
          obtain ⟨hsame, hsig⟩ := hstill hstop
          dsimp only at hstop hseen
          rw [hstops] at hseen
          rw [hsame] at hstop
          exact absurd ⟨hptraced ▸ htraced, hstop, h.told.clear p hstop hseen, hsig⟩ hagain
  · exact ⟨hmild.children, hmild.pc, hmild.pid, hmild.ctime, hmild.zombie, hmild.pgrp, hmild.time, hmild.stops,
      hmild.clear⟩

/-- **Every step keeps it.** -/
theorem Inv.step (h : Inv c₀ c) {r : Option Return} (hs : Step Clear c r c') : Inv c₀ c' := by
  have halive : ∀ {t}, c.Runs t → (c.task t).state ≠ .zombie := fun ht hno => nomatch ht.2.symm.trans hno
  cases hs with
  | @call t call ht hpc =>
      apply h.goto ht
      · split <;> trivial
      · rw [hpc]
        split <;> rfl
  | @verified t call ht hpc =>
      refine h.goto ht (q := .scan call) trivial ?_
      rw [hpc]
      rfl
  | scan ht hpc hok => exact h.look ht hpc
  | stopped ht hpc => exact h.reportStop ht hpc
  | zombie ht hpc => exact h.release ht hpc
  | @released t call flag status ht hpc =>
      refine h.goto ht (q := .user) trivial ?_
      rw [hpc]
      rfl
  | wake ht hpc => exact h.wake ht hpc
  | fork pid ht hpc hpid => exact h.fork ht hpc hpid
  | exit code ht hpc h1 => exact h.exit ht h1 code
  | @stop t signr ht hpc hsig =>
      apply h.mild
      refine ⟨rfl, rfl, rfl, rfl, iff_of_false nofun (halive ht), h.calls.pgrp t ht.1,
        fun hno => absurd hno (halive ht),
        Nat.le_succ _, fun _ hseen => ?_⟩
      -- This stop is a new one.
      exact absurd (h.told.mem _ hseen).2 (Nat.not_succ_le_self _)
  | signal hp hsig hok =>
      apply h.mild
      exact mild_signal h hp hok
  | @goOn p signal hp hstate =>
      apply h.mild
      refine ⟨rfl, rfl, rfl, rfl, iff_of_false nofun ?_, h.calls.pgrp p hp, fun _ => rfl, le_rfl, nofun⟩
      rw [hstate]
      exact nofun
  | @other p v pgrp ptraced time signal blocked hp hv hpgrp htime =>
      apply h.mild
      refine ⟨rfl, rfl, rfl, rfl, ?_, hpgrp, htime, le_rfl, fun hstop hseen => ?_⟩
      · rcases hv with rfl | ⟨hz, -, hz', -⟩
        · rfl
        · exact iff_of_false hz hz'
      · rcases hv with rfl | ⟨-, hs, -⟩
        · exact h.told.clear p hstop hseen
        · exact absurd hstop hs

/-! ## What waiting is for -/

/-- Children have positive process ids, so that theirs are no errors. -/
theorem Inv.kid_pid (h : Inv c₀ c) {p : Nat} (hp : p ∈ (c.task t).children) : 0 < (c.task p).pid :=
  h.calls.pid p (h.family.kid t p hp).2.1 (h.family.kid t p hp).2.2

theorem goto_pid (c : Config) (t : Nat) (q : Pc) (x : Nat) : ((c.goto t q).task x).pid = (c.task x).pid :=
  set_field Task.pid rfl x

theorem reportStop_fst (t : Nat) (call : Call) (p n : Nat) (status : BitVec 32) (c : Config) :
    (reportStop t call p n status c).1 = some ⟨t, call, (c.task p).pid, stored call status⟩ := rfl

/-- What `waitpid` returns when it has looked. -/
theorem Inv.look_return (h : Inv c₀ c) (hr : (Wait.look t call c).1 = some r) : r.task = t ∧ r.call = call ∧
    (r.value = 0 → call.options &&& WNOHANG ≠ 0) := by
  have hspec := scan_spec c.task (c.task t).pgrp call (c.task t).children false
  unfold Wait.look at hr
  generalize scan c.task (c.task t).pgrp call (c.task t).children false = found at hspec hr
  cases hspec with
  | @stopped p hp =>
      dsimp only at hr
      split at hr
      · cases hr
      · rw [reportStop_fst, goto_pid] at hr
        cases hr
        exact ⟨rfl, rfl, fun hzero => absurd hzero (h.kid_pid hp).ne'⟩
  | zombie =>
      dsimp only at hr
      split at hr <;> cases hr
  | @nothing flag' =>
      cases flag' with
      | true =>
          dsimp only at hr
          split at hr
          · next hopt =>
              cases hr
              exact ⟨rfl, rfl, fun _ => hopt⟩
          · cases hr
      | false =>
          cases hr
          exact ⟨rfl, rfl, fun hzero => absurd hzero (by decide : -ECHILD ≠ 0)⟩

theorem Inv.returns (h : Inv c₀ c) (hs : Step ok c (some r) c') :
    (r.value = -ECHILD → (c.task r.task).pc = .scan r.call) ∧ (r.value = 0 → r.call.options &&& WNOHANG ≠ 0) := by
  -- A process id is neither.
  have hpid : ∀ {n : Int} {t : Nat} {call : Call} {status : Option (BitVec 32)}, 0 < n →
      some r = some ⟨t, call, n, status⟩ →
      (r.value = -ECHILD → (c.task r.task).pc = .scan r.call) ∧ (r.value = 0 → r.call.options &&& WNOHANG ≠ 0) :=
    fun {n t call status} hpos heq => by
      have hvalue : r.value = n := congrArg Return.value (Option.some_inj.1 heq)
      rw [hvalue]
      refine ⟨fun hno => ?_, fun hno => absurd hno hpos.ne'⟩
      rw [hno] at hpos
      exact absurd hpos (by decide)
  generalize hr : some r = o at hs
  cases hs with
  | @scan t call ht hpc hok =>
      obtain ⟨htask, hcall, hzero⟩ := h.look_return hr.symm
      rw [htask, hcall]
      exact ⟨fun _ => hpc, hzero⟩
  | @stopped t call p n status ht hpc =>
      obtain ⟨hkid, -⟩ : PcOk c t (.stopped call p n status) := hpc ▸ h.calls.ok t
      exact hpid (h.kid_pid hkid) hr
  | @released t call flag status ht hpc =>
      have hflag : PcOk c t (.released call flag status) := hpc ▸ h.calls.ok t
      exact hpid hflag hr
  | @wake t call oldblocked ht hpc =>
      unfold Wait.wake at hr
      dsimp only at hr
      split at hr
      · cases hr
        exact ⟨fun hno => absurd hno (by decide : -ERESTARTSYS ≠ -ECHILD),
          fun hno => absurd hno (by decide : -ERESTARTSYS ≠ 0)⟩
      · cases hr
  | _ => cases hr

/-- Nobody is waiting yet. -/
theorem Start.inv (h : Start c) : Inv c c := by
  obtain ⟨hreaped, hseen⟩ := h.fresh
  have huser : ∀ q : Pc, q = .user → due c q = 0 ∧ ∀ t, PcOk c t q := by
    rintro q rfl
    exact ⟨rfl, fun _ => trivial⟩
  refine ⟨⟨h.roots, h.kid, h.nodup, h.one, fun p hp hpb => .inl (h.placed p hp hpb), h.dead, ?_, ?_⟩,
    ⟨fun t => (huser _ (h.user t)).2 t, fun t _ => h.user t, fun t _ => h.user t, h.pid, h.pgrp⟩,
    ⟨?_, ?_, ?_⟩, ⟨fun t _ => ?_, h.unborn, ?_⟩⟩
  · rw [hreaped]
    exact List.nodup_nil
  · rw [hreaped]
    exact nofun
  · rw [hseen]
    exact List.nodup_nil
  · rw [hseen]
    exact nofun
  · rw [hseen]
    exact nofun
  · rw [(huser _ (h.user t)).1, released, hreaped]
    exact (add_zero _).symm.trans (add_zero _).symm
  · rw [hreaped]
    exact nofun

/-- A run keeps it. -/
theorem Inv.run (h : Inv c₀ c) (hr : ReflTransGen (Next Clear) c c') : Inv c₀ c' := by
  induction hr with
  | refl => exact h
  | tail _ hs ih =>
      obtain ⟨r, hs⟩ := hs
      exact ih.step hs

end

/-! ## The links -/

section

variable {s : Sched.ProcessTree.Tasks} {t p : Nat} {l : List Nat}

end

/-! ## Init and a child -/

/-- Task 0, init, and a child of init in the state `v`, where SIGSTOP has been. -/
def childOfInit (v : TaskState) : Config where
  task x :=
    { state := if x = 2 then v else .running, pid := x, pgrp := 0, ptraced := false
      exitCode := if x = 2 then BitVec.ofNat 32 SIGSTOP else 0
      time := if x = 2 then (3, 5) else 0, ctime := 0, signal := 0, blocked := 0
      children := if x = 0 then [1] else if x = 1 then [2] else []
      pc := .user, stops := 0 }
  born := 3
  reaped := []
  seen := []

/-- `waitpid(-1, NULL, 0)`. -/
def waitAny : Call := { pid := -1, stat := false, options := 0 }

/-- Init has made the call. -/
def called (v : TaskState) : Config := (childOfInit v).goto 1 (.scan waitAny)

/-- No condition. -/
def anyhow : Config → Event → Prop := fun _ _ => True

end Wait
end Kernel
end Linux095
