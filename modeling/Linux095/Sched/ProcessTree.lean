import Linux095.Links.Doubly
import Linux095.Seq.Program
import Mathlib.Logic.Relation

/-!
# `Sched.ProcessTree` — the process tree (`kernel/exit.c`, `kernel/fork.c`)

Each task points to its parent, to its youngest child, and to its younger and its older sibling. `fork` puts a child
in front, `release` takes one out, and `do_exit` hands all children of a task over to init.

* `sendSig`, `killPg`, `doExit`, `fork`, `release` — the source's functions;
* `Step` — what tasks do one after the other; `fork` and `waitpid` may sleep half-way;
* `Ptree` — **what the links say when nobody is half-way**; `auditPtree` is what `audit_ptree` checks.

A task is named by the page its `task_struct` is in.
-/

namespace Linux095
namespace Sched
namespace ProcessTree
open Seq Links

def NR_TASKS : Nat := 64
def SIGHUP : Nat := 1
def SIGKILL : Nat := 9
def SIGCHLD : Nat := 17
def SIGCONT : Nat := 18

inductive TaskState where
  | running
  | interruptible
  | uninterruptible
  | zombie
  | stopped
  deriving DecidableEq, Repr

/-- `struct task_struct`. -/
structure Task where
  state : TaskState
  pid : Int
  pgrp : Int
  session : Int
  leader : Bool
  /-- `flags & PF_PTRACED`. -/
  ptraced : Bool
  pptr : Nat
  cptr : Option Nat
  ysptr : Option Nat
  osptr : Option Nat

/-- `task[]`, and the pages. -/
structure Tasks where
  task : Nat → Option Nat
  page : Nat → Task

namespace Tasks

def set (s : Tasks) (p : Nat) (f : Task → Task) : Tasks :=
  { s with page := fun x => if x = p then f (s.page x) else s.page x }

def setState (s : Tasks) (p : Nat) (v : TaskState) : Tasks := s.set p fun t => { t with state := v }

def setTask (s : Tasks) (nr : Nat) (v : Option Nat) : Tasks :=
  { s with task := fun i => if i = nr then v else s.task i }

/-- `p` is in `task[]`, and not task 0. -/
def Live (s : Tasks) (p : Nat) : Prop := ∃ nr, 0 < nr ∧ nr < NR_TASKS ∧ s.task nr = some p

/-- `task[1]`. -/
def init (s : Tasks) : Nat := (s.task 1).getD 0

end Tasks

/-- From `LAST_TASK` down, without `FIRST_TASK`. -/
def slots : List Nat := (List.range' 1 (NR_TASKS - 1)).reverse

/-! ## Signals -/

/-- Why a call does not return. -/
inductive Off where
  /-- `schedule()` in a task that is not going to run again. -/
  | gone (s : Tasks)
  /-- An assignment through a NULL pointer. -/
  | fault

abbrev Call (α : Type) : Type := Prog Tasks Off α

/-- What `send_sig` does to the states of `p` and of its parent. -/
def deliver (sig p : Nat) (s : Tasks) : Tasks :=
  let s := if (sig = SIGKILL ∨ sig = SIGCONT) ∧ (s.page p).state = .stopped then s.setState p .running else s
  if (s.page p).ptraced then
    let f := (s.page p).pptr
    let s := if (s.page f).state = .interruptible then s.setState f .running else s
    if (s.page p).state = .interruptible ∨ (s.page p).state = .running then s.setState p .stopped else s
  else s

/-- `send_sig` with `priv`. A task that is traced and sends itself a signal calls `schedule()`. -/
def sendSig (current sig p : Nat) : Call Unit := do
  .modify (deliver sig p)
  if ← .reads (fun s => (s.page p).ptraced && p == current) then fun s => .error (.gone s)

/-- The loop of `kill_pg`. -/
def killSlots (current : Nat) (pgrp : Int) (sig : Nat) : List Nat → Call Unit
  | [] => return
  | nr :: l => do
      match ← .reads fun s => (s.task nr).filter fun p => (s.page p).pgrp == pgrp with
      | none => killSlots current pgrp sig l
      | some p =>
          sendSig current sig p
          killSlots current pgrp sig l

/-- `kill_pg` with `priv`. -/
def killPg (current : Nat) (pgrp : Int) (sig : Nat) : Call Unit :=
  if pgrp ≤ 0 then return else killSlots current pgrp sig slots

/-- `is_orphaned_pgrp`. -/
def isOrphanedPgrp (s : Tasks) (pgrp : Int) : Bool :=
  !slots.any fun nr => (s.task nr).any fun p =>
    let t := s.page p
    let f := s.page t.pptr
    t.pgrp == pgrp && t.state != .zombie && f.pid != 1 && f.pgrp != pgrp && f.session == t.session

/-- `has_stopped_jobs`. -/
def hasStoppedJobs (s : Tasks) (pgrp : Int) : Bool :=
  slots.any fun nr => (s.task nr).any fun p => (s.page p).pgrp == pgrp && (s.page p).state == .stopped

/-! ## `do_exit` -/

/-- Case i: the process group of `current` loses its last connection, and has stopped jobs. -/
def orphansOwn (current : Nat) (s : Tasks) : Bool :=
  let t := s.page current
  let f := s.page t.pptr
  f.pgrp != t.pgrp && f.session == t.session && isOrphanedPgrp s t.pgrp && hasStoppedJobs s t.pgrp

/-- Case ii: so does the process group of the child `p`. -/
def orphansChild (current p : Nat) (s : Tasks) : Bool :=
  let t := s.page current
  let c := s.page p
  c.pgrp != t.pgrp && c.session == t.session && isOrphanedPgrp s c.pgrp && hasStoppedJobs s c.pgrp

/-- SIGHUP and SIGCONT to the process group of `p`, when `orphaned`. -/
def hangUp (current p : Nat) (orphaned : Tasks → Bool) : Call Unit := do
  if ← .reads orphaned then
    let pgrp ← .reads fun s => (s.page p).pgrp
    killPg current pgrp SIGHUP
    killPg current pgrp SIGCONT

/-- The children of `current`, of which `p` is the oldest, go in front of those of init. -/
def splice (current p : Nat) : Call Unit := do
  let init ← .reads Tasks.init
  let first ← .reads fun s => (s.page init).cptr
  .modify fun s => s.set p fun t => { t with osptr := first }
  match first with
  | none => .halt .fault
  | some c =>
      .modify fun s => s.set c fun t => { t with ysptr := some p }
      .modify fun s => s.set init fun t => { t with cptr := (s.page current).cptr }
      .modify fun s => s.set current fun t => { t with cptr := none }

/-- The loop of `do_exit` over the children of `current`, from `p` on. -/
def adopt (current : Nat) : Nat → Nat → Call Unit
  | 0, _ => .halt .fault
  | fuel + 1, p => do
      .modify fun s => s.set p fun t => { t with ptraced := false, pptr := s.init }
      hangUp current p (orphansChild current p)
      match ← .reads fun s => (s.page p).osptr with
      | some q => adopt current fuel q
      | none => splice current p

/-- `if (p = current->p_cptr)`. -/
def adoptAll (current : Nat) : Call Unit := do
  match ← .reads fun s => (s.page current).cptr with
  | none => return
  | some p => adopt current NR_TASKS p

/-- A session leader hangs up its terminal, when it has one: `tty` is the foreground process group. -/
def hangUpTty (current : Nat) (tty : Option Int) : Call Unit := do
  match ← .reads fun s => tty.filter fun _ => (s.page current).leader with
  | none => return
  | some pgrp => killPg current pgrp SIGHUP

/-- `do_exit` from `current->state = TASK_ZOMBIE` on. -/
def doExit (current : Nat) (tty : Option Int) : Call Unit := do
  .modify fun s => s.setState current .zombie
  hangUp current current (orphansOwn current)
  let father ← .reads fun s => (s.page current).pptr
  sendSig current SIGCHLD father
  adoptAll current
  hangUpTty current tty

/-! ## `fork` and `release` -/

/-- `sys_fork` up to `copy_mem`: `p` is a copy of `current`, its links included. -/
def fork (current p nr : Nat) (pid : Int) (s : Tasks) : Tasks :=
  (s.setTask nr (some p)).set p fun _ => { s.page current with state := .uninterruptible, pid, leader := false }

/-- The end of `sys_fork`. -/
def forkDone (current p : Nat) (s : Tasks) : Tasks :=
  let first := (s.page current).cptr
  let s := s.set p fun t => { t with pptr := current, cptr := none, ysptr := none, osptr := first }
  let s := first.elim s fun o => s.set o fun t => { t with ysptr := some p }
  (s.set current fun t => { t with cptr := some p }).setState p .running

/-- `release`. -/
def release (p nr : Nat) (s : Tasks) : Tasks :=
  let t := s.page p
  let s := s.setTask nr none
  let s := t.osptr.elim s fun o => s.set o fun x => { x with ysptr := t.ysptr }
  match t.ysptr with
  | some y => s.set y fun x => { x with osptr := t.osptr }
  | none => s.set t.pptr fun x => { x with cptr := t.osptr }

/-! ## Runs -/

/-- Where a task is. -/
inductive Pc where
  | run
  /-- In `copy_mem`, for the child `p`. -/
  | forking (p : Nat)
  /-- In `waitpid`, storing the exit code of the zombie `p`. -/
  | reaping (p : Nat)
  deriving DecidableEq

structure Config where
  tasks : Tasks
  pc : Nat → Pc

namespace Config

def goto (c : Config) (t : Nat) (q : Pc) : Config := { c with pc := fun x => if x = t then q else c.pc x }

/-- `p` is being made. -/
def Half (c : Config) (p : Nat) : Prop := ∃ t, c.pc t = .forking p

/-- `p` is a task. -/
def Linked (c : Config) (p : Nat) : Prop := c.tasks.Live p ∧ ¬ c.Half p

/-- `t` can make a step. -/
def Runs (c : Config) (t : Nat) : Prop := c.Linked t ∧ (c.tasks.page t).state = .running

end Config

/-- One step. Task 0 pauses for ever, after it has made init, and init does not exit. -/
inductive Step (ok : Tasks → Nat → Prop) : Config → Config → Prop
  | fork {c : Config} {t p nr : Nat} (pid : Int) (ht : c.Runs t) (hpc : c.pc t = .run) (hp : ¬ c.tasks.Live p)
      (hzero : c.tasks.task 0 ≠ some p) (hnr : 0 < nr ∧ nr < NR_TASKS) (hfree : c.tasks.task nr = none) :
      Step ok c ({ c with tasks := fork t p nr pid c.tasks }.goto t (.forking p))
  | forkDone {c : Config} {t p : Nat} (ht : c.Linked t) (hpc : c.pc t = .forking p) :
      Step ok c ({ c with tasks := forkDone t p c.tasks }.goto t .run)
  | forkFail {c : Config} {t p nr : Nat} (ht : c.Linked t) (hpc : c.pc t = .forking p)
      (hnr : 0 < nr ∧ nr < NR_TASKS) (hp : c.tasks.task nr = some p) :
      Step ok c ({ c with tasks := c.tasks.setTask nr none }.goto t .run)
  | exit {c : Config} {t : Nat} {s : Tasks} (tty : Option Int) (ht : c.Runs t) (hpc : ∀ p, c.pc t ≠ .forking p)
      (hinit : c.tasks.task 1 ≠ some t) (hok : ok c.tasks t) (hs : doExit t tty c.tasks = .ok ((), s)) :
      Step ok c ({ c with tasks := s }.goto t .run)
  /-- `schedule()` half-way through `do_exit`, in a task that is a zombie. -/
  | exitGone {c : Config} {t : Nat} {s : Tasks} (tty : Option Int) (ht : c.Runs t) (hpc : ∀ p, c.pc t ≠ .forking p)
      (hinit : c.tasks.task 1 ≠ some t) (hok : ok c.tasks t) (hs : doExit t tty c.tasks = .error (.gone s)) :
      Step ok c ({ c with tasks := s }.goto t .run)
  /-- The loop of `sys_waitpid` finds a zombie. -/
  | wait {c : Config} {t p : Nat} (ht : c.Runs t) (hpc : c.pc t = .run)
      (hp : Reaches (fun x => (c.tasks.page x).osptr) p (c.tasks.page t).cptr)
      (hz : (c.tasks.page p).state = .zombie) : Step ok c (c.goto t (.reaping p))
  | release {c : Config} {t p nr : Nat} (ht : c.Linked t) (hpc : c.pc t = .reaping p)
      (hnr : 0 < nr ∧ nr < NR_TASKS) (hp : c.tasks.task nr = some p) :
      Step ok c ({ c with tasks := release p nr c.tasks }.goto t .run)
  /-- Sleeping, waking up, signals, `ptrace`, process groups and sessions. -/
  | other {c : Config} {t : Nat} (v : TaskState) (pgrp session : Int) (leader ptraced : Bool)
      (hv : v = .zombie ↔ (c.tasks.page t).state = .zombie) :
      Step ok c { c with tasks := c.tasks.set t fun x => { x with state := v, pgrp, session, leader, ptraced } }

/-! ## What is expected of the links -/

/-- `audit_ptree` has nothing to warn of. -/
def auditPtree (s : Tasks) : Prop :=
  let found : Nat → Prop := fun p => ∃ nr < NR_TASKS, s.task nr = some p
  ∀ p, s.Live p →
    found (s.page p).pptr ∧ (∀ q, (s.page p).cptr = some q → found q) ∧
      (∀ q, (s.page p).ysptr = some q → found q) ∧ (∀ q, (s.page p).osptr = some q → found q) ∧
    (s.page p).pptr ≠ p ∧ (s.page p).cptr ≠ some p ∧ (s.page p).ysptr ≠ some p ∧ (s.page p).osptr ≠ some p ∧
    (∀ q, (s.page p).osptr = some q → (s.page p).pptr = (s.page q).pptr ∧ (s.page q).ysptr = some p) ∧
    (∀ q, (s.page p).ysptr = some q → (s.page p).pptr = (s.page q).pptr ∧ (s.page q).osptr = some p) ∧
    ∀ q, (s.page p).cptr = some q → (s.page q).pptr = p ∧ (s.page q).ysptr = none

/-- **The links are a tree**, while nobody is half-way. Task 0, which is its own parent, is nobody's child here. -/
structure Ptree (s : Tasks) : Prop where
  audit : auditPtree s
  children : ∀ t, s.Live t ∨ s.task 0 = some t → ∃ l, Leads (fun p => (s.page p).osptr) (s.page t).cptr l ∧
    l.Nodup ∧ ∀ p, p ∈ l ↔ s.Live p ∧ (s.page p).pptr = t
  inverse : ∀ p q, s.Live p → s.Live q → ((s.page p).osptr = some q ↔ (s.page q).ysptr = some p)
  youngest : ∀ t p, s.Live t ∨ s.task 0 = some t → (s.page t).cptr = some p → (s.page p).ysptr = none
  parent : ∀ p, s.Live p → s.task 1 ≠ some p → s.Live (s.page p).pptr
  zombie : ∀ p, s.Live p → (s.page p).state = .zombie → (s.page p).cptr = none

/-- The system once task 0, in the page `z`, has made init, in the page `i`. -/
structure Boot (c : Config) (z i : Nat) : Prop where
  zero : c.tasks.task 0 = some z
  init : c.tasks.task 1 = some i
  ne : z ≠ i
  others : ∀ nr, 1 < nr → c.tasks.task nr = none
  run : ∀ t, c.pc t = .run
  state : (c.tasks.page i).state ≠ .zombie
  pptr : (c.tasks.page i).pptr = z
  alone : (c.tasks.page i).cptr = none ∧ (c.tasks.page i).ysptr = none ∧ (c.tasks.page i).osptr = none
  cptr : (c.tasks.page z).cptr = some i

end ProcessTree
end Sched
end Linux095
