import Linux095.Sched.TreeInv

/-!
# `Kernel.Orphans` — process groups that an exit orphans (`kernel/exit.c`)

A task may be the last one that connects its process group, or those of its children, to the rest of a session. When
it exits, such a group is hung up if it has stopped jobs.

* `killPg`, `hasStoppedJobs`, `leave`, `doExit` — the source's functions; they stop where they read a field of an empty
  slot;
* `Tie`, `Orphaned`, `Due` — **which groups should be hung up**;
* `Meets` — no field of an empty slot is read, and those groups are hung up, each once;
* `Fine` — when it is so.
-/

namespace Linux095
namespace Kernel
namespace Orphans
open Seq Prog Links
open Sched.ProcessTree (Tasks Task TaskState NR_TASKS SIGHUP SIGCHLD SIGCONT slots deliver isOrphanedPgrp)

/-- `struct tty_struct`, as far as `do_exit` has to do with it. -/
structure Tty where
  pgrp : Int
  session : Int

structure State where
  tasks : Tasks
  /-- `tty` of a task, unless it is -1. -/
  tty : Nat → Option Nat
  ttyTable : Nat → Tty
  fgConsole : Nat
  /-- The calls of `kill_pg` that have sent a signal. -/
  sent : List (Int × Nat)

namespace State

/-- `TTY_TABLE`. -/
def ttyIndex (s : State) (nr : Nat) : Nat := if nr ≠ 0 then if nr < 64 then nr - 1 else nr else s.fgConsole

def setTty (s : State) (n : Nat) (v : Tty) : State :=
  { s with ttyTable := fun x => if x = n then v else s.ttyTable x }

/-- `(*p)->tty = -1`, for a task of the session. -/
def disown (s : State) (session : Int) (p : Nat) : State :=
  if (s.tasks.page p).session = session then { s with tty := fun x => if x = p then none else s.tty x } else s

end State

/-- Why a call does not return. -/
inductive Off where
  /-- A field of an empty slot is read. -/
  | emptySlot
  /-- An assignment through a NULL pointer. -/
  | fault
  /-- `schedule()` in a task that is not going to run again. -/
  | gone (s : State)

abbrev Call (α : Type) : Type := Prog State Off α

def onTasks (f : Tasks → Tasks) : Call Unit := .modify fun s => { s with tasks := f s.tasks }

/-- `*p`, for the slot `nr`. -/
def deref (nr : Nat) : Call Nat := fun s =>
  match s.tasks.task nr with
  | none => .error .emptySlot
  | some p => .ok (p, s)

/-! ## Signals -/

section

variable (current : Nat)

/-- `send_sig` with `priv`. A task that is traced and sends itself a signal calls `schedule()`. -/
def sendSig (sig p : Nat) : Call Unit := do
  onTasks (deliver sig p)
  if ← .reads (fun s => (s.tasks.page p).ptraced && p == current) then fun s => .error (.gone s)

/-- The loop of `kill_pg`. -/
def killSlots (pgrp : Int) (sig : Nat) : List Nat → Call Unit
  | [] => return
  | nr :: l => do
      let p ← deref nr
      if ← .reads (fun s => (s.tasks.page p).pgrp == pgrp) then
        sendSig current sig p
        killSlots pgrp sig l
      else killSlots pgrp sig l

/-- `kill_pg` with `priv`. -/
def killPg (pgrp : Int) (sig : Nat) : Call Unit := do
  if pgrp ≤ 0 then return
  else
    .modify fun s => { s with sent := s.sent ++ [(pgrp, sig)] }
    killSlots current pgrp sig slots

/-- The loop of `has_stopped_jobs`. -/
def stoppedSlots (pgrp : Int) : List Nat → Call Bool
  | [] => return false
  | nr :: l => do
      let p ← deref nr
      if ← .reads (fun s => (s.tasks.page p).pgrp == pgrp && (s.tasks.page p).state == .stopped) then return true
      else stoppedSlots pgrp l

/-- `has_stopped_jobs`. -/
def hasStoppedJobs (pgrp : Int) : Call Bool := stoppedSlots pgrp slots

/-! ## `do_exit` -/

/-- Case i, but for the stopped jobs. -/
def ownCut (s : State) : Bool :=
  let t := s.tasks.page current
  let f := s.tasks.page t.pptr
  f.pgrp != t.pgrp && f.session == t.session && isOrphanedPgrp s.tasks t.pgrp

/-- Case ii for the child `p`, but for the stopped jobs. -/
def childCut (p : Nat) (s : State) : Bool :=
  let t := s.tasks.page current
  let c := s.tasks.page p
  c.pgrp != t.pgrp && c.session == t.session && isOrphanedPgrp s.tasks c.pgrp

/-- SIGHUP and SIGCONT to the process group of `p`, when it is cut off and has stopped jobs. -/
def hangUp (p : Nat) (cut : State → Bool) : Call Unit := do
  if ← .reads cut then
    let pgrp ← .reads fun s => (s.tasks.page p).pgrp
    if ← hasStoppedJobs pgrp then
      killPg current pgrp SIGHUP
      killPg current pgrp SIGCONT

/-- The children of `current`, of which `p` is the oldest, go in front of those of init. -/
def splice (p : Nat) : Call Unit := do
  let init ← .reads fun s => s.tasks.init
  let first ← .reads fun s => (s.tasks.page init).cptr
  onTasks fun s => s.set p fun t => { t with osptr := first }
  match first with
  | none => .halt .fault
  | some c =>
      onTasks fun s => s.set c fun t => { t with ysptr := some p }
      onTasks fun s => s.set init fun t => { t with cptr := (s.page current).cptr }
      onTasks fun s => s.set current fun t => { t with cptr := none }

/-- The loop over the children of `current`, from `p` on. -/
def adopt : Nat → Nat → Call Unit
  | 0, _ => .halt .fault
  | fuel + 1, p => do
      onTasks fun s => s.set p fun t => { t with ptraced := false, pptr := s.init }
      hangUp current p (childCut current p)
      match ← .reads fun s => (s.tasks.page p).osptr with
      | some q => adopt fuel q
      | none => splice current p

/-- `if (p = current->p_cptr)`. -/
def adoptAll : Call Unit := do
  match ← .reads fun s => (s.tasks.page current).cptr with
  | none => return
  | some p => adopt current NR_TASKS p

/-- `do_exit` from `current->state = TASK_ZOMBIE` on, up to the terminal. -/
def leave : Call Unit := do
  onTasks fun s => s.setState current .zombie
  hangUp current current (ownCut current)
  let father ← .reads fun s => (s.tasks.page current).pptr
  sendSig current SIGCHLD father
  adoptAll current

/-- The foreground process group loses its terminal. -/
def hangUpTty : Option Nat → Call Unit
  | none => return
  | some nr => do
      let n ← .reads fun s => s.ttyIndex nr
      let pgrp ← .reads fun s => (s.ttyTable n).pgrp
      killPg current pgrp SIGHUP
      .modify fun s => s.setTty n ⟨0, 0⟩

/-- No task of the session has the terminal any more. -/
def disownSlots : List Nat → Call Unit
  | [] => return
  | nr :: l => do
      let p ← deref nr
      .modify fun s => s.disown (s.tasks.page current).session p
      disownSlots l

/-- `if (current->leader)`. -/
def leaderExit : Call Unit := do
  if ← .reads (fun s => (s.tasks.page current).leader) then
    hangUpTty current (← .reads fun s => s.tty current)
    disownSlots current slots

/-- `do_exit` from `current->state = TASK_ZOMBIE` on. -/
def doExit : Call Unit := do
  leave current
  leaderExit current

end

/-! ## What is expected -/

/-- A task that is there and no zombie. -/
def Alive (s : Tasks) (f : Nat) : Prop := (∃ nr < NR_TASKS, s.task nr = some f) ∧ (s.page f).state ≠ .zombie

/-- A member of the process group. -/
def Member (s : Tasks) (g : Int) (x : Nat) : Prop := s.Live x ∧ (s.page x).pgrp = g

/-- `x` connects the group to another one of the session, by its parent, and is no child of init. -/
structure Tie (s : Tasks) (g : Int) (x : Nat) : Prop where
  member : Member s g x
  alive : (s.page x).state ≠ .zombie
  father : Alive s (s.page x).pptr
  notInit : (s.page x).pptr ≠ s.init
  pgrp : (s.page (s.page x).pptr).pgrp ≠ g
  session : (s.page (s.page x).pptr).session = (s.page x).session

def Orphaned (s : Tasks) (g : Int) : Prop := ∀ x, ¬ Tie s g x

def Stopped (s : Tasks) (g : Int) : Prop := ∃ x, Member s g x ∧ (s.page x).state = .stopped

/-- A group that is to be hung up, when the tasks were `s` and become `s'`. -/
def Due (s s' : Tasks) (g : Int) : Prop := ¬ Orphaned s g ∧ Orphaned s' g ∧ Stopped s g

/-- SIGHUP and SIGCONT for each of these groups. -/
def hangUps (gs : List Int) : List (Int × Nat) := gs.flatMap fun g => [(g, SIGHUP), (g, SIGCONT)]

/-- The signals are those for the groups that are due. -/
def Rule (s s' : State) : Prop :=
  ∃ gs, s'.sent = s.sent ++ hangUps gs ∧ gs.Nodup ∧ ∀ g, g ∈ gs ↔ Due s.tasks s'.tasks g

/-- **`do_exit` reads no field of an empty slot, and hangs up the groups that are due.** The signals to the terminal's
group come after that. -/
def Meets (current : Nat) (s : State) : Prop :=
  doExit current s ≠ .error .emptySlot ∧ ∃ s', leave current s = .ok ((), s') ∧ Rule s s'

/-- A table of tasks in which `current`, which is not init, can exit; `kids` are its children, the youngest first. A
task that `fork` is still making is in the table and not among the children. -/
structure Table (s : Tasks) (current : Nat) (kids : List Nat) : Prop where
  init : s.task 1 = some s.init
  initAlive : (s.page s.init).state ≠ .zombie
  pid : ∀ f, Alive s f → ((s.page f).pid = 1 ↔ f = s.init)
  live : s.Live current
  running : (s.page current).state = .running
  notInit : current ≠ s.init
  father : (s.page current).pptr ≠ current
  leads : Leads (fun p => (s.page p).osptr) (s.page current).cptr kids
  nodup : kids.Nodup
  kid : ∀ p ∈ kids, s.Live p ∧ (s.page p).pptr = current
  /-- A task that exits is below a child of init. -/
  initChild : (s.page s.init).cptr ≠ none

/-! ## When it is so -/

/-- There is no empty slot. -/
def Full (s : Tasks) : Prop := ∀ nr ∈ slots, s.task nr ≠ none

/-- From the last slot of `l` down, a task that is looked for comes before any empty slot. -/
def NoGap (s : Tasks) (l : List Nat) (found : Nat → Prop) : Prop :=
  ∀ nr ∈ l, s.task nr = none → ∃ j ∈ l, nr < j ∧ ∃ x, s.task j = some x ∧ found x

/-- What `is_orphaned_pgrp` takes for a tie: it does not ask whether the parent is alive. -/
structure Seen (s : Tasks) (g : Int) (x : Nat) : Prop where
  member : Member s g x
  alive : (s.page x).state ≠ .zombie
  pid : (s.page (s.page x).pptr).pid ≠ 1
  pgrp : (s.page (s.page x).pptr).pgrp ≠ g
  session : (s.page (s.page x).pptr).session = (s.page x).session

/-- The father is traced, so that SIGCHLD stops it. -/
def Halts (s : Tasks) (current x : Nat) : Prop :=
  x = (s.page current).pptr ∧ (s.page x).ptraced = true ∧
    ((s.page x).state = .running ∨ (s.page x).state = .interruptible)

/-- A task is stopped when the children are looked at. -/
def Stops (s : Tasks) (current x : Nat) : Prop := (s.page x).state = .stopped ∨ Halts s current x

/-- A group has a task for which `stop` holds. -/
def Has (s : Tasks) (g : Int) (stop : Nat → Prop) : Prop := ∃ x, Member s g x ∧ stop x

/-- `has_stopped_jobs` is called for the group of `current`. -/
def OwnAsked (s : Tasks) (current : Nat) : Prop :=
  let t := s.page current
  (s.page t.pptr).pgrp ≠ t.pgrp ∧ (s.page t.pptr).session = t.session ∧ ∀ x, x ≠ current → ¬ Seen s t.pgrp x

/-- A child of `current` in another group of its session. -/
def Outside (s : Tasks) (current c : Nat) : Prop :=
  (s.page c).pgrp ≠ (s.page current).pgrp ∧ (s.page c).session = (s.page current).session

/-- `has_stopped_jobs` is called for the group of the child `c`, when the children `l` come before it. -/
def ChildAsked (s : Tasks) (current : Nat) (l : List Nat) (c : Nat) : Prop :=
  Outside s current c ∧ ∀ x, x ≠ current → x ∉ l ++ [c] → ¬ Seen s (s.page c).pgrp x

/-- The child `c` connects the group `g`. -/
def Cut (s : Tasks) (current : Nat) (g : Int) (c : Nat) : Prop :=
  Outside s current c ∧ (s.page c).pgrp = g ∧ (s.page c).state ≠ .zombie

/-- `x` is traced, also when the last one of the children `l` that connected the group `g` is looked at. -/
def StillTraced (s : Tasks) (current : Nat) (g : Int) (l : List Nat) (x : Nat) : Prop :=
  (s.page x).ptraced = true ∧ ∀ l₁ c l₂, l = l₁ ++ c :: l₂ → Cut s current g c → x ∉ l₁ ++ [c]

/-- A trace can stop it. -/
def CanStop (v : TaskState) : Prop := v = .stopped ∨ v = .running ∨ v = .interruptible

/-- A task of the group `g` that stops again after SIGCONT, as it is traced. -/
def Remains (s : Tasks) (current : Nat) (g : Int) (l : List Nat) : Prop :=
  ∃ x, Member s g x ∧ StillTraced s current g l x ∧ CanStop (s.page x).state

/-- A zombie that comes after `l` finds stopped jobs in its group. -/
def Again (s : Tasks) (current : Nat) (g : Int) (l : List Nat) : Prop :=
  Has s g (Stops s current) ∧ ((∃ c ∈ l, Cut s current g c) → Remains s current g l)

open Classical in
/-- `current` is the last tie of its group, if that has stopped jobs, and is not traced. -/
def OwnFine (s : Tasks) (current : Nat) : Prop :=
  let g := (s.page current).pgrp
  if g ≤ 0 ∧ Stopped s g then NoGap s slots fun x => (s.page x).pgrp = g ∧ (s.page x).state = .stopped
  else Full s ∧ (0 < g → Stopped s g → Tie s g current ∧ (s.page current).ptraced = false)

open Classical in
/-- The child `c` is the last tie of its group, if that has stopped jobs. -/
def ChildFine (s : Tasks) (current : Nat) (l : List Nat) (c : Nat) : Prop :=
  let g := (s.page c).pgrp
  if g ≤ 0 ∧ Has s g (Stops s current) then NoGap s slots fun x => (s.page x).pgrp = g ∧ Stops s current x
  else Full s ∧ (0 < g →
    if (s.page c).state = .zombie then ¬ Again s current g l else Has s g (Stops s current) → Stopped s g)

/-- A session leader does not come to an empty slot either: there is none, or the leader is traced, and hangs itself up
before that. -/
def LeaderFine (s : State) (current : Nat) : Prop :=
  Full s.tasks ∨
    (s.tasks.page current).ptraced = true ∧ 0 < (s.tasks.page current).pgrp ∧
    (∃ nr, s.tty current = some nr ∧ (s.ttyTable (s.ttyIndex nr)).pgrp = (s.tasks.page current).pgrp) ∧
    NoGap s.tasks slots fun x => x = current

/-- A group loses its last tie. -/
def Loses (s : Tasks) (current : Nat) (g : Int) : Prop :=
  (∃ x, Tie s g x) ∧ ∀ x, Tie s g x → x = current ∨ (s.page x).pptr = current

structure Fine (current : Nat) (kids : List Nat) (s : State) : Prop where
  own : OwnAsked s.tasks current → OwnFine s.tasks current
  child : ∀ l₁ c l₂, kids = l₁ ++ c :: l₂ → ChildAsked s.tasks current l₁ c → ChildFine s.tasks current l₁ c
  /-- No group that is due is hidden by its number, or by what only looks like a tie. -/
  due : ∀ g, Loses s.tasks current g → Stopped s.tasks g →
    0 < g ∧ ∀ x, Seen s.tasks g x → x = current ∨ x ∈ kids
  leader : (s.tasks.page current).leader = true → LeaderFine s current

end Orphans
end Kernel
end Linux095
