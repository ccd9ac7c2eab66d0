import Linux095.Sched.ProcessTree
import Linux095.Kernel.SignalMask
import Mathlib.Data.List.Nodup

/-!
# `Kernel.Kill` — whom a signal goes to (`kernel/exit.c`)

`kill` sends a signal to one process, to a process group, or to all. It looks for them in `task[]`, from the last slot
down to the slot 1, and there may be empty slots.

* `sendSig`, `killPg`, `killProc`, `sysKill` — the source's functions; they stop where they read a field of an empty
  slot;
* `Rule` — **whom the signal should go to**, and what should be returned;
* `kill_rule_iff` — when it is so; `kill_reads_empty_slot` is a table where it is not.
-/

namespace Linux095
namespace Kernel
namespace Kill
open Seq Prog
open Sched.ProcessTree (TaskState NR_TASKS slots)
open SignalMask (bit SIGKILL SIGCONT SIGSTOP SIGTSTP SIGTTIN SIGTTOU)

def EPERM : Int := 1
def ESRCH : Int := 3
def EINVAL : Int := 22

/-- What `kill` needs of `struct task_struct`. -/
structure Task where
  state : TaskState
  exitCode : Int
  signal : BitVec 32
  pid : Int
  pgrp : Int
  euid : Nat
  /-- `flags & PF_PTRACED`. -/
  ptraced : Bool
  pptr : Option Nat

/-- `task[]`, and the pages with the tasks. -/
structure Tasks where
  task : Nat → Option Nat
  page : Nat → Task
  /-- The tasks that this call has sent a signal to, so far. -/
  delivered : List Nat

namespace Tasks

def set (s : Tasks) (p : Nat) (f : Task → Task) : Tasks :=
  { s with page := fun x => if x = p then f (s.page x) else s.page x }

end Tasks

/-- Why a call does not return: a field of an empty slot is read. -/
inductive Off where
  | emptySlot

abbrev Call (α : Type) : Type := Prog Tasks Off α

/-! ## Sending a signal -/

/-- What SIGKILL and SIGCONT undo. -/
def resume (sig : Nat) (t : Task) : Task :=
  if sig = SIGKILL ∨ sig = SIGCONT then
    { t with
      state := if t.state = .stopped then .running else t.state
      exitCode := 0
      signal := t.signal &&& ~~~ (bit SIGSTOP ||| bit SIGTSTP ||| bit SIGTTIN ||| bit SIGTTOU) }
  else t

/-- The signal is there; one that stops undoes SIGCONT. -/
def pend (sig : Nat) (t : Task) : Task :=
  let signal := if SIGSTOP ≤ sig ∧ sig ≤ SIGTTOU then t.signal &&& ~~~ bit SIGCONT else t.signal
  { t with signal := signal ||| bit sig }

/-- The parent of a task that is traced has to be awake. -/
def wakeParent (p : Nat) (s : Tasks) : Tasks :=
  (s.page p).pptr.elim s fun f =>
    s.set f fun t => { t with state := if t.state = .interruptible then .running else t.state }

/-- A task that is traced stops, and its parent is told. -/
def trace (sig p : Nat) (s : Tasks) : Tasks :=
  (wakeParent p (s.set p fun t => { t with exitCode := sig })).set p fun t =>
    { t with state := if t.state = .interruptible ∨ t.state = .running then .stopped else t.state }

/-- `send_sig` after its checks, up to `schedule()`. -/
def deliver (sig p : Nat) (s : Tasks) : Tasks :=
  let s := { s.set p fun t => pend sig (resume sig t) with delivered := s.delivered ++ [p] }
  if (s.page p).ptraced then trace sig p s else s

/-- `suser()`, or the same user. -/
def Permitted (s : Tasks) (current p : Nat) : Prop :=
  (s.page current).euid = (s.page p).euid ∨ (s.page current).euid = 0

instance (s : Tasks) (current p : Nat) : Decidable (Permitted s current p) := inferInstanceAs (Decidable (_ ∨ _))

/-- The range of signals, with 0 for none. -/
def Valid (sig : Int) : Prop := 0 ≤ sig ∧ sig ≤ 32

instance (sig : Int) : Decidable (Valid sig) := inferInstanceAs (Decidable (_ ∧ _))

section

variable (schedule : Tasks → Tasks) (current : Nat)

/-- `send_sig`; `schedule` is what others do while `current` is stopped. -/
def sendSig (sig : Int) (p : Option Nat) (priv : Bool) : Call Int :=
  match p with
  | none => return -EINVAL
  | some p => do
      if ¬ Valid sig then return -EINVAL
      else
        let permitted ← .reads fun s => priv || decide (Permitted s current p)
        if ¬ permitted then return -EPERM
        else if sig = 0 then return 0
        else
          .modify (deliver sig.toNat p)
          let stop ← .reads fun s => (s.page p).ptraced && p == current
          if stop then
            .modify schedule
            return 0
          else return 0

/-- `sig ? send_sig(sig,*p,priv) : 0`. -/
def sendIf (sig : Int) (p : Nat) (priv : Bool) : Call Int :=
  if sig = 0 then return 0 else sendSig schedule current sig (some p) priv

/-- `*p`, for the slot `i`. -/
def deref (i : Nat) : Call Nat := fun s =>
  match s.task i with
  | none => .error .emptySlot
  | some p => .ok (p, s)

/-- The loop of `kill_pg`, with `retval` and `found`. -/
def killPgLoop (pgrp sig : Int) (priv : Bool) : List Nat → Int → Nat → Call (Int × Nat)
  | [], retval, found => return (retval, found)
  | i :: l, retval, found => do
      let p ← deref i
      let member ← .reads fun s => (s.page p).pgrp == pgrp
      if member then
        let err ← sendIf schedule current sig p priv
        if err ≠ 0 then killPgLoop pgrp sig priv l err found
        else killPgLoop pgrp sig priv l retval (found + 1)
      else killPgLoop pgrp sig priv l retval found

/-- `kill_pg`. -/
def killPg (pgrp sig : Int) (priv : Bool) : Call Int := do
  if ¬ Valid sig ∨ pgrp ≤ 0 then return -EINVAL
  else
    let (retval, found) ← killPgLoop schedule current pgrp sig priv slots (-ESRCH) 0
    return if found ≠ 0 then 0 else retval

/-- The loop of `kill_proc`. -/
def killProcLoop (pid sig : Int) (priv : Bool) : List Nat → Call Int
  | [] => return -ESRCH
  | i :: l => do
      let p ← deref i
      let found ← .reads fun s => (s.page p).pid == pid
      if found then sendIf schedule current sig p priv
      else killProcLoop pid sig priv l

/-- `kill_proc`. -/
def killProc (pid sig : Int) (priv : Bool) : Call Int :=
  if ¬ Valid sig then return -EINVAL else killProcLoop schedule current pid sig priv slots

/-- The loop of `sys_kill`, with `retval`. Here `send_sig` sees the empty slots. -/
def killAllLoop (sig : Int) : List Nat → Int → Call Int
  | [], retval => return retval
  | i :: l, retval => do
      let p ← .reads fun s => s.task i
      let err ← sendSig schedule current sig p false
      killAllLoop sig l (if err ≠ 0 then err else retval)

/-- `-n`, for an `int`. -/
def neg (n : Int) : Int := if n = -2 ^ 31 then n else -n

/-- `sys_kill`. -/
def sysKill (pid sig : Int) : Call Int := do
  if pid = 0 then
    let mine ← .reads fun s => (s.page current).pid
    killPg schedule current mine sig false
  else if pid = -1 then killAllLoop schedule current sig slots 0
  else if pid < 0 then killPg schedule current (neg pid) sig false
  else killProc schedule current pid sig false

end

/-! ## What is expected -/

/-- The same tasks, with the same addresses. -/
structure SameAddresses (s s' : Tasks) : Prop where
  task : s'.task = s.task
  ids : ∀ x, (s'.page x).pid = (s.page x).pid ∧ (s'.page x).pgrp = (s.page x).pgrp ∧ (s'.page x).euid = (s.page x).euid

/-- A table of tasks, and the one that calls `kill`. -/
structure Table extends Tasks where
  current : Nat
  zero : ∃ z, task 0 = some z ∧ (page z).pid = 0 ∧ (page z).pgrp = 0 ∧ (page z).euid = 0
  /-- A task is in one slot. -/
  inj : ∀ i < NR_TASKS, ∀ j < NR_TASKS, ∀ p, task i = some p → task j = some p → i = j
  /-- Process ids are positive and distinct. -/
  pids : ∀ i ∈ slots, ∀ j ∈ slots, ∀ p q, task i = some p → task j = some q →
    0 < (page p).pid ∧ ((page p).pid = (page q).pid → p = q)
  caller : ∃ i < NR_TASKS, task i = some current
  fresh : delivered = []

/-- What others do while the caller is stopped: no task comes or goes, or gets another address. -/
structure Others where
  run : Tasks → Tasks
  same : ∀ s, SameAddresses s (run s) ∧ (run s).delivered = s.delivered

variable (T : Table) (others : Others)

/-- The tasks that `pid` stands for. -/
def Target (pid : Int) (p : Nat) : Prop := ∃ i < NR_TASKS, T.task i = some p ∧
  if 0 < pid then (T.page p).pid = pid
  else if pid = 0 then (T.page p).pgrp = (T.page T.current).pgrp
  else if pid = -1 then 2 ≤ i
  else (T.page p).pgrp = -pid

/-- What is to be returned. -/
structure Verdict (pid result : Int) : Prop where
  ok : result = 0 ↔ ∃ p, Target T pid p ∧ Permitted T.toTasks T.current p
  perm : result = -EPERM ↔ (∃ p, Target T pid p) ∧ ¬ ∃ p, Target T pid p ∧ Permitted T.toTasks T.current p
  srch : result = -ESRCH ↔ ¬ ∃ p, Target T pid p

/-- **Whom `kill` sends the signal to, and what it returns.** -/
def Rule (pid sig : Int) : Prop :=
  ∃ result s', sysKill others.run T.current pid sig T.toTasks = .ok (result, s') ∧ s'.delivered.Nodup ∧
    (∀ p, p ∈ s'.delivered ↔ sig ≠ 0 ∧ Target T pid p ∧ Permitted T.toTasks T.current p) ∧ Verdict T pid result

/-- There is no empty slot. -/
def Full : Prop := ∀ i ∈ slots, T.task i ≠ none

/-- When `kill` does what is expected. -/
def Good (pid sig : Int) : Prop :=
  Valid sig ∧
  if 0 < pid then
    (∃ i ∈ slots, ∃ p, T.task i = some p ∧ (T.page p).pid = pid ∧ (∀ j, i < j → j < NR_TASKS → T.task j ≠ none) ∧
      (sig = 0 → Permitted T.toTasks T.current p)) ∨
    Full T ∧ ∀ p, ¬ Target T pid p
  else if pid = 0 then
    Full T ∧ 0 < (T.page T.current).pid ∧
      ((T.page T.current).pid = (T.page T.current).pgrp ∨
        sig = 0 ∧ ∃ i ∈ slots, ∃ p, T.task i = some p ∧ (T.page p).pgrp = (T.page T.current).pid)
  else if pid = -1 then
    sig = 0 ∧ ((∀ i ∈ slots, ∃ p, T.task i = some p ∧ Permitted T.toTasks T.current p) ∨
      (∃ p, T.task 1 = some p ∧ Permitted T.toTasks T.current p) ∧ T.task 2 ≠ none ∧
        ¬ ∃ p, Target T pid p ∧ Permitted T.toTasks T.current p)
  else
    pid ≠ -2 ^ 31 ∧ Full T ∧
      (sig = 0 → (∃ p, Target T pid p) → ∃ p, Target T pid p ∧ Permitted T.toTasks T.current p)

/-! ## Addresses stay -/

namespace SameAddresses

variable {s s' s'' : Tasks}

theorem refl (s : Tasks) : SameAddresses s s := ⟨rfl, fun _ => ⟨rfl, rfl, rfl⟩⟩

theorem trans (h : SameAddresses s s') (h' : SameAddresses s' s'') : SameAddresses s s'' where
  task := h'.task.trans h.task
  ids x := ⟨(h'.ids x).1.trans (h.ids x).1, (h'.ids x).2.1.trans (h.ids x).2.1, (h'.ids x).2.2.trans (h.ids x).2.2⟩

theorem thenSet (h : SameAddresses s s') {p : Nat} {f : Task → Task}
    (hf : ∀ t, (f t).pid = t.pid ∧ (f t).pgrp = t.pgrp ∧ (f t).euid = t.euid) : SameAddresses s (s'.set p f) := by
  refine h.trans ⟨rfl, fun x => ?_⟩
  unfold Tasks.set
  dsimp only
  split
  · exact hf _
  · exact ⟨rfl, rfl, rfl⟩

theorem permitted_iff (h : SameAddresses s s') {current p : Nat} : Permitted s' current p ↔ Permitted s current p := by
  unfold Permitted
  rw [(h.ids current).2.2, (h.ids p).2.2]

end SameAddresses

theorem resume_same (sig : Nat) (t : Task) :
    (resume sig t).pid = t.pid ∧ (resume sig t).pgrp = t.pgrp ∧ (resume sig t).euid = t.euid := by
  unfold resume
  split <;> exact ⟨rfl, rfl, rfl⟩

theorem trace_spec (sig p : Nat) (s : Tasks) :
    SameAddresses s (trace sig p s) ∧ (trace sig p s).delivered = s.delivered := by
  have hwake : ∀ s : Tasks, SameAddresses s (wakeParent p s) ∧ (wakeParent p s).delivered = s.delivered := fun s => by
    unfold wakeParent
    cases (s.page p).pptr with
    | none => exact ⟨.refl s, rfl⟩
    | some f =>
        rw [Option.elim_some]
        refine ⟨?_, rfl⟩
        exact (SameAddresses.refl s).thenSet fun _ => ⟨rfl, rfl, rfl⟩
  obtain ⟨hsame, hlog⟩ := hwake (s.set p fun t => { t with exitCode := sig })
  have hfirst : SameAddresses s (s.set p fun t => { t with exitCode := sig }) := by
    apply (SameAddresses.refl s).thenSet
    exact fun _ => ⟨rfl, rfl, rfl⟩
  refine ⟨?_, hlog⟩
  apply (hfirst.trans hsame).thenSet
  exact fun _ => ⟨rfl, rfl, rfl⟩

/-- What `send_sig` does to the tasks leaves their addresses alone. -/
theorem deliver_spec (sig p : Nat) (s : Tasks) :
    SameAddresses s (deliver sig p s) ∧ (deliver sig p s).delivered = s.delivered ++ [p] := by
  have hset := (SameAddresses.refl s).thenSet (p := p) (f := fun t => pend sig (resume sig t)) (resume_same sig)
  have hfirst : SameAddresses s { s.set p fun t => pend sig (resume sig t) with delivered := s.delivered ++ [p] } :=
    ⟨hset.task, hset.ids⟩
  unfold deliver
  dsimp only
  split
  · obtain ⟨hsame, hlog⟩ := trace_spec sig p { s.set p fun t => pend sig (resume sig t) with
      delivered := s.delivered ++ [p] }
    exact ⟨hfirst.trans hsame, hlog⟩
  · exact ⟨hfirst, rfl⟩

/-! ## What the functions do -/

section

variable {s₀ s : Tasks} {current : Nat} {others : Others} {sig : Int}

/-- What `send_sig` returns for the task `p`. -/
def err (s₀ : Tasks) (current p : Nat) : Int := if Permitted s₀ current p then 0 else -EPERM

theorem err_eq_zero {p : Nat} : err s₀ current p = 0 ↔ Permitted s₀ current p := by
  unfold err
  split <;> simp_all [EPERM]

/-- The tasks in `l` that a signal comes to. -/
def served (s₀ : Tasks) (current : Nat) (sig : Int) (l : List Nat) : List Nat :=
  if sig = 0 then [] else l.filter fun p => Permitted s₀ current p

theorem served_append (l l' : List Nat) :
    served s₀ current sig (l ++ l') = served s₀ current sig l ++ served s₀ current sig l' := by
  unfold served
  split
  · rfl
  · exact List.filter_append l l'

theorem served_single (p : Nat) :
    served s₀ current sig [p] = if sig ≠ 0 ∧ Permitted s₀ current p then [p] else [] := by
  unfold served
  by_cases hzero : sig = 0
  · rw [if_pos hzero, if_neg fun h => h.1 hzero]
  · by_cases hperm : Permitted s₀ current p
    · rw [if_neg hzero, if_pos ⟨hzero, hperm⟩]
      simp [hperm]
    · rw [if_neg hzero, if_neg fun h => hperm h.2]
      simp [hperm]

/-- **`send_sig`**, for a task. -/
theorem sendSig_spec (others : Others) (current : Nat) (hsig : Valid sig) (h : SameAddresses s₀ s) (p : Nat) :
    ∃ s', sendSig others.run current sig (some p) false s = .ok (err s₀ current p, s') ∧ SameAddresses s₀ s' ∧
      s'.delivered = s.delivered ++ served s₀ current sig [p] := by
  rw [served_single]
  simp only [sendSig, if_neg (not_not.2 hsig), reads_bind, Bool.false_or, decide_eq_true_eq]
  by_cases hperm : Permitted s₀ current p
  · rw [if_neg (not_not.2 (h.permitted_iff.2 hperm)), err_eq_zero.2 hperm]
    by_cases hzero : sig = 0
    · rw [if_pos hzero, if_neg fun hno => hno.1 hzero, List.append_nil]
      exact ⟨s, rfl, h, rfl⟩
    · rw [if_neg hzero, if_pos ⟨hzero, hperm⟩, modify_bind, reads_bind]
      obtain ⟨hsame, hlog⟩ := deliver_spec sig.toNat p s
      split
      · -- The caller stops itself, and others run.
        obtain ⟨hothers, hlog'⟩ := others.same (deliver sig.toNat p s)
        exact ⟨_, rfl, (h.trans hsame).trans hothers, hlog'.trans hlog⟩
      · exact ⟨_, rfl, h.trans hsame, hlog⟩
  · rw [if_pos fun hno => hperm (h.permitted_iff.1 hno), err, if_neg hperm, if_neg fun hno => hperm hno.2,
      List.append_nil]
    exact ⟨s, rfl, h, rfl⟩

/-- It refuses an empty slot, and what is no signal. -/
theorem sendSig_inval (priv : Bool) {p : Option Nat} (h : p = none ∨ ¬ Valid sig) :
    sendSig others.run current sig p priv s = .ok (-EINVAL, s) := by
  cases p with
  | none => rfl
  | some p =>
      have hno : ¬ Valid sig := h.resolve_left nofun
      simp only [sendSig, if_pos hno, pure_run]

theorem sendIf_spec (others : Others) (current : Nat) (hsig : Valid sig) (h : SameAddresses s₀ s) (p : Nat) :
    ∃ s', sendIf others.run current sig p false s = .ok (if sig = 0 then 0 else err s₀ current p, s') ∧
      SameAddresses s₀ s' ∧ s'.delivered = s.delivered ++ served s₀ current sig [p] := by
  unfold sendIf
  by_cases hzero : sig = 0
  · rw [if_pos hzero, if_pos hzero, served, if_pos hzero, List.append_nil]
    exact ⟨s, rfl, h, rfl⟩
  · rw [if_neg hzero, if_neg hzero]
    exact sendSig_spec others current hsig h p

theorem deref_some {i p : Nat} (h : s.task i = some p) : deref i s = .ok (p, s) := by
  rw [deref, h]

theorem deref_none {i : Nat} (h : s.task i = none) : deref i s = .error .emptySlot := by
  rw [deref, h]

/-- The tasks in the slots `l` that are in the group `pgrp`. -/
def members (s₀ : Tasks) (pgrp : Int) (l : List Nat) : List Nat :=
  l.filterMap fun i => (s₀.task i).filter fun p => (s₀.page p).pgrp == pgrp

/-- **The loop of `kill_pg`**, where there is no empty slot. -/
theorem killPgLoop_spec (others : Others) (current : Nat) (hsig : Valid sig) (pgrp : Int) {l : List Nat}
    (hfull : ∀ i ∈ l, s₀.task i ≠ none)
    (h : SameAddresses s₀ s) (retval : Int) (found : Nat) :
    ∃ s', killPgLoop others.run current pgrp sig false l retval found s =
        .ok ((if sig ≠ 0 ∧ ∃ p ∈ members s₀ pgrp l, ¬ Permitted s₀ current p then -EPERM else retval,
          found + if sig = 0 then (members s₀ pgrp l).length
            else (served s₀ current sig (members s₀ pgrp l)).length), s') ∧
      SameAddresses s₀ s' ∧ s'.delivered = s.delivered ++ served s₀ current sig (members s₀ pgrp l) := by
  induction l generalizing s retval found with
  | nil =>
      refine ⟨s, ?_, h, ?_⟩
      · simp [killPgLoop, members, served, pure_run]
      · simp [members, served]
  | cons i l ih =>
      obtain ⟨p, hp⟩ := Option.ne_none_iff_exists'.1 (hfull i List.mem_cons_self)
      have hrest : ∀ j ∈ l, s₀.task j ≠ none := fun j hj => hfull j (List.mem_cons_of_mem _ hj)
      have hderef : deref i s = .ok (p, s) := deref_some (h.task ▸ hp)
      rw [killPgLoop, bind_ok hderef, reads_bind, (h.ids p).2.1]
      by_cases hmember : (s₀.page p).pgrp = pgrp
      · have hcons : members s₀ pgrp (i :: l) = p :: members s₀ pgrp l := by
          unfold members
          rw [List.filterMap_cons_some]
          simp [hp, hmember]
        obtain ⟨s₁, hsend, hsame, hlog⟩ := sendIf_spec others current hsig h p
        rw [hcons, if_pos (beq_iff_eq.2 hmember), bind_ok hsend]
        have hserved : served s₀ current sig (p :: members s₀ pgrp l) =
            served s₀ current sig [p] ++ served s₀ current sig (members s₀ pgrp l) := served_append [p] _
        by_cases hfail : sig ≠ 0 ∧ ¬ Permitted s₀ current p
        · obtain ⟨hsig0, hperm⟩ := hfail
          have herr : (if sig = 0 then 0 else err s₀ current p) = -EPERM := by
            rw [if_neg hsig0, err, if_neg hperm]
          have hnone : served s₀ current sig [p] = [] := by
            rw [served_single, if_neg fun hno => hperm hno.2]
          obtain ⟨s', hloop, hsame', hlog'⟩ := ih hrest hsame (-EPERM) found
          refine ⟨s', ?_, hsame', ?_⟩
          · rw [herr, if_pos (by decide), hloop, hserved, hnone, List.nil_append, ite_self, if_neg hsig0, if_neg hsig0,
              if_pos ⟨hsig0, p, List.mem_cons_self, hperm⟩]
          · rw [hlog', hlog, hserved, List.append_assoc]
        · have herr : (if sig = 0 then 0 else err s₀ current p) = 0 := by
            split
            · rfl
            · rename_i hsig0
              exact err_eq_zero.2 (not_not.1 fun hperm => hfail ⟨hsig0, hperm⟩)
          obtain ⟨s', hloop, hsame', hlog'⟩ := ih hrest hsame retval (found + 1)
          refine ⟨s', ?_, hsame', ?_⟩
          · have hcond : (sig ≠ 0 ∧ ∃ q ∈ p :: members s₀ pgrp l, ¬ Permitted s₀ current q) ↔
                sig ≠ 0 ∧ ∃ q ∈ members s₀ pgrp l, ¬ Permitted s₀ current q := by
              refine and_congr_right fun hsig0 => ⟨fun ⟨q, hq, hperm⟩ => ?_, fun ⟨q, hq, hperm⟩ => ?_⟩
              · rcases List.mem_cons.1 hq with rfl | hq
                · exact absurd ⟨hsig0, hperm⟩ hfail
                · exact ⟨q, hq, hperm⟩
              · exact ⟨q, List.mem_cons_of_mem _ hq, hperm⟩
            rw [herr, if_neg (by decide), hloop, hserved]
            simp only [hcond]
            by_cases hsig0 : sig = 0
            · rw [if_pos hsig0, if_pos hsig0, List.length_cons, Nat.add_right_comm, Nat.add_assoc]
            · have hone : served s₀ current sig [p] = [p] := by
                rw [served_single, if_pos ⟨hsig0, not_not.1 fun hperm => hfail ⟨hsig0, hperm⟩⟩]
              rw [if_neg hsig0, if_neg hsig0, List.length_append, hone, List.length_singleton, Nat.add_assoc]
          · rw [hlog', hlog, hserved, List.append_assoc]
      · have hcons : members s₀ pgrp (i :: l) = members s₀ pgrp l := by
          unfold members
          rw [List.filterMap_cons_none]
          simp [hp, hmember]
        rw [hcons, if_neg fun hno => hmember (beq_iff_eq.1 hno)]
        exact ih hrest h retval found

/-- It comes to an empty slot, if there is one. -/
theorem killPgLoop_error (hsig : Valid sig) (pgrp : Int) {l : List Nat} (hempty : ∃ i ∈ l, s₀.task i = none)
    (h : SameAddresses s₀ s) (retval : Int) (found : Nat) :
    killPgLoop others.run current pgrp sig false l retval found s = .error .emptySlot := by
  induction l generalizing s retval found with
  | nil =>
      obtain ⟨i, hi, -⟩ := hempty
      cases hi
  | cons i l ih =>
      rw [killPgLoop]
      cases hp : s₀.task i with
      | none => exact bind_error (deref_none (h.task ▸ hp)) _
      | some p =>
          have hrest : ∃ i ∈ l, s₀.task i = none := by
            obtain ⟨j, hj, hnone⟩ := hempty
            rcases List.mem_cons.1 hj with rfl | hj
            · rw [hp] at hnone
              cases hnone
            · exact ⟨j, hj, hnone⟩
          rw [bind_ok (deref_some (h.task ▸ hp)), reads_bind]
          split
          · obtain ⟨s₁, hsend, hsame, -⟩ := sendIf_spec others current hsig h p
            rw [bind_ok hsend]
            by_cases hfail : (if sig = 0 then 0 else err s₀ current p) ≠ 0
            · rw [if_pos hfail]
              exact ih hrest hsame _ _
            · rw [if_neg hfail]
              exact ih hrest hsame _ _
          · exact ih hrest h _ _

/-- **`kill_pg`** comes to an end if and only if there is no empty slot. -/
theorem killPg_spec (others : Others) (current : Nat) (hsig : Valid sig) {pgrp : Int} (hpgrp : 0 < pgrp)
    (hfull : ∀ i ∈ slots, s.task i ≠ none) :
    ∃ s', killPg others.run current pgrp sig false s =
        .ok (if (if sig = 0 then (members s pgrp slots).length
            else (served s current sig (members s pgrp slots)).length) ≠ 0 then 0
          else if sig ≠ 0 ∧ ∃ p ∈ members s pgrp slots, ¬ Permitted s current p then -EPERM else -ESRCH, s') ∧
      s'.delivered = s.delivered ++ served s current sig (members s pgrp slots) := by
  obtain ⟨s', hloop, -, hlog⟩ := killPgLoop_spec others current hsig pgrp hfull (.refl s)
    (-ESRCH) 0
  refine ⟨s', ?_, hlog⟩
  rw [killPg, if_neg (not_or.2 ⟨not_not.2 hsig, not_le.2 hpgrp⟩), bind_ok hloop, Nat.zero_add]
  rfl

theorem killPg_error (hsig : Valid sig) {pgrp : Int} (hpgrp : 0 < pgrp) (hempty : ∃ i ∈ slots, s.task i = none) :
    killPg others.run current pgrp sig false s = .error .emptySlot := by
  rw [killPg, if_neg (not_or.2 ⟨not_not.2 hsig, not_le.2 hpgrp⟩)]
  exact bind_error (killPgLoop_error hsig pgrp hempty (.refl s) _ _) _

theorem killPg_inval {pgrp : Int} (h : ¬ Valid sig ∨ pgrp ≤ 0) :
    killPg others.run current pgrp sig false s = .ok (-EINVAL, s) := by
  rw [killPg, if_pos h]
  rfl

/-- **The loop of `kill_proc`** goes past other tasks. -/
theorem killProcLoop_skip (pid : Int) {l l' : List Nat}
    (h : ∀ i ∈ l, ∃ p, s.task i = some p ∧ (s.page p).pid ≠ pid) :
    killProcLoop others.run current pid sig false (l ++ l') s = killProcLoop others.run current pid sig false l' s := by
  induction l with
  | nil => rfl
  | cons i l ih =>
      obtain ⟨p, hp, hpid⟩ := h i List.mem_cons_self
      rw [List.cons_append, killProcLoop, bind_ok (deref_some hp), reads_bind,
        if_neg fun hno => hpid (beq_iff_eq.1 hno)]
      exact ih fun j hj => h j (List.mem_cons_of_mem _ hj)

/-- It sends the signal to the task that it finds. -/
theorem killProcLoop_found (others : Others) (current : Nat) (hsig : Valid sig) {pid : Int} {i p : Nat}
    (l : List Nat) (hp : s.task i = some p)
    (hpid : (s.page p).pid = pid) :
    ∃ s', killProcLoop others.run current pid sig false (i :: l) s = .ok (if sig = 0 then 0 else err s current p, s') ∧
      s'.delivered = s.delivered ++ served s current sig [p] := by
  obtain ⟨s', hsend, -, hlog⟩ := sendIf_spec others current hsig (.refl s) p
  refine ⟨s', ?_, hlog⟩
  rw [killProcLoop, bind_ok (deref_some hp), reads_bind, if_pos (beq_iff_eq.2 hpid)]
  exact hsend

theorem killProcLoop_error {pid : Int} {i : Nat} (l : List Nat) (hp : s.task i = none) :
    killProcLoop others.run current pid sig false (i :: l) s = .error .emptySlot := by
  rw [killProcLoop]
  exact bind_error (deref_none hp) _

/-- What `send_sig` returns for a slot. -/
def slotErr (s₀ : Tasks) (current i : Nat) : Int := (s₀.task i).elim (-EINVAL) (err s₀ current)

/-- The error that is left in `retval`. -/
def lastErr (s₀ : Tasks) (current : Nat) (l : List Nat) (retval : Int) : Int :=
  l.foldl (fun r i => if slotErr s₀ current i ≠ 0 then slotErr s₀ current i else r) retval

/-- **The loop of `sys_kill`**, which sees empty slots. -/
theorem killAllLoop_spec (others : Others) (current : Nat) (hsig : Valid sig) (l : List Nat)
    (h : SameAddresses s₀ s) (retval : Int) :
    ∃ s', killAllLoop others.run current sig l retval s = .ok (lastErr s₀ current l retval, s') ∧
      s'.delivered = s.delivered ++ served s₀ current sig (l.filterMap s₀.task) := by
  induction l generalizing s retval with
  | nil => exact ⟨s, rfl, by simp [served]⟩
  | cons i l ih =>
      rw [killAllLoop, reads_bind, h.task, lastErr, List.foldl_cons]
      cases hp : s₀.task i with
      | none =>
          have herr : slotErr s₀ current i = -EINVAL := by simp [slotErr, hp]
          obtain ⟨s', hloop, hlog⟩ := ih h (if -EINVAL ≠ 0 then -EINVAL else retval)
          rw [bind_ok (sendSig_inval false (.inl rfl)), herr, List.filterMap_cons_none hp]
          exact ⟨s', hloop, hlog⟩
      | some p =>
          have herr : slotErr s₀ current i = err s₀ current p := by simp [slotErr, hp]
          obtain ⟨s₁, hsend, hsame, hlog₁⟩ := sendSig_spec others current hsig h p
          obtain ⟨s', hloop, hlog⟩ := ih hsame (if err s₀ current p ≠ 0 then err s₀ current p else retval)
          rw [bind_ok hsend, herr, List.filterMap_cons_some hp]
          refine ⟨s', hloop, ?_⟩
          rw [hlog, hlog₁, List.append_assoc, ← served_append]
          rfl

end

/-! ## What is returned -/

section

variable {T : Table} {others : Others} {pid sig result : Int}

/-- There is nobody else to be told of. -/
theorem verdict_iff : Verdict T pid result ↔
    (∃ p, Target T pid p ∧ Permitted T.toTasks T.current p) ∧ result = 0 ∨
    ((∃ p, Target T pid p) ∧ ¬ ∃ p, Target T pid p ∧ Permitted T.toTasks T.current p) ∧ result = -EPERM ∨
    (¬ ∃ p, Target T pid p) ∧ result = -ESRCH := by
  constructor
  · intro h
    by_cases hperm : ∃ p, Target T pid p ∧ Permitted T.toTasks T.current p
    · exact .inl ⟨hperm, h.ok.2 hperm⟩
    · by_cases htarget : ∃ p, Target T pid p
      · exact .inr (.inl ⟨⟨htarget, hperm⟩, h.perm.2 ⟨htarget, hperm⟩⟩)
      · exact .inr (.inr ⟨htarget, h.srch.2 htarget⟩)
  · have h01 : (0 : Int) ≠ -EPERM := by decide
    have h02 : (0 : Int) ≠ -ESRCH := by decide
    have h12 : -EPERM ≠ -ESRCH := by decide
    rintro (⟨hperm, rfl⟩ | ⟨⟨htarget, hperm⟩, rfl⟩ | ⟨htarget, rfl⟩)
    · obtain ⟨p, hp, -⟩ := id hperm
      exact ⟨iff_of_true rfl hperm, iff_of_false h01 fun hno => hno.2 hperm, iff_of_false h02 fun hno => hno ⟨p, hp⟩⟩
    · exact ⟨iff_of_false h01.symm hperm, iff_of_true rfl ⟨htarget, hperm⟩, iff_of_false h12 fun hno => hno htarget⟩
    · have hperm : ¬ ∃ p, Target T pid p ∧ Permitted T.toTasks T.current p := fun ⟨p, hp, _⟩ => htarget ⟨p, hp⟩
      exact ⟨iff_of_false h02.symm hperm, iff_of_false h12.symm fun hno => htarget hno.1, iff_of_true rfl htarget⟩

theorem verdict_not_inval : ¬ Verdict T pid (-EINVAL) := by
  rw [verdict_iff]
  rintro (⟨-, h⟩ | ⟨-, h⟩ | ⟨-, h⟩) <;> exact absurd h (by decide)

/-- A call that ends. -/
theorem rule_of_ok {s' : Tasks} (h : sysKill others.run T.current pid sig T.toTasks = .ok (result, s')) :
    Rule T others pid sig ↔ s'.delivered.Nodup ∧
      (∀ p, p ∈ s'.delivered ↔ sig ≠ 0 ∧ Target T pid p ∧ Permitted T.toTasks T.current p) ∧ Verdict T pid result := by
  constructor
  · rintro ⟨result', s'', h', hrule⟩
    rw [h] at h'
    cases h'
    exact hrule
  · exact fun hrule => ⟨result, s', h, hrule⟩

/-- A call that does not. -/
theorem not_rule_of_error {e : Off} (h : sysKill others.run T.current pid sig T.toTasks = .error e) :
    ¬ Rule T others pid sig := by
  rintro ⟨result, s', h', -⟩
  rw [h] at h'
  cases h'

theorem not_rule_of_inval {s' : Tasks} (h : sysKill others.run T.current pid sig T.toTasks = .ok (-EINVAL, s')) :
    ¬ Rule T others pid sig := by
  rw [rule_of_ok h]
  exact fun hrule => verdict_not_inval hrule.2.2

/-- The caller may send itself signals. -/
theorem permitted_self : Permitted T.toTasks T.current T.current := .inl rfl

theorem mem_slots {i : Nat} : i ∈ slots ↔ 0 < i ∧ i < NR_TASKS := by
  rw [slots, List.mem_reverse, List.mem_range'_1, NR_TASKS]
  omega

theorem not_full_iff : ¬ Full T ↔ ∃ i ∈ slots, T.task i = none := by
  unfold Full
  constructor
  · intro h
    by_contra hno
    exact h fun i hi hnone => hno ⟨i, hi, hnone⟩
  · rintro ⟨i, hi, hnone⟩ h
    exact h i hi hnone

/-- What the list of those served says. -/
theorem mem_served {l : List Nat} {p : Nat} :
    p ∈ served T.toTasks T.current sig l ↔ sig ≠ 0 ∧ p ∈ l ∧ Permitted T.toTasks T.current p := by
  unfold served
  by_cases hzero : sig = 0
  · simp [hzero]
  · simp [hzero]

theorem mem_members {pgrp : Int} {p : Nat} :
    p ∈ members T.toTasks pgrp slots ↔ ∃ i ∈ slots, T.task i = some p ∧ (T.page p).pgrp = pgrp := by
  unfold members
  rw [List.mem_filterMap]
  refine exists_congr fun i => and_congr_right fun _ => ?_
  rw [Option.filter_eq_some_iff, beq_iff_eq]

/-- Task 0 is in the group 0. -/
theorem group_iff {pgrp : Int} (h : pgrp ≠ 0) {p : Nat} :
    (∃ i < NR_TASKS, T.task i = some p ∧ (T.page p).pgrp = pgrp) ↔ p ∈ members T.toTasks pgrp slots := by
  rw [mem_members]
  constructor
  · rintro ⟨i, hi, hp, hpgrp⟩
    refine ⟨i, mem_slots.2 ⟨Nat.pos_of_ne_zero fun hi0 => ?_, hi⟩, hp, hpgrp⟩
    obtain ⟨z, hz, -, hzero, -⟩ := T.zero
    rw [hi0, hz] at hp
    cases hp
    exact h (hpgrp.symm.trans hzero)
  · rintro ⟨i, hi, hp, hpgrp⟩
    exact ⟨i, (mem_slots.1 hi).2, hp, hpgrp⟩

theorem nodup_slots : slots.Nodup := by decide

/-- No task is met twice. -/
theorem nodup_filterMap {f : Nat → Option Nat} (hf : ∀ i p, f i = some p → T.task i = some p) :
    (slots.filterMap f).Nodup := by
  rw [List.Nodup, List.pairwise_filterMap]
  refine nodup_slots.imp_of_mem fun {i j} hi hj hij p hp q hq hpq => hij ?_
  subst hpq
  exact T.inj i (mem_slots.1 hi).2 j (mem_slots.1 hj).2 p (hf i p hp) (hf j p hq)

theorem nodup_members (pgrp : Int) : (members T.toTasks pgrp slots).Nodup :=
  nodup_filterMap fun _ _ h => (Option.filter_eq_some_iff.1 h).1

theorem nodup_served {l : List Nat} (h : l.Nodup) : (served T.toTasks T.current sig l).Nodup := by
  unfold served
  split
  · exact List.nodup_nil
  · exact h.filter _

/-! ## Process groups -/

theorem ne_nil_iff {l : List Nat} : l ≠ [] ↔ ∃ p, p ∈ l :=
  ⟨List.exists_mem_of_ne_nil l, fun ⟨_, hp⟩ => List.ne_nil_of_mem hp⟩

/-- What `kill_pg` returns for the group of `l`. -/
def groupResult (T : Table) (sig : Int) (l : List Nat) : Int :=
  if (if sig = 0 then l.length else (served T.toTasks T.current sig l).length) ≠ 0 then 0
  else if sig ≠ 0 ∧ ∃ p ∈ l, ¬ Permitted T.toTasks T.current p then -EPERM else -ESRCH

/-- A signal comes to someone: `kill_pg` returns 0. -/
theorem groupResult_of_signal {l : List Nat} (h : sig ≠ 0) : groupResult T sig l =
    if ∃ p ∈ l, Permitted T.toTasks T.current p then 0 else if l ≠ [] then -EPERM else -ESRCH := by
  unfold groupResult
  have hlen : (served T.toTasks T.current sig l).length ≠ 0 ↔ ∃ p ∈ l, Permitted T.toTasks T.current p := by
    rw [ne_eq, List.length_eq_zero_iff, ← ne_eq, ne_nil_iff]
    exact exists_congr fun p => mem_served.trans (and_iff_right h)
  rw [if_neg h]
  by_cases hperm : ∃ p ∈ l, Permitted T.toTasks T.current p
  · rw [if_pos (hlen.2 hperm), if_pos hperm]
  · rw [if_neg fun hno => hperm (hlen.1 hno), if_neg hperm]
    by_cases hnil : l = []
    · rw [if_neg (not_not.2 hnil), if_neg]
      rintro ⟨-, p, hp, -⟩
      rw [hnil] at hp
      cases hp
    · obtain ⟨p, hp⟩ := List.exists_mem_of_ne_nil l hnil
      rw [if_pos hnil, if_pos ⟨h, p, hp, fun hno => hperm ⟨p, hp, hno⟩⟩]

/-- Without a signal it does not look at users. -/
theorem groupResult_zero {l : List Nat} : groupResult T 0 l = if l ≠ [] then 0 else -ESRCH := by
  unfold groupResult
  by_cases hnil : l = []
  · rw [if_neg fun hno => hno (by rw [if_pos rfl, hnil, List.length_nil]), if_neg fun hno => hno.1 rfl,
      if_neg (not_not.2 hnil)]
  · rw [if_pos (by rw [if_pos rfl]; exact mt List.length_eq_zero_iff.1 hnil), if_pos hnil]

/-- The verdict on a group, when its members are those that were meant. -/
theorem verdict_group_iff {l : List Nat} (hl : ∀ p, Target T pid p ↔ p ∈ l) :
    Verdict T pid (groupResult T sig l) ↔
      (sig = 0 → (∃ p, Target T pid p) → ∃ p, Target T pid p ∧ Permitted T.toTasks T.current p) := by
  have hne : (∃ p, Target T pid p) ↔ l ≠ [] := (exists_congr hl).trans ne_nil_iff.symm
  have hperm : (∃ p, Target T pid p ∧ Permitted T.toTasks T.current p) ↔ ∃ p ∈ l, Permitted T.toTasks T.current p :=
    exists_congr fun p => and_congr_left fun _ => hl p
  rw [verdict_iff, hne, hperm]
  have h01 : (0 : Int) ≠ -EPERM := by decide
  have h02 : (0 : Int) ≠ -ESRCH := by decide
  by_cases hnil : l = []
  · -- Nobody was meant.
    have hno : ¬ ∃ p ∈ l, Permitted T.toTasks T.current p := by
      rintro ⟨p, hp, -⟩
      rw [hnil] at hp
      cases hp
    refine iff_of_true (.inr (.inr ⟨not_not.2 hnil, ?_⟩)) fun _ hno => absurd hnil hno
    by_cases hzero : sig = 0
    · rw [hzero, groupResult_zero, if_neg (not_not.2 hnil)]
    · rw [groupResult_of_signal hzero, if_neg hno, if_neg (not_not.2 hnil)]
  · by_cases hsome : ∃ p ∈ l, Permitted T.toTasks T.current p
    · refine iff_of_true (.inl ⟨hsome, ?_⟩) fun _ _ => hsome
      by_cases hzero : sig = 0
      · rw [hzero, groupResult_zero, if_pos hnil]
      · rw [groupResult_of_signal hzero, if_pos hsome]
    · by_cases hzero : sig = 0
      · refine iff_of_false ?_ fun hall => hsome (hall hzero hnil)
        rw [hzero, groupResult_zero, if_pos hnil]
        rintro (⟨h, -⟩ | ⟨-, h⟩ | ⟨h, -⟩)
        · exact hsome h
        · exact h01 h
        · exact h hnil
      · refine iff_of_true (.inr (.inl ⟨⟨hnil, hsome⟩, ?_⟩)) fun h => absurd h hzero
        rw [groupResult_of_signal hzero, if_neg hsome, if_pos hnil]

/-- **`kill_pg` for a group.** -/
theorem rule_of_group (hsig : Valid sig) {pgrp : Int} (hpgrp : 0 < pgrp)
    (hkill : sysKill others.run T.current pid sig T.toTasks = killPg others.run T.current pgrp sig false T.toTasks) :
    Rule T others pid sig ↔ Full T ∧
      (∀ p, p ∈ served T.toTasks T.current sig (members T.toTasks pgrp slots) ↔
        sig ≠ 0 ∧ Target T pid p ∧ Permitted T.toTasks T.current p) ∧
      Verdict T pid (groupResult T sig (members T.toTasks pgrp slots)) := by
  by_cases hfull : Full T
  · obtain ⟨s', hpg, hlog⟩ := killPg_spec others T.current hsig hpgrp hfull
    have hlog : s'.delivered = served T.toTasks T.current sig (members T.toTasks pgrp slots) := by
      rw [hlog, T.fresh, List.nil_append]
    rw [rule_of_ok (hkill.trans hpg), hlog, and_iff_right hfull]
    exact and_iff_right (nodup_served (nodup_members pgrp))
  · refine iff_of_false ?_ fun h => hfull h.1
    exact not_rule_of_error (hkill.trans (killPg_error hsig hpgrp (not_full_iff.1 hfull)))

/-! ## The cases of `pid` -/

theorem target_pos (h : 0 < pid) {p : Nat} :
    Target T pid p ↔ ∃ i < NR_TASKS, T.task i = some p ∧ (T.page p).pid = pid := by
  simp only [Target, if_pos h]

theorem target_zero {p : Nat} :
    Target T 0 p ↔ ∃ i < NR_TASKS, T.task i = some p ∧ (T.page p).pgrp = (T.page T.current).pgrp := by
  simp only [Target, if_neg (lt_irrefl (0 : Int)), if_true]

theorem target_all {p : Nat} : Target T (-1) p ↔ ∃ i < NR_TASKS, T.task i = some p ∧ 2 ≤ i := by
  have hpos : ¬ (0 : Int) < -1 := by decide
  have hzero : (-1 : Int) ≠ 0 := by decide
  simp only [Target, if_neg hpos, if_neg hzero, if_true]

theorem target_group (h : pid < -1) {p : Nat} :
    Target T pid p ↔ ∃ i < NR_TASKS, T.task i = some p ∧ (T.page p).pgrp = -pid := by
  have hpos : ¬ 0 < pid := by omega
  have hzero : pid ≠ 0 := by omega
  have hall : pid ≠ -1 := by omega
  simp only [Target, if_neg hpos, if_neg hzero, if_neg hall]

/-- `pid < -1`: the group `-pid`. -/
theorem rule_of_neg (hsig : Valid sig) (hneg : pid < -1) :
    Rule T others pid sig ↔ pid ≠ -2 ^ 31 ∧ Full T ∧
      (sig = 0 → (∃ p, Target T pid p) → ∃ p, Target T pid p ∧ Permitted T.toTasks T.current p) := by
  have hkill : sysKill others.run T.current pid sig T.toTasks =
      killPg others.run T.current (neg pid) sig false T.toTasks := by
    rw [sysKill, if_neg (by omega), if_neg (by omega), if_pos (by omega)]
  by_cases hmin : pid = -2 ^ 31
  · refine iff_of_false ?_ fun h => h.1 hmin
    refine not_rule_of_inval (hkill.trans (killPg_inval (.inr ?_)))
    rw [neg, if_pos hmin, hmin]
    decide
  · rw [neg, if_neg hmin] at hkill
    have htarget : ∀ p, Target T pid p ↔ p ∈ members T.toTasks (-pid) slots := fun p =>
      (target_group hneg).trans (group_iff (by omega))
    rw [rule_of_group hsig (by omega) hkill, verdict_group_iff htarget]
    have hserved : ∀ p, p ∈ served T.toTasks T.current sig (members T.toTasks (-pid) slots) ↔
        sig ≠ 0 ∧ Target T pid p ∧ Permitted T.toTasks T.current p := fun p => by
      rw [mem_served, htarget]
    rw [and_iff_right hserved, and_iff_right hmin]

/-- The caller is in its own group. -/
theorem target_self : Target T 0 T.current := by
  obtain ⟨i, hi, hcur⟩ := T.caller
  exact target_zero.2 ⟨i, hi, hcur, rfl⟩

/-- `pid = 0`: the source takes the caller's process id for its group. -/
theorem rule_of_zero (hsig : Valid sig) :
    Rule T others 0 sig ↔ Full T ∧ 0 < (T.page T.current).pid ∧
      ((T.page T.current).pid = (T.page T.current).pgrp ∨
        sig = 0 ∧ ∃ i ∈ slots, ∃ p, T.task i = some p ∧ (T.page p).pgrp = (T.page T.current).pid) := by
  have hkill : sysKill others.run T.current 0 sig T.toTasks =
      killPg others.run T.current (T.page T.current).pid sig false T.toTasks := by
    rw [sysKill, if_pos rfl, reads_bind]
  by_cases hpos : 0 < (T.page T.current).pid
  · rw [rule_of_group hsig hpos hkill]
    have hperm : ∃ p, Target T 0 p ∧ Permitted T.toTasks T.current p := ⟨_, target_self, permitted_self⟩
    refine and_congr_right fun _ => ?_
    rw [and_iff_right hpos]
    by_cases hlead : (T.page T.current).pid = (T.page T.current).pgrp
    · -- The caller leads its group.
      have htarget : ∀ p, Target T 0 p ↔ p ∈ members T.toTasks (T.page T.current).pid slots := fun p => by
        rw [target_zero, ← hlead]
        exact group_iff hpos.ne'
      refine iff_of_true ⟨fun p => ?_, (verdict_group_iff htarget).2 fun _ _ => hperm⟩ (.inl hlead)
      rw [mem_served, htarget]
    · -- The caller itself is not in the group that the signal goes to.
      by_cases hzero : sig = 0
      · have hempty : ∀ p, p ∈ served T.toTasks T.current sig (members T.toTasks (T.page T.current).pid slots) ↔
            sig ≠ 0 ∧ Target T 0 p ∧ Permitted T.toTasks T.current p := fun p => by
          rw [mem_served]
          exact iff_of_false (fun h => h.1 hzero) fun h => h.1 hzero
        have hgroup : members T.toTasks (T.page T.current).pid slots ≠ [] ↔
            ∃ i ∈ slots, ∃ p, T.task i = some p ∧ (T.page p).pgrp = (T.page T.current).pid := by
          rw [ne_nil_iff]
          constructor
          · rintro ⟨p, hp⟩
            obtain ⟨i, hi, hfound⟩ := mem_members.1 hp
            exact ⟨i, hi, p, hfound⟩
          · rintro ⟨i, hi, p, hfound⟩
            exact ⟨p, mem_members.2 ⟨i, hi, hfound⟩⟩
        rw [and_iff_right hempty, or_iff_right hlead, and_iff_right hzero, ← hgroup, hzero, groupResult_zero]
        by_cases hnil : members T.toTasks (T.page T.current).pid slots = []
        · rw [if_neg (not_not.2 hnil)]
          refine iff_of_false (fun h => ?_) (not_not.2 hnil)
          exact absurd (h.ok.2 hperm) (by decide)
        · rw [if_pos hnil]
          exact iff_of_true (verdict_iff.2 (.inl ⟨hperm, rfl⟩)) hnil
      · refine iff_of_false (fun h => ?_) fun h => h.elim hlead fun h => hzero h.1
        have hsent := mem_served.1 ((h.1 T.current).2 ⟨hzero, target_self, permitted_self⟩)
        obtain ⟨i, -, -, hpgrp⟩ := mem_members.1 hsent.2.1
        exact hlead hpgrp.symm
  · refine iff_of_false ?_ fun h => hpos h.2.1
    exact not_rule_of_inval (hkill.trans (killPg_inval (.inr (not_lt.1 hpos))))

theorem slots_pairwise : slots.Pairwise (fun i j => j < i) := by decide

/-- The first slot that `P` fails for, seen from the last. -/
theorem first_slot {P : Nat → Prop} (h : ∃ i ∈ slots, ¬ P i) : ∃ l i l', slots = l ++ i :: l' ∧ ¬ P i ∧
    (∀ j ∈ l, P j) ∧ ∀ j, i < j → j < NR_TASKS → j ∈ l := by
  have hsplit : ∀ l : List Nat, (∃ i ∈ l, ¬ P i) → ∃ l₁ i l₂, l = l₁ ++ i :: l₂ ∧ ¬ P i ∧ ∀ j ∈ l₁, P j := fun l => by
    induction l with
    | nil => exact fun ⟨i, hi, _⟩ => nomatch hi
    | cons i l ih =>
        intro hex
        by_cases hi : P i
        · obtain ⟨j, hj, hnot⟩ := hex
          have hjl : j ∈ l := (List.mem_cons.1 hj).resolve_left fun hji => hnot (hji ▸ hi)
          obtain ⟨l₁, k, l₂, hl, hk, hall⟩ := ih ⟨j, hjl, hnot⟩
          refine ⟨i :: l₁, k, l₂, by rw [hl, List.cons_append], hk, fun x hx => ?_⟩
          rcases List.mem_cons.1 hx with rfl | hx
          · exact hi
          · exact hall x hx
        · exact ⟨[], i, l, rfl, hi, fun x hx => nomatch hx⟩
  obtain ⟨l, i, l', hl, hi, hall⟩ := hsplit slots h
  refine ⟨l, i, l', hl, hi, hall, fun j hij hj => ?_⟩
  have hsorted := slots_pairwise
  have hmem : j ∈ slots := mem_slots.2 ⟨by omega, hj⟩
  rw [hl] at hsorted hmem
  rcases List.mem_append.1 hmem with hmem | hmem
  · exact hmem
  · -- Slots further on are lower.
    rcases List.mem_cons.1 hmem with rfl | hmem
    · exact absurd hij (lt_irrefl j)
    · have hlow := List.rel_of_pairwise_cons (List.pairwise_append.1 hsorted).2.1 hmem
      exact absurd hij hlow.asymm

/-- Task 0 has the process id 0: it is not meant. -/
theorem slot_of_target (hpos : 0 < pid) {p : Nat} (hp : Target T pid p) :
    ∃ i ∈ slots, T.task i = some p ∧ (T.page p).pid = pid := by
  obtain ⟨i, hi, htask, hpid⟩ := (target_pos hpos).1 hp
  refine ⟨i, mem_slots.2 ⟨Nat.pos_of_ne_zero fun hi0 => ?_, hi⟩, htask, hpid⟩
  obtain ⟨z, hz, hzero, -⟩ := T.zero
  rw [hi0, hz] at htask
  cases htask
  omega

/-- The verdict on one task. -/
theorem verdict_single_iff {p : Nat} (hunique : ∀ q, Target T pid q ↔ q ∈ [p]) :
    Verdict T pid (if sig = 0 then 0 else err T.toTasks T.current p) ↔
      (sig = 0 → Permitted T.toTasks T.current p) := by
  have htarget : ∃ q, Target T pid q := ⟨p, (hunique p).2 (List.mem_singleton.2 rfl)⟩
  have hperm : (∃ q, Target T pid q ∧ Permitted T.toTasks T.current q) ↔ Permitted T.toTasks T.current p := by
    simp only [hunique, List.mem_singleton, exists_eq_left]
  rw [verdict_iff, hperm]
  by_cases hallowed : Permitted T.toTasks T.current p
  · refine iff_of_true (.inl ⟨hallowed, ?_⟩) fun _ => hallowed
    rw [err_eq_zero.2 hallowed, ite_self]
  · by_cases hzero : sig = 0
    · -- Without a signal it does not look at the user.
      rw [if_pos hzero]
      refine iff_of_false ?_ fun h => hallowed (h hzero)
      rintro (⟨h, -⟩ | ⟨-, h⟩ | ⟨h, -⟩)
      · exact hallowed h
      · exact absurd h (by decide)
      · exact h htarget
    · rw [if_neg hzero, err, if_neg hallowed]
      exact iff_of_true (.inr (.inl ⟨⟨htarget, hallowed⟩, rfl⟩)) fun h => absurd h hzero

/-- `pid > 0`: the task with that process id, when no slot above it is empty. -/
theorem rule_of_pos (hsig : Valid sig) (hpos : 0 < pid) :
    Rule T others pid sig ↔
      (∃ i ∈ slots, ∃ p, T.task i = some p ∧ (T.page p).pid = pid ∧ (∀ j, i < j → j < NR_TASKS → T.task j ≠ none) ∧
        (sig = 0 → Permitted T.toTasks T.current p)) ∨
      Full T ∧ ∀ p, ¬ Target T pid p := by
  have hkill : sysKill others.run T.current pid sig T.toTasks =
      killProcLoop others.run T.current pid sig false slots T.toTasks := by
    rw [sysKill, if_neg (by omega), if_neg (by omega), if_neg (by omega), killProc, if_neg (not_not.2 hsig)]
  by_cases hall : ∀ i ∈ slots, ∃ p, T.task i = some p ∧ (T.page p).pid ≠ pid
  · have hnone : ∀ p, ¬ Target T pid p := fun p hp => by
      obtain ⟨i, hi, htask, hpid⟩ := slot_of_target hpos hp
      obtain ⟨q, hq, hne⟩ := hall i hi
      rw [htask] at hq
      cases hq
      exact hne hpid
    have hfull : Full T := fun i hi => by
      obtain ⟨q, hq, -⟩ := hall i hi
      rw [hq]
      exact nofun
    have hrun : sysKill others.run T.current pid sig T.toTasks = .ok (-ESRCH, T.toTasks) := by
      rw [hkill, ← List.append_nil slots, killProcLoop_skip pid hall]
      rfl
    refine iff_of_true ((rule_of_ok hrun).2 ⟨?_, fun p => ?_, ?_⟩) (.inr ⟨hfull, hnone⟩)
    · rw [T.fresh]
      exact List.nodup_nil
    · rw [T.fresh]
      exact iff_of_false nofun fun h => hnone p h.2.1
    · exact verdict_iff.2 (.inr (.inr ⟨fun ⟨p, hp⟩ => hnone p hp, rfl⟩))
  · obtain ⟨l, i, l', hl, hi, hskip, habove⟩ := first_slot (P := fun i => ∃ p, T.task i = some p ∧ (T.page p).pid ≠ pid)
      (by simpa only [not_forall, exists_prop] using hall)
    have himem : i ∈ slots := by
      rw [hl]
      exact List.mem_append_right l List.mem_cons_self
    rw [hl, killProcLoop_skip pid hskip] at hkill
    cases htask : T.task i with
    | none =>
        -- It stops at the slot `i`, which is empty.
        refine iff_of_false (not_rule_of_error (hkill.trans (killProcLoop_error l' htask))) ?_
        rintro (⟨i', hi', p, hp, hpid, hover, -⟩ | ⟨hfull, -⟩)
        · rcases lt_trichotomy i i' with hlt | heq | hgt
          · obtain ⟨q, hq, hne⟩ := hskip i' (habove i' hlt (mem_slots.1 hi').2)
            rw [hp] at hq
            cases hq
            exact hne hpid
          · rw [heq, hp] at htask
            cases htask
          · exact hover i hgt (mem_slots.1 himem).2 htask
        · exact hfull i himem htask
    | some p =>
        have hpid : (T.page p).pid = pid := by
          by_contra hne
          exact hi ⟨p, htask, hne⟩
        have hunique : ∀ q, Target T pid q ↔ q ∈ [p] := fun q => by
          rw [List.mem_singleton]
          constructor
          · intro hq
            obtain ⟨j, hj, hqtask, hqpid⟩ := slot_of_target hpos hq
            exact (T.pids j hj i himem q p hqtask htask).2 (hqpid.trans hpid.symm)
          · rintro rfl
            exact (target_pos hpos).2 ⟨i, (mem_slots.1 himem).2, htask, hpid⟩
        obtain ⟨s', hrun, hlog⟩ := killProcLoop_found others T.current hsig l' htask hpid
        rw [T.fresh, List.nil_append] at hlog
        have hdelivered : s'.delivered.Nodup ∧
            ∀ q, q ∈ s'.delivered ↔ sig ≠ 0 ∧ Target T pid q ∧ Permitted T.toTasks T.current q := by
          rw [hlog]
          refine ⟨nodup_served (List.nodup_singleton p), fun q => ?_⟩
          rw [mem_served, hunique]
        rw [rule_of_ok (hkill.trans hrun), and_iff_right hdelivered.1, and_iff_right hdelivered.2]
        rw [verdict_single_iff hunique]
        constructor
        · intro h
          refine .inl ⟨i, himem, p, htask, hpid, fun j hij hj => ?_, h⟩
          obtain ⟨q, hq, -⟩ := hskip j (habove j hij hj)
          rw [hq]
          exact nofun
        · rintro (⟨i', hi', q, hq, hqpid, -, h⟩ | ⟨-, hnone⟩)
          · rw [← (T.pids i' hi' i himem q p hq htask).2 (hqpid.trans hpid.symm)]
            exact h
          · exact absurd ((hunique p).2 (List.mem_singleton.2 rfl)) (hnone p)

/-! ## Every process -/

/-- A slot that nothing is wrong with. -/
def Allowed (T : Table) (i : Nat) : Prop := ∃ p, T.task i = some p ∧ Permitted T.toTasks T.current p

theorem slotErr_none {i : Nat} (h : T.task i = none) : slotErr T.toTasks T.current i = -EINVAL := by
  rw [slotErr, h, Option.elim_none]

theorem slotErr_some {i p : Nat} (h : T.task i = some p) :
    slotErr T.toTasks T.current i = err T.toTasks T.current p := by
  rw [slotErr, h, Option.elim_some]

theorem slotErr_eq_zero {i : Nat} : slotErr T.toTasks T.current i = 0 ↔ Allowed T i := by
  unfold Allowed
  cases h : T.task i with
  | none =>
      rw [slotErr_none h]
      exact iff_of_false (by decide) nofun
  | some p =>
      rw [slotErr_some h, err_eq_zero]
      simp

theorem lastErr_append (l : List Nat) (i : Nat) : lastErr T.toTasks T.current (l ++ [i]) 0 =
    if slotErr T.toTasks T.current i ≠ 0 then slotErr T.toTasks T.current i else lastErr T.toTasks T.current l 0 := by
  rw [lastErr, List.foldl_append]
  rfl

theorem lastErr_eq_zero (l : List Nat) : lastErr T.toTasks T.current l 0 = 0 ↔ ∀ i ∈ l, Allowed T i := by
  induction l using List.reverseRecOn with
  | nil => exact iff_of_true rfl nofun
  | append_singleton l i ih =>
      rw [lastErr_append, List.forall_mem_append, List.forall_mem_singleton, ← slotErr_eq_zero (i := i)]
      by_cases hi : slotErr T.toTasks T.current i = 0
      · rw [if_neg (not_not.2 hi), ih, and_iff_left hi]
      · rw [if_pos hi]
        exact iff_of_false hi fun h => hi h.2

theorem slots_last : ∃ l, slots = l ++ [2] ++ [1] := ⟨(List.range' 3 61).reverse, by decide⟩

theorem mem_all {p : Nat} : p ∈ slots.filterMap T.task ↔ ∃ i ∈ slots, T.task i = some p := List.mem_filterMap

/-- Init may not be sent the signal: then the caller is someone that it could be sent to. -/
theorem target_of_forbidden {p : Nat} (hp : T.task 1 = some p) (h : ¬ Permitted T.toTasks T.current p) :
    Target T (-1) T.current := by
  obtain ⟨i, hi, hcur⟩ := T.caller
  refine target_all.2 ⟨i, hi, hcur, ?_⟩
  by_contra hlow
  rcases (by omega : i = 0 ∨ i = 1) with rfl | rfl
  · -- Task 0 is the superuser.
    obtain ⟨z, hz, -, -, heuid⟩ := T.zero
    rw [hz] at hcur
    cases hcur
    exact h (.inr heuid)
  · rw [hp] at hcur
    cases hcur
    exact h permitted_self

/-- `pid = -1`. The loop goes to init as well, and returns the last error. -/
theorem rule_of_all (hsig : Valid sig) :
    Rule T others (-1) sig ↔ sig = 0 ∧ ((∀ i ∈ slots, Allowed T i) ∨
      Allowed T 1 ∧ T.task 2 ≠ none ∧ ¬ ∃ p, Target T (-1) p ∧ Permitted T.toTasks T.current p) := by
  obtain ⟨s', hloop, hlog⟩ := killAllLoop_spec others T.current hsig slots (.refl T.toTasks) 0
  rw [T.fresh, List.nil_append] at hlog
  have hrun : sysKill others.run T.current (-1) sig T.toTasks = .ok (lastErr T.toTasks T.current slots 0, s') := by
    rw [sysKill, if_neg (by decide), if_pos rfl, hloop]
  obtain ⟨l, hl⟩ := slots_last
  have hone : (1 : Nat) ∈ slots := by decide
  have htwo : (2 : Nat) ∈ slots := by decide
  by_cases hinit : Allowed T 1
  · by_cases hzero : sig = 0
    · have hnobody : served T.toTasks T.current sig (slots.filterMap T.task) = [] := by rw [served, if_pos hzero]
      have hempty : ∀ p, p ∈ ([] : List Nat) ↔ sig ≠ 0 ∧ Target T (-1) p ∧ Permitted T.toTasks T.current p :=
        fun p => iff_of_false nofun fun h => h.1 hzero
      rw [rule_of_ok hrun, hlog, hnobody, and_iff_right List.nodup_nil, and_iff_right hempty, and_iff_right hzero,
        and_iff_right hinit]
      have hlast : lastErr T.toTasks T.current slots 0 =
          if slotErr T.toTasks T.current 2 ≠ 0 then slotErr T.toTasks T.current 2
          else lastErr T.toTasks T.current l 0 := by
        rw [hl, lastErr_append, slotErr_eq_zero.2 hinit, if_neg (not_not.2 rfl), lastErr_append]
      cases hp : T.task 2 with
      | none =>
          rw [slotErr_none hp, if_pos (by decide)] at hlast
          rw [hlast]
          refine iff_of_false verdict_not_inval ?_
          rintro (hall | ⟨h, -⟩)
          · obtain ⟨q, hq, -⟩ := hall 2 htwo
            rw [hp] at hq
            cases hq
          · exact h rfl
      | some p =>
          have htarget : Target T (-1) p := target_all.2 ⟨2, by decide, hp, le_rfl⟩
          rw [and_iff_right (nofun : some p ≠ none)]
          by_cases hperm : Permitted T.toTasks T.current p
          · -- The task in the slot 2 is permitted: the result has to be 0.
            have hsome : ∃ p, Target T (-1) p ∧ Permitted T.toTasks T.current p := ⟨p, htarget, hperm⟩
            rw [or_iff_left (not_not.2 hsome), ← lastErr_eq_zero]
            constructor
            · exact fun h => h.ok.2 hsome
            · exact fun h => verdict_iff.2 (.inl ⟨hsome, h⟩)
          · -- It is not: the result is `-EPERM`, whatever the others return.
            have herr : slotErr T.toTasks T.current 2 = -EPERM := by rw [slotErr_some hp, err, if_neg hperm]
            rw [herr, if_pos (by decide)] at hlast
            have hnotall : ¬ ∀ i ∈ slots, Allowed T i := fun hall => by
              obtain ⟨q, hq, hallowed⟩ := hall 2 htwo
              rw [hp] at hq
              cases hq
              exact hperm hallowed
            rw [or_iff_right hnotall, hlast]
            constructor
            · exact fun h => (h.perm.1 rfl).2
            · exact fun h => verdict_iff.2 (.inr (.inl ⟨⟨⟨p, htarget⟩, h⟩, rfl⟩))
    · -- The signal comes to init.
      refine iff_of_false ?_ fun h => hzero h.1
      rw [rule_of_ok hrun, hlog]
      rintro ⟨-, hmem, -⟩
      obtain ⟨p, hp, hperm⟩ := hinit
      obtain ⟨i, hi, htask, hi2⟩ := target_all.1 ((hmem p).1 (mem_served.2 ⟨hzero, mem_all.2 ⟨1, hone, hp⟩, hperm⟩)).2.1
      have hi1 := T.inj i hi 1 (by decide) p htask hp
      omega
  · refine iff_of_false ?_ fun h => h.2.elim (fun hall => hinit (hall 1 hone)) fun h => hinit h.1
    have hlast : lastErr T.toTasks T.current slots 0 = slotErr T.toTasks T.current 1 := by
      rw [hl, lastErr_append, if_pos fun hno => hinit (slotErr_eq_zero.1 hno)]
    rw [rule_of_ok hrun, hlast]
    rintro ⟨-, -, hverdict⟩
    cases hp : T.task 1 with
    | none =>
        rw [slotErr_none hp] at hverdict
        exact verdict_not_inval hverdict
    | some p =>
        have hforbidden : ¬ Permitted T.toTasks T.current p := fun hperm => hinit ⟨p, hp, hperm⟩
        rw [slotErr_some hp, err, if_neg hforbidden] at hverdict
        exact (hverdict.perm.1 rfl).2 ⟨T.current, target_of_forbidden hp hforbidden, permitted_self⟩

/-- **A signal out of range** is refused, whoever it is for. -/
theorem not_rule_of_invalid (hsig : ¬ Valid sig) : ¬ Rule T others pid sig := by
  have hloop : ∀ l, killAllLoop others.run T.current sig l (-EINVAL) T.toTasks = .ok (-EINVAL, T.toTasks) := fun l => by
    induction l with
    | nil => rfl
    | cons i l ih =>
        rw [killAllLoop, reads_bind, bind_ok (sendSig_inval false (.inr hsig))]
        exact ih
  apply not_rule_of_inval
  unfold sysKill
  by_cases hzero : pid = 0
  · rw [if_pos hzero, reads_bind, killPg_inval (.inl hsig)]
  · by_cases hall : pid = -1
    · rw [if_neg hzero, if_pos hall, (by decide : slots = 63 :: slots.tail), killAllLoop, reads_bind,
        bind_ok (sendSig_inval false (.inr hsig))]
      exact hloop _
    · by_cases hneg : pid < 0
      · rw [if_neg hzero, if_neg hall, if_pos hneg, killPg_inval (.inl hsig)]
      · rw [if_neg hzero, if_neg hall, if_neg hneg, killProc, if_pos hsig]
        rfl

/-- **`kill` does what is expected if and only if** it meets no empty slot on its way, and is not asked for something
that it does in a way of its own. -/
theorem kill_rule_iff (T : Table) (others : Others) (pid sig : Int) : Rule T others pid sig ↔ Good T pid sig := by
  unfold Good
  by_cases hsig : Valid sig
  · rw [and_iff_right hsig]
    rcases lt_trichotomy pid 0 with hneg | rfl | hpos
    · rw [if_neg hneg.not_gt, if_neg hneg.ne]
      by_cases hall : pid = -1
      · subst hall
        rw [if_pos rfl]
        exact rule_of_all hsig
      · rw [if_neg hall]
        exact rule_of_neg hsig (by omega)
    · rw [if_neg (lt_irrefl 0), if_pos rfl]
      exact rule_of_zero hsig
    · rw [if_pos hpos]
      exact rule_of_pos hsig hpos
  · exact iff_of_false (not_rule_of_invalid hsig) fun h => hsig h.1

end

/-! ## A table with empty slots -/

/-- Task 0, init and a shell, and no other process. -/
def threeTasks : Table where
  task i := if i < 3 then some i else none
  page p :=
    { state := .running, exitCode := 0, signal := 0, pid := p, pgrp := p, euid := 0, ptraced := false, pptr := none }
  delivered := []
  current := 1
  zero := ⟨0, rfl, rfl, rfl, rfl⟩
  inj i _ j _ p hi hj := by
    obtain ⟨-, hi⟩ := Option.ite_none_right_eq_some.1 hi
    obtain ⟨-, hj⟩ := Option.ite_none_right_eq_some.1 hj
    exact Option.some_inj.1 (hi.trans hj.symm)
  pids i hi j _ p q hp hq := by
    obtain ⟨-, hp⟩ := Option.ite_none_right_eq_some.1 hp
    cases hp
    exact ⟨Int.natCast_pos.2 (mem_slots.1 hi).1, Int.natCast_inj.1⟩
  caller := ⟨1, by decide, rfl⟩
  fresh := rfl

/-- Nothing happens. -/
def quiet : Others where
  run := id
  same s := ⟨.refl s, rfl⟩

/-- **`kill` reads a field of an empty slot**: init sends SIGTERM to the shell, and the last slot is looked at first. -/
theorem kill_reads_empty_slot :
    Target threeTasks 2 2 ∧ Permitted threeTasks.toTasks threeTasks.current 2 ∧
      (∀ s, sysKill quiet.run threeTasks.current 2 15 threeTasks.toTasks ≠ .ok s) ∧ ¬ Rule threeTasks quiet 2 15 := by
  have hrun : sysKill quiet.run threeTasks.current 2 15 threeTasks.toTasks = .error .emptySlot := rfl
  refine ⟨⟨2, by decide, rfl, rfl⟩, .inr rfl, fun s h => ?_, not_rule_of_error hrun⟩
  rw [hrun] at h
  cases h

end Kill
end Kernel
end Linux095
