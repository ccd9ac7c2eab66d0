import Mathlib.Data.BitVec
import Mathlib.Logic.Relation

/-!
# `Kernel.SignalMask` — blocked signals (`kernel/signal.c`, `kernel/sched.c`, `kernel/exit.c`)

`current->blocked` is a word with a bit for each signal. It is written by `ssetmask` and `sigsuspend`, with a word of
the user's, by the set-up of a handler, which adds the `sa_mask` of its action, and for a while by `pause` and
`waitpid`.

* `sysSsetmask`, `sysSigsuspend`, `sysSignal`, `sysSigaction`, `doSignal`, `sysPause` — the source's functions, up to
  where they sleep;
* `Step` — one process, from call to call and from sleep to sleep;
* `never_blocked` — **SIGKILL and SIGSTOP are never blocked**, if `sigsuspend` is not asked to and no handler with a
  `sa_mask` that has them is set up; `sigsuspend_blocks` shows that it does as it is asked.
-/

namespace Linux095
namespace Kernel
namespace SignalMask
open Relation

def SIGKILL : Nat := 9
def SIGCHLD : Nat := 17
def SIGCONT : Nat := 18
def SIGSTOP : Nat := 19
def SIGTSTP : Nat := 20
def SIGTTIN : Nat := 21
def SIGTTOU : Nat := 22
def SIGWINCH : Nat := 28

def EINTR : BitVec 32 := 4
def EINVAL : Int := 22
def ERESTARTSYS : BitVec 32 := 512
def ERESTARTNOINTR : BitVec 32 := 513

def SA_INTERRUPT : BitVec 32 := 0x20000000
def SA_NOMASK : BitVec 32 := 0x40000000
def SA_ONESHOT : BitVec 32 := 0x80000000

def SIG_DFL : BitVec 32 := 0
def SIG_IGN : BitVec 32 := 1

/-- `1<<(sig-1)`. -/
def bit (sig : Nat) : BitVec 32 := BitVec.twoPow 32 (sig - 1)

/-- `struct sigaction`. -/
structure Sigaction where
  saHandler : BitVec 32
  saMask : BitVec 32
  saFlags : BitVec 32
  saRestorer : BitVec 32

inductive TaskState where
  | running
  | interruptible
  | stopped
  deriving DecidableEq

/-- What signals need of `struct task_struct`. -/
structure Task where
  state : TaskState
  signal : BitVec 32
  blocked : BitVec 32
  /-- The action of the signal `i + 1`. -/
  sigaction : Nat → Sigaction
  exitCode : Nat

/-- The registers of the user that `do_signal` may change, and what it pushes on the user's stack. -/
structure Frame where
  eax : BitVec 32
  origEax : BitVec 32
  ecx : BitVec 32
  edx : BitVec 32
  eip : BitVec 32
  eflags : BitVec 32
  esp : BitVec 32
  pushed : List (BitVec 32)

namespace Task

def setSigaction (t : Task) (i : Nat) (sa : Sigaction) : Task :=
  { t with sigaction := fun j => if j = i then sa else t.sigaction j }

end Task

/-! ## The calls -/

/-- `sys_ssetmask`. -/
def sysSsetmask (newmask : BitVec 32) (t : Task) : Task :=
  { t with blocked := newmask &&& ~~~ bit SIGKILL &&& ~~~ bit SIGSTOP }

/-- The loop of `sys_pause` over the actions: what is ignored is blocked. -/
def blockIgnored (sigaction : Nat → Sigaction) (blocked : BitVec 32) : BitVec 32 :=
  (List.range 32).foldl (fun mask i => if (sigaction i).saHandler = SIG_IGN then mask ||| bit (i + 1) else mask) blocked

/-- `sys_pause` up to `schedule()`. It keeps `blocked` in `old_blocked`, to put it back. -/
def sysPause (t : Task) : Task :=
  { t with blocked := blockIgnored t.sigaction t.blocked, state := .interruptible }

/-- `sys_sigsuspend`, when it returns at once. -/
def sysSigsuspendRestart (oldMask : BitVec 32) (t : Task) : Task := { t with blocked := oldMask }

/-- `sys_sigsuspend` up to `sys_pause`. -/
def sysSigsuspend (set : BitVec 32) (t : Task) : Task := { t with blocked := set }

/-- The signals with an action to set: what is returned for the others is -EINVAL. -/
def settable (signum : Int) : Bool := 1 ≤ signum ∧ signum ≤ 32 ∧ signum ≠ SIGKILL ∧ signum ≠ SIGSTOP

/-- `sys_signal`. -/
def sysSignal (signum : Int) (handler restorer : BitVec 32) (t : Task) : Int × Task :=
  if settable signum then
    let i := (signum - 1).toNat
    let tmp : Sigaction := ⟨handler, 0, SA_ONESHOT ||| SA_NOMASK, restorer⟩
    ((t.sigaction i).saHandler.toInt, t.setSigaction i tmp)
  else (-EINVAL, t)

/-- `sys_sigaction`; `action` is what `get_new` copies from the user. -/
def sysSigaction (signum : Int) (action : Sigaction) (t : Task) : Int × Task :=
  if settable signum then
    let i := (signum - 1).toNat
    let mask := if action.saFlags &&& SA_NOMASK ≠ 0 then 0 else action.saMask ||| bit (i + 1)
    (0, t.setSigaction i { action with saMask := mask })
  else (-EINVAL, t)

/-- How `do_signal` ends. -/
inductive Outcome where
  /-- It returns 1. -/
  | again
  /-- It returns 0. -/
  | handler
  /-- `do_exit`. -/
  | gone
  deriving DecidableEq

/-- The restart of system calls. -/
def restart (sa : Sigaction) (signr : Nat) (f : Frame) : Frame :=
  if f.origEax ≠ -1 ∧ (f.eax = -ERESTARTSYS ∨ f.eax = -ERESTARTNOINTR) then
    if f.eax = -ERESTARTSYS ∧ (sa.saFlags &&& SA_INTERRUPT ≠ 0 ∨ signr < SIGCONT ∨ SIGTTOU < signr) then
      { f with eax := -EINTR }
    else { f with eax := f.origEax, eip := f.eip - 2 }
  else f

/-- The set-up of a handler: the words that its restorer takes from the stack, and the mask. -/
def invoke (sa : Sigaction) (signr : Nat) (f : Frame) (t : Task) : Frame × Task :=
  let t' := if sa.saFlags &&& SA_ONESHOT ≠ 0 then t.setSigaction (signr - 1) { sa with saHandler := SIG_DFL } else t
  let mask := if sa.saFlags &&& SA_NOMASK ≠ 0 then [] else [t.blocked]
  let words := [sa.saRestorer, .ofNat 32 signr] ++ mask ++ [f.eax, f.ecx, f.edx, f.eflags, f.eip]
  ({ f with eip := sa.saHandler, esp := f.esp - .ofNat 32 (4 * words.length), pushed := words },
    { t' with blocked := t.blocked ||| sa.saMask })

/-- `do_signal` where there is no handler. What it does to other tasks (the parent is sent a SIGCHLD) is left out. -/
def doDefault (signr : Nat) (t : Task) : Outcome × Task :=
  if signr = SIGCONT ∨ signr = SIGCHLD ∨ signr = SIGWINCH then (.again, t)
  else if signr = SIGSTOP ∨ signr = SIGTSTP ∨ signr = SIGTTIN ∨ signr = SIGTTOU then
    (.again, { t with state := .stopped, exitCode := signr })
  else (.gone, t)

/-- `do_signal`. A SIGCHLD that is ignored releases children. -/
def doSignal (signr : Nat) (f : Frame) (t : Task) : Outcome × Frame × Task :=
  let sa := t.sigaction (signr - 1)
  let f := restart sa signr f
  if sa.saHandler = SIG_IGN then (.again, f, t)
  else if sa.saHandler = SIG_DFL then
    let (outcome, t) := doDefault signr t
    (outcome, f, t)
  else (.handler, invoke sa signr f t)

/-- The signal that `ret_from_sys_call` finds with `bsfl`. -/
def nextSignal (t : Task) : Option Nat :=
  ((List.range 32).find? fun i => (t.signal &&& ~~~ t.blocked).getLsbD i).map (· + 1)

/-! ## Runs -/

/-- Where the process is. -/
inductive Pc where
  /-- Between system calls: in the user's program, or on its way back to it. -/
  | user
  /-- Asleep in `sys_pause`, with its `old_blocked`. -/
  | pausing (oldBlocked : BitVec 32)
  /-- At `repeat` in `sys_waitpid`. -/
  | waiting
  /-- Asleep in `sys_waitpid`, with its `oldblocked`. -/
  | asleep (oldblocked : BitVec 32)
  | gone

structure State where
  task : Task
  frame : Frame
  pc : Pc

/-- What a process does, or what is done to it. -/
inductive Event where
  | ssetmask (newmask : BitVec 32)
  | sigsuspend (restart oldMask set : BitVec 32)
  | signal (signum : Int) (handler restorer : BitVec 32)
  | sigaction (signum : Int) (action : Sigaction)
  | pause
  | waitpid
  /-- `sys_waitpid` finds no child that it can report, and may sleep. -/
  | sleep
  | waited
  /-- `schedule()` returns. -/
  | wake
  /-- A signal is delivered at the end of a system call. -/
  | deliver
  /-- The child of a fork. -/
  | forked
  | execve
  /-- Signals come, and the process stops or goes on; the user's program runs. -/
  | others (signal : BitVec 32) (state : TaskState) (exitCode : Nat) (frame : Frame)

/-- What `execve` does to signals. -/
def execve (t : Task) : Task :=
  { t with
    signal := 0
    sigaction := fun i =>
      let sa := t.sigaction i
      { sa with saMask := 0, saFlags := 0, saHandler := if sa.saHandler = SIG_IGN then SIG_IGN else SIG_DFL } }

/-- One step, if the process can make it. -/
def step (s : State) (e : Event) : Option State :=
  let t := s.task
  match s.pc, e with
  | .user, .ssetmask newmask => some { s with task := sysSsetmask newmask t }
  | .user, .sigsuspend restart oldMask set =>
      if restart ≠ 0 then some { s with task := sysSigsuspendRestart oldMask t }
      else some { s with task := sysPause (sysSigsuspend set t), pc := .pausing set }
  | .user, .signal signum handler restorer => some { s with task := (sysSignal signum handler restorer t).2 }
  | .user, .sigaction signum action => some { s with task := (sysSigaction signum action t).2 }
  | .user, .pause => some { s with task := sysPause t, pc := .pausing t.blocked }
  | .user, .waitpid => some { s with pc := .waiting }
  | .waiting, .waited => some { s with pc := .user }
  | .waiting, .sleep =>
      some { s with
        task := { t with state := .interruptible, blocked := t.blocked &&& ~~~ bit SIGCHLD }
        pc := .asleep t.blocked }
  | .pausing oldBlocked, .wake => some { s with task := { t with blocked := oldBlocked }, pc := .user }
  | .asleep oldblocked, .wake =>
      let interrupted := t.signal &&& ~~~ (oldblocked ||| bit SIGCHLD) ≠ 0
      some { s with task := { t with blocked := oldblocked }, pc := if interrupted then .user else .waiting }
  | .user, .deliver =>
      (nextSignal t).map fun signr =>
        let (outcome, frame, t) := doSignal signr s.frame { t with signal := t.signal &&& ~~~ bit signr }
        ⟨t, frame, if outcome = .gone then .gone else .user⟩
  | .user, .forked => some { s with task := { t with signal := 0 } }
  | .user, .execve => some { s with task := execve t }
  | _, .others signal state exitCode frame => some { s with task := { t with signal, state, exitCode }, frame }
  | _, _ => none

/-- A step that `ok` admits. -/
def Step (ok : State → Event → Prop) (s s' : State) : Prop := ∃ e, ok s e ∧ step s e = some s'

def Reaches (ok : State → Event → Prop) : State → State → Prop := ReflTransGen (Step ok)

/-- The first process. -/
def boot : State where
  task := ⟨.running, 0, 0, fun _ => ⟨0, 0, 0, 0⟩, 0⟩
  frame := ⟨0, 0, 0, 0, 0, 0, 0, []⟩
  pc := .user

/-! ## What is expected of the mask -/

/-- SIGKILL and SIGSTOP are not in `mask`. -/
def Clear (mask : BitVec 32) : Prop := ∀ sig ∈ [SIGKILL, SIGSTOP], mask.getLsbD (sig - 1) = false

instance (mask : BitVec 32) : Decidable (Clear mask) := inferInstanceAs (Decidable (∀ _ ∈ _, _))

/-- `sigsuspend` is not asked to block the two, and neither is the `sa_mask` of the handler that is set up. -/
def Admits (s : State) : Event → Prop
  | .sigsuspend restart oldMask set => Clear (if restart ≠ 0 then oldMask else set)
  | .deliver => ∀ signr, nextSignal s.task = some signr →
      let sa := s.task.sigaction (signr - 1)
      sa.saHandler ≠ SIG_IGN → sa.saHandler ≠ SIG_DFL → Clear sa.saMask
  | _ => True

/-- SIGKILL and SIGSTOP have no handler, and are not ignored. -/
def Default (t : Task) : Prop := ∀ sig ∈ [SIGKILL, SIGSTOP], (t.sigaction (sig - 1)).saHandler = SIG_DFL

/-- The mask that is going to be put back. -/
def Pc.saved : Pc → Option (BitVec 32)
  | .pausing oldBlocked => some oldBlocked
  | .asleep oldblocked => some oldblocked
  | _ => none

/-- **What holds in every state**, whatever the masks are. -/
structure Inv (s : State) : Prop where
  default : Default s.task
  /-- A sleeper has not blocked the two in the meantime, nor unblocked them. -/
  saved : ∀ mask ∈ s.pc.saved, Clear s.task.blocked → Clear mask

/-! ## Masks -/

variable {mask mask' : BitVec 32}

theorem Clear.or (h : Clear mask) (h' : Clear mask') : Clear (mask ||| mask') := fun sig hsig => by
  rw [BitVec.getLsbD_or, h sig hsig, h' sig hsig, Bool.or_self]

theorem clear_or_iff (h : Clear mask) : Clear (mask ||| mask') ↔ Clear mask' := by
  refine ⟨fun hor sig hsig => ?_, h.or⟩
  have hbit := hor sig hsig
  rw [BitVec.getLsbD_or, h sig hsig, Bool.false_or] at hbit
  exact hbit

theorem Clear.and (h : Clear mask) (mask' : BitVec 32) : Clear (mask &&& mask') := fun sig hsig => by
  rw [BitVec.getLsbD_and, h sig hsig, Bool.false_and]

/-- Whether the bit of `sig` is another signal's. -/
theorem getLsbD_bit {sig : Nat} (hsig : sig ∈ [SIGKILL, SIGSTOP]) (i : Nat) :
    (bit (i + 1)).getLsbD (sig - 1) = decide (i = sig - 1) := by
  have hlt : sig - 1 < 32 := by
    have : ∀ x ∈ [SIGKILL, SIGSTOP], x - 1 < 32 := by decide
    exact this sig hsig
  rw [bit, BitVec.getLsbD_twoPow, Nat.add_sub_cancel]
  by_cases hi : i = sig - 1
  · subst hi
    simp [hlt]
  · simp [hi]

/-- To unblock SIGCHLD is nothing to the two. -/
theorem clear_and_sigchld_iff : Clear (mask &&& ~~~ bit SIGCHLD) ↔ Clear mask := by
  have hbit : ∀ sig ∈ [SIGKILL, SIGSTOP], (~~~ bit SIGCHLD).getLsbD (sig - 1) = true := by decide
  refine ⟨fun hand sig hsig => ?_, fun h => h.and _⟩
  have hclear := hand sig hsig
  rw [BitVec.getLsbD_and, hbit sig hsig, Bool.and_true] at hclear
  exact hclear

theorem clear_ssetmask (newmask : BitVec 32) (t : Task) : Clear (sysSsetmask newmask t).blocked := by
  intro sig hsig
  have hbits : (~~~ bit SIGKILL &&& ~~~ bit SIGSTOP).getLsbD (sig - 1) = false := by
    have : ∀ x ∈ [SIGKILL, SIGSTOP], (~~~ bit SIGKILL &&& ~~~ bit SIGSTOP).getLsbD (x - 1) = false := by decide
    exact this sig hsig
  simp only [sysSsetmask, BitVec.and_assoc]
  rw [BitVec.getLsbD_and, hbits, Bool.and_false]

/-- `pause` blocks what is ignored, and the two are not. -/
theorem clear_blockIgnored_iff {t : Task} (h : Default t) (blocked : BitVec 32) :
    Clear (blockIgnored t.sigaction blocked) ↔ Clear blocked := by
  have hbit : ∀ sig ∈ [SIGKILL, SIGSTOP], ∀ l : List Nat, ∀ mask : BitVec 32,
      (l.foldl (fun mask i => if (t.sigaction i).saHandler = SIG_IGN then mask ||| bit (i + 1) else mask)
        mask).getLsbD (sig - 1) = mask.getLsbD (sig - 1) := by
    intro sig hsig l
    induction l with
    | nil => exact fun _ => rfl
    | cons i l ih =>
        intro mask
        rw [List.foldl_cons, ih]
        split
        · rename_i hign
          have hne : i ≠ sig - 1 := by
            rintro rfl
            rw [h sig hsig] at hign
            exact absurd hign (by decide)
          rw [BitVec.getLsbD_or, getLsbD_bit hsig, decide_eq_false hne, Bool.or_false]
        · rfl
  refine forall_congr' fun sig => forall_congr' fun hsig => ?_
  rw [blockIgnored, hbit sig hsig]

/-! ## Actions -/

variable {t : Task}

/-- An action of another signal is none of the two's. -/
theorem Default.setSigaction (h : Default t) {i : Nat} {sa : Sigaction}
    (hi : ∀ sig ∈ [SIGKILL, SIGSTOP], i = sig - 1 → sa.saHandler = SIG_DFL) : Default (t.setSigaction i sa) := by
  intro sig hsig
  unfold Task.setSigaction
  dsimp only
  split
  · rename_i heq
    exact hi sig hsig heq.symm
  · exact h sig hsig

/-- `signal` and `sigaction` refuse the two. -/
theorem ne_of_settable {signum : Int} (h : settable signum = true) :
    ∀ sig ∈ [SIGKILL, SIGSTOP], (signum - 1).toNat ≠ sig - 1 := by
  simp only [settable, decide_eq_true_eq] at h
  intro sig hsig
  simp only [List.mem_cons, List.not_mem_nil, or_false] at hsig
  rcases hsig with rfl | rfl
  · have : signum ≠ 9 := h.2.2.1
    show (signum - 1).toNat ≠ 8
    omega
  · have : signum ≠ 19 := h.2.2.2
    show (signum - 1).toNat ≠ 18
    omega

theorem Default.sysSignal (h : Default t) (signum : Int) (handler restorer : BitVec 32) :
    Default (sysSignal signum handler restorer t).2 := by
  unfold SignalMask.sysSignal
  split
  · rename_i hset
    exact h.setSigaction fun sig hsig heq => absurd heq (ne_of_settable hset sig hsig)
  · exact h

theorem Default.sysSigaction (h : Default t) (signum : Int) (action : Sigaction) :
    Default (sysSigaction signum action t).2 := by
  unfold SignalMask.sysSigaction
  split
  · rename_i hset
    exact h.setSigaction fun sig hsig heq => absurd heq (ne_of_settable hset sig hsig)
  · exact h

theorem Default.execve (h : Default t) : Default (execve t) := by
  intro sig hsig
  have hdfl : ¬ (t.sigaction (sig - 1)).saHandler = SIG_IGN := by
    rw [h sig hsig]
    decide
  exact if_neg hdfl

/-- The calls leave `blocked` as it is. -/
theorem sysSignal_blocked (signum : Int) (handler restorer : BitVec 32) :
    (sysSignal signum handler restorer t).2.blocked = t.blocked := by
  unfold sysSignal
  split <;> rfl

theorem sysSigaction_blocked (signum : Int) (action : Sigaction) :
    (sysSigaction signum action t).2.blocked = t.blocked := by
  unfold sysSigaction
  split <;> rfl

/-- Without a handler neither the mask nor an action changes. -/
theorem doDefault_same (signr : Nat) (t : Task) :
    (doDefault signr t).2.blocked = t.blocked ∧ (doDefault signr t).2.sigaction = t.sigaction := by
  unfold doDefault
  split_ifs <;> exact ⟨rfl, rfl⟩

theorem Default.invoke (h : Default t) (signr : Nat) (f : Frame) :
    Default (invoke (t.sigaction (signr - 1)) signr f t).2 := by
  intro sig hsig
  unfold SignalMask.invoke
  dsimp only
  split
  · have hdefault : ∀ sig ∈ [SIGKILL, SIGSTOP], signr - 1 = sig - 1 →
        ({ t.sigaction (signr - 1) with saHandler := SIG_DFL } : Sigaction).saHandler = SIG_DFL := fun _ _ _ => rfl
    exact h.setSigaction hdefault sig hsig
  · exact h sig hsig

/-- **What `do_signal` does**: it sets up a handler, and then adds its `sa_mask`, or leaves the mask alone. -/
theorem doSignal_mask (signr : Nat) (f : Frame) (h : Default t) :
    let sa := t.sigaction (signr - 1)
    Default (doSignal signr f t).2.2 ∧
      (doSignal signr f t).2.2.blocked =
        if sa.saHandler ≠ SIG_IGN ∧ sa.saHandler ≠ SIG_DFL then t.blocked ||| sa.saMask else t.blocked := by
  unfold doSignal
  dsimp only
  by_cases hign : (t.sigaction (signr - 1)).saHandler = SIG_IGN
  · rw [if_pos hign, if_neg fun hno => hno.1 hign]
    exact ⟨h, rfl⟩
  · rw [if_neg hign]
    by_cases hdfl : (t.sigaction (signr - 1)).saHandler = SIG_DFL
    · rw [if_pos hdfl, if_neg fun hno => hno.2 hdfl]
      obtain ⟨hblocked, hactions⟩ := doDefault_same signr t
      refine ⟨fun sig hsig => ?_, hblocked⟩
      rw [hactions]
      exact h sig hsig
    · rw [if_neg hdfl, if_pos ⟨hign, hdfl⟩]
      exact ⟨h.invoke signr _, rfl⟩

/-! ## Steps -/

/-- What is expected of a step: it keeps the invariant, and the mask stays clear if and only if the step is admitted. -/
def Keeps (s : State) (e : Event) (s' : State) : Prop :=
  Inv s' ∧ (Clear s.task.blocked → (Clear s'.task.blocked ↔ Admits s e))

variable {s s' : State}

/-- A step that leaves the mask alone, of a process that does not sleep. -/
theorem keeps_same {e : Event} {t : Task} {f : Frame} {pc : Pc} (hpc : pc.saved = none) (ht : Default t)
    (hmask : t.blocked = s.task.blocked) (hok : Admits s e) : Keeps s e ⟨t, f, pc⟩ := by
  refine ⟨⟨ht, fun mask hm => ?_⟩, fun hclear => ?_⟩
  · rw [show State.pc ⟨t, f, pc⟩ = pc from rfl, hpc] at hm
    cases hm
  · show Clear t.blocked ↔ _
    rw [hmask]
    exact iff_of_true hclear hok

/-- A sleeper puts its mask back. -/
theorem keeps_wake {e : Event} {mask : BitVec 32} {pc : Pc} (h : Inv s) (hmask : mask ∈ s.pc.saved)
    (hpc : pc.saved = none) (hok : Admits s e) :
    Keeps s e { s with task := { s.task with blocked := mask }, pc } := by
  refine ⟨⟨h.default, fun mask' hm => ?_⟩, fun hclear => iff_of_true (h.saved mask hmask hclear) hok⟩
  have hm : mask' ∈ pc.saved := hm
  rw [hpc] at hm
  cases hm

theorem keeps_step (h : Inv s) {e : Event} (hs : step s e = some s') : Keeps s e s' := by
  obtain ⟨t, f, pc⟩ := s
  have hdefault : Default t := h.default
  cases e with
  | ssetmask newmask =>
      cases pc <;> cases hs
      exact ⟨⟨hdefault, nofun⟩, fun _ => iff_of_true (clear_ssetmask newmask t) trivial⟩
  | sigsuspend restart oldMask set =>
      cases pc with
      | user =>
          simp only [step] at hs
          split at hs
          · rename_i hrestart
            cases hs
            refine ⟨⟨hdefault, nofun⟩, fun _ => ?_⟩
            simp only [Admits, if_pos hrestart]
            exact Iff.rfl
          · rename_i hrestart
            cases hs
            have hiff : Clear (blockIgnored t.sigaction set) ↔ Clear set := clear_blockIgnored_iff hdefault set
            refine ⟨⟨hdefault, fun mask hm => ?_⟩, fun _ => ?_⟩
            · cases hm
              exact hiff.1
            · simp only [Admits, if_neg hrestart]
              exact hiff
      | _ => cases hs
  | signal signum handler restorer =>
      cases pc <;> cases hs
      exact keeps_same rfl (hdefault.sysSignal signum handler restorer) (sysSignal_blocked ..) trivial
  | sigaction signum action =>
      cases pc <;> cases hs
      exact keeps_same rfl (hdefault.sysSigaction signum action) (sysSigaction_blocked ..) trivial
  | pause =>
      cases pc <;> cases hs
      have hiff : Clear (blockIgnored t.sigaction t.blocked) ↔ Clear t.blocked := clear_blockIgnored_iff hdefault _
      refine ⟨⟨hdefault, fun mask hm => ?_⟩, fun hclear => iff_of_true (hiff.2 hclear) trivial⟩
      cases hm
      exact hiff.1
  | waitpid =>
      cases pc <;> cases hs
      exact keeps_same rfl hdefault rfl trivial
  | waited =>
      cases pc <;> cases hs
      exact keeps_same rfl hdefault rfl trivial
  | sleep =>
      cases pc <;> cases hs
      refine ⟨⟨hdefault, fun mask hm => ?_⟩, fun hclear => iff_of_true (hclear.and _) trivial⟩
      cases hm
      exact clear_and_sigchld_iff.1
  | wake =>
      cases pc with
      | pausing oldBlocked =>
          cases hs
          exact keeps_wake h rfl rfl trivial
      | asleep oldblocked =>
          cases hs
          refine keeps_wake h rfl ?_ trivial
          split <;> rfl
      | _ => cases hs
  | deliver =>
      cases pc with
      | user =>
          obtain ⟨signr, hsignr, hs⟩ := Option.map_eq_some_iff.1 hs
          obtain ⟨ht, hmask⟩ := doSignal_mask signr f (t := { t with signal := t.signal &&& ~~~ bit signr }) hdefault
          subst hs
          refine ⟨⟨ht, fun mask hm => ?_⟩, fun hclear => ?_⟩
          · dsimp only at hm
            split at hm <;> cases hm
          · dsimp only
            rw [hmask]
            have hadmits : Admits ⟨t, f, .user⟩ .deliver ↔
                ((t.sigaction (signr - 1)).saHandler ≠ SIG_IGN → (t.sigaction (signr - 1)).saHandler ≠ SIG_DFL →
                  Clear (t.sigaction (signr - 1)).saMask) := by
              refine ⟨fun hok => hok signr hsignr, fun hok signr' hsignr' => ?_⟩
              rw [hsignr] at hsignr'
              cases hsignr'
              exact hok
            rw [hadmits]
            split
            · rename_i hset
              rw [clear_or_iff hclear]
              exact ⟨fun hm _ _ => hm, fun hm => hm hset.1 hset.2⟩
            · rename_i hset
              exact iff_of_true hclear fun hign hdfl => absurd ⟨hign, hdfl⟩ hset
      | _ => cases hs
  | forked =>
      cases pc <;> cases hs
      exact keeps_same rfl hdefault rfl trivial
  | execve =>
      cases pc <;> cases hs
      exact keeps_same rfl hdefault.execve rfl trivial
  | others signal state exitCode frame =>
      have hs : s' = ⟨{ t with signal, state, exitCode }, frame, pc⟩ := by
        cases pc <;> cases hs <;> rfl
      subst hs
      exact ⟨⟨hdefault, h.saved⟩, fun hclear => iff_of_true hclear trivial⟩

/-! ## Runs -/

theorem inv_boot : Inv boot := ⟨fun _ _ => rfl, nofun⟩

theorem inv_reaches (h : Inv s) {ok : State → Event → Prop} (hr : Reaches ok s s') : Inv s' := by
  induction hr with
  | refl => exact h
  | tail _ hstep ih =>
      obtain ⟨e, -, hs⟩ := hstep
      exact (keeps_step ih hs).1

/-- **SIGKILL and SIGSTOP are never blocked**, from any state where they are not, as long as the steps are
admitted. -/
theorem never_blocked (hs : Reaches (fun _ _ => True) boot s) (hclear : Clear s.task.blocked)
    (hr : Reaches Admits s s') : Clear s'.task.blocked := by
  induction hr with
  | refl => exact hclear
  | @tail s₁ s₂ hr hstep ih =>
      obtain ⟨e, hok, hs₂⟩ := hstep
      have hinv : Inv s₁ := inv_reaches (inv_reaches inv_boot hs) hr
      exact ((keeps_step hinv hs₂).2 ih).2 hok

/-- A process waits for a signal, with SIGCHLD blocked. -/
theorem never_blocked_pause : ∃ s' : State, s'.pc = .pausing (bit SIGCHLD) ∧ Clear s'.task.blocked :=
  ⟨⟨sysPause (sysSigsuspend (bit SIGCHLD) boot.task), boot.frame, .pausing (bit SIGCHLD)⟩, rfl,
    never_blocked .refl (by decide) (.single ⟨.sigsuspend 0 0 (bit SIGCHLD), show Clear _ by decide, rfl⟩)⟩

/-- **`sigsuspend` blocks SIGKILL if it is asked to**: the process sleeps, SIGKILL is there, and there is no signal
to deliver. -/
theorem sigsuspend_blocks : ∃ s', Reaches (fun _ _ => True) boot s' ∧ ¬ Clear s'.task.blocked ∧
    s'.task.state = .interruptible ∧ s'.task.signal.getLsbD (SIGKILL - 1) = true ∧ nextSignal s'.task = none := by
  let all := BitVec.allOnes 32
  let s₁ : State := ⟨sysPause (sysSigsuspend all boot.task), boot.frame, .pausing all⟩
  have hsuspend : Step (fun _ _ => True) boot s₁ := ⟨.sigsuspend 0 0 all, trivial, rfl⟩
  have hkill : Step (fun _ _ => True) s₁ _ := ⟨.others (bit SIGKILL) .interruptible 0 boot.frame, trivial, rfl⟩
  exact ⟨_, .tail (.single hsuspend) hkill, by decide, rfl, by decide, by decide⟩

end SignalMask
end Kernel
end Linux095
