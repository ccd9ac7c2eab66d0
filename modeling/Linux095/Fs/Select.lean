import Linux095.ChrDrv.Tty
import Mathlib.Logic.Relation

/-!
# `Fs.Select` — `select` (`fs/select.c`)

`do_select` looks at each descriptor. When none is ready it has put the task on a wait queue for each, and sleeps.

* `checkIn`, `checkOut`, `checkEx`, `scan` — the source's functions;
* `Step` — what happens to pipes, terminals and the tasks that select, in any order;
* `Heard` — **no wake-up is lost**: what a task waits for does not come true without a wake-up on its queues;
* `select_heard` — that holds in every run whose steps are clear;
* `pipe_unheard` — a pipe in the `out` set is waited for on the queue of its readers.

A call that copies from or to user memory may fault there, and sleep or die, so those of pipes are several steps. The
calls of terminals only sleep between the steps. How a wake-up travels down a queue is in `Sched.WaitQueue`.
-/

namespace Linux095
namespace Fs
namespace Select
open ChrDrv Seq Relation

def NR_OPEN : Nat := 20
abbrev PAGE_SIZE : Nat := 4096

/-- `startup`: the characters left in a write queue of a serial line when it is restarted. -/
def STARTUP : Nat := 256

abbrev FdSet := BitVec 32

/-- What a descriptor leads to. -/
inductive Inode where
  | chr (major minor : Nat)
  | pipe (head tail : Fin PAGE_SIZE) (iCount : Nat)
  | fifo
  | other

/-- The address of a wait queue. -/
inductive Addr where
  | proc (q : Queue)
  | iWait (i : Nat)
  | iWait2 (i : Nat)
  deriving DecidableEq

def PIPE_READ_WAIT (i : Nat) : Addr := .iWait i
def PIPE_WRITE_WAIT (i : Nat) : Addr := .iWait2 i
def pipeSize (head tail : Fin PAGE_SIZE) : Nat := (head - tail).val
def pipeEmpty (head tail : Fin PAGE_SIZE) : Bool := head == tail
def pipeFull (head tail : Fin PAGE_SIZE) : Bool := pipeSize head tail == PAGE_SIZE - 1

/-- `wait_entry`. -/
structure Entry where
  addr : Addr
  oldTask : Option Nat

/-- `SEL_IN`, `SEL_OUT` and `SEL_EX`. -/
inductive Sel where
  | in_
  | out
  | ex
  deriving DecidableEq

/-- Where a task is. -/
inductive Pc where
  | run
  /-- At `repeat` of `do_select`. -/
  | scanning (sets : Sel → FdSet)
  /-- In `schedule()` of `do_select`; `woken` tells of a wake-up on one of the queues. -/
  | asleep (sets : Sel → FdSet) (table : List Entry) (woken : Bool)
  /-- In `free_wait`, and then back to `repeat`, or not. -/
  | freeing (again : Option (Sel → FdSet)) (table : List Entry)
  /-- In `pipe_read`, after bytes have been taken. -/
  | pipeRead (i : Nat)
  /-- In `pipe_write`, after bytes have been put in. -/
  | pipeWrite (i : Nat)
  /-- In `tty_write`, after characters have been put in. -/
  | ttyWrite (n : Nat)

structure Config where
  ttys : Ttys
  fgConsole : Nat
  inode : Nat → Inode
  filp : Nat → Nat → Option Nat
  /-- `current->tty`. -/
  tty : Nat → Option Nat
  /-- The task on top of a wait queue. -/
  top : Addr → Option Nat
  pc : Nat → Pc

namespace Config

def goto (c : Config) (t : Nat) (q : Pc) : Config := { c with pc := fun x => if x = t then q else c.pc x }

def setInode (c : Config) (i : Nat) (v : Inode) : Config :=
  { c with inode := fun x => if x = i then v else c.inode x }

def setTop (c : Config) (a : Addr) (t : Option Nat) : Config :=
  { c with top := fun x => if x = a then t else c.top x }

/-- Wake-ups on the queues of `l`. -/
def wakeUp (c : Config) (l : List Addr) : Config :=
  { c with pc := fun t => match c.pc t with
      | .asleep sets table woken => .asleep sets table (woken || table.any fun e => l.contains e.addr)
      | q => q }

/-- `TTY_TABLE`. -/
def ttyTable (c : Config) (nr : Nat) : Nat := if nr ≠ 0 then if nr < 64 then nr - 1 else nr else c.fgConsole

/-- The minor number that `get_tty` takes. -/
def minor (c : Config) (current i : Nat) : Option Nat :=
  match c.inode i with
  | .chr major minor => if major = 5 then c.tty current else if major = 4 then some minor else none
  | _ => none

/-- `get_tty`. -/
def getTty (c : Config) (current i : Nat) : Option Nat := (c.minor current i).map c.ttyTable

end Config

/-! ## `do_select` -/

/-- `top`, and the entries of `select_table`. -/
abbrev Wait : Type := (Addr → Option Nat) × List Entry

/-- `add_wait`. -/
def addWait (current : Nat) (a : Addr) (w : Wait) : Wait :=
  if w.2.any fun e => e.addr == a then w
  else (fun x => if x = a then some current else w.1 x, w.2 ++ [⟨a, w.1 a⟩])

/-- `check_in`. -/
def checkIn (c : Config) (current i : Nat) (w : Wait) : Bool × Wait :=
  match c.getTty current i with
  | some n =>
      if !(c.ttys.queue (.secondary n)).empty then (true, w)
      else (false, addWait current (.proc (.secondary n)) w)
  | none =>
      match c.inode i with
      | .pipe head tail iCount =>
          if !pipeEmpty head tail || decide (iCount < 2) then (true, w)
          else (false, addWait current (.iWait i) w)
      | _ => (false, w)

/-- `check_out`. -/
def checkOut (c : Config) (current i : Nat) (w : Wait) : Bool × Wait :=
  match c.getTty current i with
  | some n =>
      if !(c.ttys.queue (.writeQ n)).full then (true, w)
      else (false, addWait current (.proc (.writeQ n)) w)
  | none =>
      match c.inode i with
      | .pipe head tail _ =>
          if !pipeFull head tail then (true, w)
          else (false, addWait current (.iWait i) w)
      | _ => (false, w)

/-- `check_ex`. -/
def checkEx (c : Config) (current i : Nat) (w : Wait) : Bool × Wait :=
  match c.getTty current i with
  | some _ => (false, w)
  | none =>
      match c.inode i with
      | .pipe _ _ iCount =>
          if iCount < 2 then (true, w)
          else (false, addWait current (.iWait i) w)
      | _ => (false, w)

def check (c : Config) (current : Nat) : Sel → Nat → Wait → Bool × Wait
  | .in_ => checkIn c current
  | .out => checkOut c current
  | .ex => checkEx c current

/-- What the loop of `do_select` has found so far. -/
structure Scan where
  wait : Wait
  res : Sel → FdSet
  count : Nat

/-- A descriptor in one of the sets. -/
def checkFd (c : Config) (current : Nat) (sets : Sel → FdSet) (x : Scan) (p : Nat × Sel) : Scan :=
  match if (sets p.2).getLsbD p.1 then c.filp current p.1 else none with
  | none => x
  | some i =>
      let r := check c current p.2 i x.wait
      if r.1 then
        { wait := r.2
          res := fun k => if k = p.2 then x.res k ||| BitVec.twoPow 32 p.1 else x.res k
          count := x.count + 1 }
      else { x with wait := r.2 }

/-- The descriptors in the order in which they are looked at. -/
def order : List (Nat × Sel) := (List.range NR_OPEN).flatMap fun fd => [(fd, .in_), (fd, .out), (fd, .ex)]

/-- The loop of `do_select`, from `repeat` on. -/
def scan (c : Config) (current : Nat) (sets : Sel → FdSet) : Scan :=
  order.foldl (checkFd c current sets) ⟨(c.top, []), fun _ => 0, 0⟩

/-- The first loop of `do_select` finds no bad descriptor. -/
def valid (c : Config) (current : Nat) (sets : Sel → FdSet) : Prop :=
  ∀ fd < NR_OPEN, (∃ k, (sets k).getLsbD fd) → ∃ i, c.filp current fd = some i ∧ c.inode i ≠ .other

/-! ## Runs -/

/-- The `chars` of `pipe_read`. -/
def readChars (head tail : Fin PAGE_SIZE) (count : Nat) : Nat := min (min (PAGE_SIZE - tail) count) (pipeSize head tail)

/-- The `size` of `pipe_write`. -/
def space (head tail : Fin PAGE_SIZE) : Nat := PAGE_SIZE - 1 - pipeSize head tail

/-- The `chars` of `pipe_write`. -/
def writeChars (head tail : Fin PAGE_SIZE) (count : Nat) : Nat := min (min (PAGE_SIZE - head) count) (space head tail)

/-- `queue->head = queue->tail`. -/
def flushed (q : TtyQueue) : TtyQueue := { q with head := q.tail }

/-- Whether `write_char` wakes up those that wait for room. -/
def restarts (q : TtyQueue) : Bool := q.empty || q.chars ≤ STARTUP || q.getch.2.empty

/-- The write end of a pipe may not be waited for, nor a serial line, whose interrupt handler lets its queue run
down. -/
def ClearOut (c : Config) (t : Nat) (sets : Sel → FdSet) : Prop :=
  ∀ fd < NR_OPEN, (sets .out).getLsbD fd → ∀ i, c.filp t fd = some i →
    (∀ head tail n, c.inode i ≠ .pipe head tail n) ∧ ∀ n, c.getTty t i = some n → ¬ isASerial n

/-- `t` sleeps in `do_select` with the terminal of the foreground console in one of the sets. -/
def WaitsForConsole (c : Config) (t : Nat) : Prop :=
  (∃ sets table woken, c.pc t = .asleep sets table woken) ∧ ∃ fd i, c.filp t fd = some i ∧ c.minor t i = some 0

/-- The tty calls that a step makes, and the wake-ups they make. -/
def Config.calls (c : Config) (s : Ttys) : Config := { c with ttys := s }.wakeUp (s.woken.map .proc)

/-- One step. In a run that is clear the conditions on `clear` are met. -/
inductive Step (clear : Prop) : Config → Config → Prop
  | call {c : Config} {t : Nat} (sets : Sel → FdSet) (ht : c.pc t = .run) (hvalid : valid c t sets) :
      Step clear c (c.goto t (.scanning sets))
  | sleep {c : Config} {t : Nat} {sets : Sel → FdSet} (ht : c.pc t = .scanning sets)
      (hcount : (scan c t sets).count = 0)
      (hclear : clear → ClearOut c t sets) :
      Step clear c ({ c with top := (scan c t sets).wait.1 }.goto t (.asleep sets (scan c t sets).wait.2 false))
  | found {c : Config} {t : Nat} {sets : Sel → FdSet} (ht : c.pc t = .scanning sets) :
      Step clear c ({ c with top := (scan c t sets).wait.1 }.goto t (.freeing none (scan c t sets).wait.2))
  /-- A wake-up, a signal or a time-out. -/
  | resume {c : Config} {t : Nat} {sets : Sel → FdSet} {table : List Entry} {woken : Bool}
      (ht : c.pc t = .asleep sets table woken) : Step clear c (c.goto t (.freeing (some sets) table))
  | free {c : Config} {t : Nat} {again : Option (Sel → FdSet)} {e : Entry} {table : List Entry}
      (ht : c.pc t = .freeing again (e :: table)) (htop : c.top e.addr = none ∨ c.top e.addr = some t) :
      Step clear c ((c.setTop e.addr e.oldTask).goto t (.freeing again table))
  | freed {c : Config} {t : Nat} {again : Option (Sel → FdSet)} (ht : c.pc t = .freeing again []) :
      Step clear c (c.goto t (again.elim .run .scanning))
  /-- Somebody else sleeps on a queue, or leaves it. -/
  | sleepOn {c : Config} (a : Addr) (t : Option Nat) : Step clear c (c.setTop a t)
  /- pipes -/
  | readTake {c : Config} {u i n : Nat} {head tail : Fin PAGE_SIZE} (count : Nat)
      (hu : c.pc u = .run ∨ c.pc u = .pipeRead i)
      (hi : c.inode i = .pipe head tail n) (hcount : 0 < count) (hsize : pipeSize head tail ≠ 0) :
      Step clear c ((c.setInode i (.pipe head (tail + Fin.ofNat PAGE_SIZE (readChars head tail count)) n)).goto u
        (.pipeRead i))
  | readWake {c : Config} {u i : Nat} (hu : c.pc u = .run ∨ c.pc u = .pipeRead i) :
      Step clear c ((c.goto u .run).wakeUp [PIPE_WRITE_WAIT i])
  | writeTake {c : Config} {u i n : Nat} {head tail : Fin PAGE_SIZE} (count : Nat)
      (hu : c.pc u = .run ∨ c.pc u = .pipeWrite i)
      (hi : c.inode i = .pipe head tail n) (hcount : 0 < count) (hspace : space head tail ≠ 0) :
      Step clear c ((c.setInode i (.pipe (head + Fin.ofNat PAGE_SIZE (writeChars head tail count)) tail n)).goto u
        (.pipeWrite i))
  | writeWake {c : Config} {u i : Nat} (hu : c.pc u = .run ∨ c.pc u = .pipeWrite i) :
      Step clear c ((c.goto u .run).wakeUp [PIPE_READ_WAIT i])
  /-- `iput` for one end. -/
  | close {c : Config} {i n : Nat} {head tail : Fin PAGE_SIZE} (hi : c.inode i = .pipe head tail (n + 1)) :
      Step clear c ((c.setInode i (.pipe head tail n)).wakeUp [.iWait i, .iWait2 i])
  /- terminals -/
  | put {c : Config} {u n : Nat} (b : Byte) (hu : c.pc u = .run ∨ c.pc u = .ttyWrite n) :
      Step clear c ({ c with ttys := c.ttys.setQueue (.writeQ n) ((c.ttys.queue (.writeQ n)).putch b) }.goto u
        (.ttyWrite n))
  | write {c : Config} {u n k : Nat} {signal : Bool} {s : Ttys} (hu : c.pc u = .run ∨ c.pc u = .ttyWrite n)
      (hs : written k n { c.ttys with woken := [], signal } = .ok ((), s)) : Step clear c ((c.goto u .run).calls s)
  | cook {c : Config} {n k : Nat} {signal : Bool} {s : Ttys}
      (hs : cooked k n { c.ttys with woken := [], signal } = .ok ((), s)) : Step clear c (c.calls s)
  | get {c : Config} {n : Nat} (hn : (c.ttys.queue (.secondary n)).empty = false) :
      Step clear c ({ c with ttys := c.ttys.setQueue (.secondary n) ((c.ttys.queue (.secondary n)).getch).2 }.wakeUp
        [.proc (.readQ n)])
  | receive {c : Config} (n : Nat) (b : Byte) :
      Step clear c { c with ttys := c.ttys.setQueue (.readQ n) ((c.ttys.queue (.readQ n)).putch b) }
  | flush {c : Config} (q : Queue) :
      Step clear c ({ c with ttys := c.ttys.setQueue q (flushed (c.ttys.queue q)) }.wakeUp [.proc q])
  /-- `write_char` and `do_rs_write` of a serial line. -/
  | transmit {c : Config} {n : Nat} (hn : isASerial n) :
      Step clear c ({ c with ttys := c.ttys.setQueue (.writeQ n) ((c.ttys.queue (.writeQ n)).getch).2 }.wakeUp
        (if restarts (c.ttys.queue (.writeQ n)) then [.proc (.writeQ n)] else []))
  /-- `TCXONC` puts STOP or START into the queue. -/
  | xonc {c : Config} (n : Nat) (b : Byte) (hclear : clear → (c.ttys.queue (.writeQ n)).full = false) :
      Step clear c { c with ttys := c.ttys.setQueue (.writeQ n) ((c.ttys.queue (.writeQ n)).putch b) }
  | tcset {c : Config} (termios : Nat → Termios) (stopped : Nat → Bool) :
      Step clear c { c with ttys := { c.ttys with termios, stopped } }
  | changeConsole {c : Config} (n : Nat) (hclear : clear → ∀ t, ¬ WaitsForConsole c t) :
      Step clear c { c with fgConsole := n }
  /- the rest -/
  /-- A task dies while it copies from or to user memory. -/
  | die {c : Config} {u : Nat} (hu : (∃ i, c.pc u = .pipeRead i) ∨ ¬ clear ∧
      ((∃ i, c.pc u = .pipeWrite i) ∨ ∃ n, c.pc u = .ttyWrite n)) : Step clear c (c.goto u .run)
  | openFd {c : Config} {t : Nat} (fd : Nat) (i : Option Nat) (ht : c.pc t = .run) :
      Step clear c { c with filp := fun x y => if x = t ∧ y = fd then i else c.filp x y }
  | newInode {c : Config} {i : Nat} (v : Inode) (hi : ∀ t fd, c.filp t fd ≠ some i) : Step clear c (c.setInode i v)
  | setTty {c : Config} {t : Nat} (v : Option Nat) (ht : c.pc t = .run ∨ v = none) :
      Step clear c { c with tty := fun x => if x = t then v else c.tty x }

/-! ## What is waited for -/

/-- The queue that a check puts the task on. -/
def waitsOn (c : Config) (t : Nat) (k : Sel) (i : Nat) : Option Addr :=
  match c.getTty t i with
  | some n =>
      match k with
      | .in_ => some (.proc (.secondary n))
      | .out => some (.proc (.writeQ n))
      | .ex => none
  | none =>
      match c.inode i with
      | .pipe _ _ _ => some (.iWait i)
      | _ => none

/-- The condition that a check tests, of a pipe. -/
def pipeReady : Sel → Inode → Bool
  | .in_, .pipe head tail iCount => !pipeEmpty head tail || decide (iCount < 2)
  | .out, .pipe head tail _ => !pipeFull head tail
  | .ex, .pipe _ _ iCount => decide (iCount < 2)
  | _, _ => false

/-- The condition that a check tests. -/
def cond (c : Config) (k : Sel) : Addr → Bool
  | .proc q => c.ttys.ready q
  | .iWait i => pipeReady k (c.inode i)
  | .iWait2 _ => false

/-- Each check is of this form. -/
theorem check_eq (c : Config) (t : Nat) (k : Sel) (i : Nat) (w : Wait) :
    check c t k i w = (waitsOn c t k i).elim (false, w) fun a =>
      if cond c k a then (true, w) else (false, addWait t a w) := by
  unfold check waitsOn
  cases k with
  | in_ =>
      simp only [checkIn]
      cases c.getTty t i with
      | some n => simp [cond, Ttys.ready]
      | none => cases hi : c.inode i <;> simp [cond, pipeReady, hi]
  | out =>
      simp only [checkOut]
      cases c.getTty t i with
      | some n => simp [cond, Ttys.ready]
      | none => cases hi : c.inode i <;> simp [cond, pipeReady, hi]
  | ex =>
      simp only [checkEx]
      cases c.getTty t i with
      | some n => simp
      | none => cases hi : c.inode i <;> simp [cond, pipeReady, hi]

/-- `t` sleeps in `do_select`, has not been woken, and has a descriptor for `i` in one of its sets. -/
def Waits (c : Config) (t : Nat) (k : Sel) (i : Nat) (table : List Entry) : Prop :=
  ∃ sets fd, c.pc t = .asleep sets table false ∧ fd < NR_OPEN ∧ (sets k).getLsbD fd = true ∧ c.filp t fd = some i

/-- A task in the middle of a call that is going to wake up those that sleep on `a`. -/
def Pc.Owes : Pc → Addr → Prop
  | .pipeRead i, a => a = PIPE_WRITE_WAIT i
  | .pipeWrite i, a => a = PIPE_READ_WAIT i
  | .ttyWrite n, a => a = .proc (.writeQ n)
  | _, _ => False

/-- **No wake-up is lost.** A task that goes to sleep in `do_select` is on top of each of its wait queues; one of them
belongs to each descriptor that it waits for; and once the descriptor is ready the task has been woken, or a call in
progress is going to wake up that queue. -/
structure Heard (c : Config) : Prop where
  top : ∀ t sets, ∀ e ∈ (scan c t sets).wait.2, (scan c t sets).wait.1 e.addr = some t
  queued : ∀ t k i table, Waits c t k i table → ∀ a, waitsOn c t k i = some a → ∃ e ∈ table, e.addr = a
  told : ∀ t k i table, Waits c t k i table → ∀ w, (check c t k i w).1 = true →
    ∃ a u, waitsOn c t k i = some a ∧ (c.pc u).Owes a

/-! ## The scan -/

section
variable {c : Config} {t : Nat} {sets : Sel → FdSet}

/-- After the descriptors in `done`. -/
structure Scanned (c : Config) (t : Nat) (sets : Sel → FdSet) (done : List (Nat × Sel)) (x : Scan) : Prop where
  top : ∀ e ∈ x.wait.2, x.wait.1 e.addr = some t
  queued : x.count = 0 → ∀ p ∈ done, (sets p.2).getLsbD p.1 = true → ∀ i, c.filp t p.1 = some i →
    ∀ a, waitsOn c t p.2 i = some a → cond c p.2 a = false ∧ ∃ e ∈ x.wait.2, e.addr = a

theorem addWait_top {a : Addr} {w : Wait} (h : ∀ e ∈ w.2, w.1 e.addr = some t) :
    ∀ e ∈ (addWait t a w).2, (addWait t a w).1 e.addr = some t := by
  unfold addWait
  split
  · exact h
  · intro e he
    by_cases hea : e.addr = a
    · exact if_pos hea
    · rcases List.mem_append.mp he with he | he
      · exact (if_neg hea).trans (h e he)
      · rw [List.mem_singleton.mp he] at hea
        exact absurd rfl hea

theorem addWait_mem (a : Addr) (w : Wait) :
    (∃ e ∈ (addWait t a w).2, e.addr = a) ∧ ∀ e ∈ w.2, e ∈ (addWait t a w).2 := by
  unfold addWait
  split
  · rename_i h
    obtain ⟨e, he, hea⟩ := List.any_eq_true.mp h
    exact ⟨⟨e, he, beq_iff_eq.mp hea⟩, fun e he => he⟩
  · exact ⟨⟨⟨a, w.1 a⟩, by simp, rfl⟩, fun e he => List.mem_append_left _ he⟩

theorem Scanned.checkFd {done : List (Nat × Sel)} {x : Scan} (h : Scanned c t sets done x) (p : Nat × Sel) :
    Scanned c t sets (done ++ [p]) (checkFd c t sets x p) := by
  unfold Select.checkFd
  cases hp : if (sets p.2).getLsbD p.1 then c.filp t p.1 else none with
  | none =>
      refine ⟨h.top, fun hcount q hq hbit i hi => ?_⟩
      rcases List.mem_append.mp hq with hq | hq
      · exact h.queued hcount q hq hbit i hi
      · rw [List.mem_singleton.mp hq] at hbit hi
        rw [if_pos hbit, hi] at hp
        cases hp
  | some j =>
      simp only [check_eq]
      cases hw : waitsOn c t p.2 j with
      | none =>
          refine ⟨h.top, fun hcount q hq hbit i hi a ha => ?_⟩
          rcases List.mem_append.mp hq with hq | hq
          · exact h.queued hcount q hq hbit i hi a ha
          · rw [List.mem_singleton.mp hq] at hbit hi ha
            rw [if_pos hbit, hi] at hp
            cases hp
            rw [hw] at ha
            cases ha
      | some b =>
          simp only [Option.elim_some]
          by_cases hc : cond c p.2 b = true
          · simp only [if_pos hc, if_true]
            exact ⟨h.top, fun hcount => absurd hcount (Nat.succ_ne_zero _)⟩
          · simp only [if_neg hc, Bool.false_eq_true, if_false]
            refine ⟨addWait_top h.top, fun hcount q hq hbit i hi a ha => ?_⟩
            rcases List.mem_append.mp hq with hq | hq
            · obtain ⟨hcond, e, he, hea⟩ := h.queued hcount q hq hbit i hi a ha
              exact ⟨hcond, e, (addWait_mem b x.wait).2 e he, hea⟩
            · rw [List.mem_singleton.mp hq] at hbit hi ha ⊢
              rw [if_pos hbit, hi] at hp
              cases hp
              rw [hw] at ha
              cases ha
              exact ⟨Bool.eq_false_iff.mpr hc, (addWait_mem b x.wait).1⟩

theorem scan_scanned (c : Config) (t : Nat) (sets : Sel → FdSet) : Scanned c t sets order (scan c t sets) := by
  have hfold : ∀ (l done : List (Nat × Sel)) (x : Scan), Scanned c t sets done x →
      Scanned c t sets (done ++ l) (l.foldl (checkFd c t sets) x) := by
    intro l
    induction l with
    | nil =>
        intro done x h
        rw [List.append_nil]
        exact h
    | cons p l ih =>
        intro done x h
        have := ih (done ++ [p]) _ (h.checkFd p)
        rw [List.append_assoc] at this
        exact this
  exact hfold order [] _ ⟨by simp, by simp⟩

theorem order_mem {fd : Nat} (hfd : fd < NR_OPEN) (k : Sel) : (fd, k) ∈ order := by
  refine List.mem_flatMap.mpr ⟨fd, List.mem_range.mpr hfd, ?_⟩
  cases k <;> simp

end

/-! ## The invariant -/

/-- The queues that a task may wait on in a run that is clear. -/
def Fits : Sel → Addr → Prop
  | .in_, .proc (.secondary _) => True
  | .in_, .iWait _ => True
  | .out, .proc (.writeQ n) => ¬ isASerial n
  | .ex, .iWait _ => True
  | _, _ => False

/-- **The invariant.** -/
def Alert (c : Config) : Prop :=
  ∀ t k i table, Waits c t k i table → ∀ a, waitsOn c t k i = some a →
    Fits k a ∧ (∃ e ∈ table, e.addr = a) ∧ (cond c k a = true → ∃ u, (c.pc u).Owes a)

theorem Alert.heard {c : Config} (h : Alert c) : Heard c := by
  refine ⟨fun t sets => (scan_scanned c t sets).top, fun t k i table hw a ha => (h t k i table hw a ha).2.1,
    fun t k i table hw w hr => ?_⟩
  rw [check_eq] at hr
  cases ha : waitsOn c t k i with
  | none =>
      rw [ha] at hr
      exact absurd hr Bool.false_ne_true
  | some a =>
      rw [ha, Option.elim_some] at hr
      have hcond : cond c k a = true := by
        cases hc : cond c k a with
        | true => rfl
        | false =>
            rw [hc] at hr
            exact hr
      obtain ⟨u, hu⟩ := (h t k i table hw a ha).2.2 hcond
      exact ⟨a, u, rfl, hu⟩

/-- What a step has to show when nobody falls asleep. -/
theorem Alert.next {c c' : Config} (h : Alert c)
    (hpc : ∀ t sets table, c'.pc t = .asleep sets table false →
      c.pc t = .asleep sets table false ∧ c'.filp t = c.filp t)
    (hwaits : ∀ t k i table a, Waits c t k i table → waitsOn c' t k i = some a → waitsOn c t k i = some a)
    (hcond : ∀ t k i table a, Waits c t k i table → Waits c' t k i table → waitsOn c t k i = some a → Fits k a →
      (∃ e ∈ table, e.addr = a) → (cond c k a = true → ∃ u, (c.pc u).Owes a) → cond c' k a = true →
      ∃ u, (c'.pc u).Owes a) : Alert c' := by
  rintro t k i table ⟨sets, fd, ht, hfd, hbit, hi⟩ a ha
  obtain ⟨ht₀, hfilp⟩ := hpc t sets table ht
  have hw₀ : Waits c t k i table := ⟨sets, fd, ht₀, hfd, hbit, hfilp ▸ hi⟩
  have ha₀ := hwaits t k i table a hw₀ ha
  obtain ⟨hfits, hmem, howed⟩ := h t k i table hw₀ a ha₀
  exact ⟨hfits, hmem, fun hc => hcond t k i table a hw₀ ⟨sets, fd, ht, hfd, hbit, hi⟩ ha₀ hfits hmem howed hc⟩

/-! ### What decides where a task waits -/

section
variable {c c' : Config}

/-- The inodes are of the same kind. -/
def Inode.Same : Inode → Inode → Prop
  | .pipe _ _ _, .pipe _ _ _ => True
  | x, y => x = y

theorem Inode.Same.refl (x : Inode) : x.Same x := by
  cases x with
  | pipe head tail n => trivial
  | chr major minor => rfl
  | fifo => rfl
  | other => rfl

theorem waitsOn_congr {t i : Nat} (hfg : c'.fgConsole = c.fgConsole) (htty : c'.tty t = c.tty t)
    (hi : (c.inode i).Same (c'.inode i)) (k : Sel) : waitsOn c' t k i = waitsOn c t k i := by
  have hminor : c'.minor t i = c.minor t i := by
    unfold Config.minor
    cases h : c.inode i <;> cases h' : c'.inode i <;> rw [h, h'] at hi <;> cases hi <;> simp [htty]
  have htable : c'.ttyTable = c.ttyTable := by
    unfold Config.ttyTable
    rw [hfg]
  unfold waitsOn Config.getTty
  rw [hminor, htable]
  cases (c.minor t i).map c.ttyTable with
  | some n => rfl
  | none => cases h : c.inode i <;> cases h' : c'.inode i <;> rw [h, h'] at hi <;> cases hi

/-- A queue of an inode is a queue of a pipe. -/
theorem waitsOn_iWait {t i j : Nat} {k : Sel} (h : waitsOn c t k i = some (.iWait j)) :
    j = i ∧ ∃ head tail n, c.inode i = .pipe head tail n := by
  unfold waitsOn at h
  cases hn : c.getTty t i with
  | some n =>
      rw [hn] at h
      cases k <;> cases h
  | none =>
      rw [hn] at h
      cases hi : c.inode i <;> rw [hi] at h <;> cases h
      exact ⟨rfl, _, _, _, rfl⟩

/-- Who is asleep after a wake-up was before, and no queue of his has been woken. -/
theorem asleep_wakeUp {l : List Addr} {t : Nat} {sets : Sel → FdSet} {table : List Entry}
    (h : (c.wakeUp l).pc t = .asleep sets table false) :
    c.pc t = .asleep sets table false ∧ ∀ e ∈ table, e.addr ∉ l := by
  unfold Config.wakeUp at h
  simp only at h
  cases hp : c.pc t with
  | asleep sets' table' woken =>
      rw [hp] at h
      simp only [Pc.asleep.injEq, Bool.or_eq_false_iff] at h
      obtain ⟨rfl, rfl, rfl, hl⟩ := h
      refine ⟨rfl, fun e he hmem => ?_⟩
      have := List.any_eq_false.mp hl e he
      exact this (List.contains_iff_mem.mpr hmem)
  | _ => rw [hp] at h; cases h

theorem owes_wakeUp (l : List Addr) (u : Nat) (a : Addr) : ((c.wakeUp l).pc u).Owes a ↔ (c.pc u).Owes a := by
  unfold Config.wakeUp
  simp only
  cases c.pc u <;> exact .rfl

theorem asleep_goto {t u : Nat} {q : Pc} {sets : Sel → FdSet} {table : List Entry}
    (h : (c.goto u q).pc t = .asleep sets table false) (hq : ∀ sets table, q ≠ .asleep sets table false) :
    t ≠ u ∧ c.pc t = .asleep sets table false := by
  have h' : (if t = u then q else c.pc t) = .asleep sets table false := h
  split at h'
  · exact absurd h' (hq sets table)
  · rename_i hne
    exact ⟨hne, h'⟩

end

/-! ### Steps -/

section
variable {c c' : Config}

/-- A step that leaves the descriptors of those asleep alone. -/
theorem Alert.move (h : Alert c)
    (hpc : ∀ t sets table, c'.pc t = .asleep sets table false →
      c.pc t = .asleep sets table false ∧ c'.filp t = c.filp t)
    (hfg : c'.fgConsole = c.fgConsole) (htty : ∀ t sets table, c.pc t = .asleep sets table false → c'.tty t = c.tty t)
    (hinode : ∀ t fd i, c.filp t fd = some i → (c.inode i).Same (c'.inode i))
    (hcond : ∀ k a, Fits k a → (∃ t i table, Waits c' t k i table ∧ Waits c t k i table ∧ waitsOn c t k i = some a ∧
      ∃ e ∈ table, e.addr = a) → (cond c k a = true → ∃ u, (c.pc u).Owes a) → cond c' k a = true →
      ∃ u, (c'.pc u).Owes a) : Alert c' := by
  apply h.next hpc
  · rintro t k i table a ⟨sets, fd, ht, -, -, hi⟩ ha
    rw [← waitsOn_congr hfg (htty t sets table ht) (hinode t fd i hi) k]
    exact ha
  · intro t k i table a hw hw' ha hfits hmem
    exact hcond k a hfits ⟨t, i, table, hw', hw, ha, hmem⟩

/-- The condition is as it was, and nobody who owes has stopped. -/
theorem owed_still (c c' : Config) {k : Sel} {a : Addr} (hc : cond c' k a = true → cond c k a = true)
    (howes : ∀ u, (c.pc u).Owes a → ∃ u', (c'.pc u').Owes a) (h : cond c k a = true → ∃ u, (c.pc u).Owes a)
    (hcond : cond c' k a = true) : ∃ u, (c'.pc u).Owes a := by
  obtain ⟨u, hu⟩ := h (hc hcond)
  exact howes u hu

theorem owes_goto {t u : Nat} {q : Pc} {a : Addr} (hq : (c.pc t).Owes a → q.Owes a) (h : (c.pc u).Owes a) :
    ((c.goto t q).pc u).Owes a := by
  show (if u = t then q else c.pc u).Owes a
  split
  · rename_i hut
    exact hq (hut ▸ h)
  · exact h

/-- A step of a task from somewhere to somewhere. -/
theorem Alert.goto (h : Alert c) {t : Nat} {q : Pc} (hq : ∀ sets table, q ≠ .asleep sets table false)
    (howes : ∀ k a, Fits k a → (c.pc t).Owes a → q.Owes a) : Alert (c.goto t q) := by
  apply h.move
  · exact fun x sets table hx => ⟨(asleep_goto hx hq).2, rfl⟩
  · rfl
  · exact fun _ _ _ _ => rfl
  · exact fun _ _ i _ => .refl _
  · intro k a hfits _ howed hc
    exact owed_still c (c.goto t q) id (fun u hu => ⟨u, owes_goto (howes k a hfits) hu⟩) howed hc

/-- Who is on top of a queue is not asked. -/
theorem Alert.top (h : Alert c) (top : Addr → Option Nat) : Alert { c with top } := h

/-- A wake-up. -/
theorem Alert.wakeUp (h : Alert c) (l : List Addr) : Alert (c.wakeUp l) := by
  apply h.move
  · exact fun t sets table ht => ⟨(asleep_wakeUp ht).1, rfl⟩
  · rfl
  · exact fun _ _ _ _ => rfl
  · exact fun _ _ i _ => .refl _
  · intro k a hfits _ howed hc
    exact owed_still c (c.wakeUp l) id (fun u hu => ⟨u, (owes_wakeUp l u a).mpr hu⟩) howed hc

/-- A task falls asleep. -/
theorem Alert.sleep (h : Alert c) {t : Nat} {sets : Sel → FdSet} (ht : c.pc t = .scanning sets)
    (hcount : (scan c t sets).count = 0) (hclear : ClearOut c t sets) :
    Alert ({ c with top := (scan c t sets).wait.1 }.goto t (.asleep sets (scan c t sets).wait.2 false)) := by
  rintro x k i table ⟨sets', fd, hx, hfd, hbit, hi⟩ a ha
  have hx' : (if x = t then Pc.asleep sets (scan c t sets).wait.2 false else c.pc x) = .asleep sets' table false := hx
  by_cases hxt : x = t
  · rw [if_pos hxt] at hx'
    cases hx'
    subst hxt
    have hscan := (scan_scanned c x sets).queued hcount (fd, k) (order_mem hfd k) hbit i hi a ha
    refine ⟨?_, hscan.2, fun hc => absurd (hscan.1.symm.trans hc) Bool.false_ne_true⟩
    have ha' : waitsOn c x k i = some a := ha
    unfold waitsOn at ha'
    cases hn : c.getTty x i with
    | some n =>
        rw [hn] at ha'
        cases k with
        | in_ => cases ha'; trivial
        | out =>
            cases ha'
            exact (hclear fd hfd hbit i hi).2 n hn
        | ex => cases ha'
    | none =>
        rw [hn] at ha'
        cases hp : c.inode i with
        | pipe head tail n =>
            rw [hp] at ha'
            cases ha'
            cases k with
            | in_ => trivial
            | out => exact absurd hp ((hclear fd hfd hbit i hi).1 head tail n)
            | ex => trivial
        | _ => rw [hp] at ha'; cases ha'
  · rw [if_neg hxt] at hx'
    obtain ⟨hfits, hmem, howed⟩ := h x k i table ⟨sets', fd, hx', hfd, hbit, hi⟩ a ha
    refine ⟨hfits, hmem, fun hc => ?_⟩
    obtain ⟨u, hu⟩ := howed hc
    refine ⟨u, owes_goto (c := c) (fun hu => ?_) hu⟩
    rw [ht] at hu
    exact hu

/-- A step that changes the condition of one queue, on which somebody sleeps who has not been woken. -/
theorem Alert.change (h : Alert c) (b : Addr)
    (hpc : ∀ t sets table, c'.pc t = .asleep sets table false →
      c.pc t = .asleep sets table false ∧ c'.filp t = c.filp t)
    (hfg : c'.fgConsole = c.fgConsole) (htty : c'.tty = c.tty)
    (hinode : ∀ t fd i, c.filp t fd = some i → (c.inode i).Same (c'.inode i))
    (hother : ∀ k a, a ≠ b → cond c' k a = cond c k a) (howes : ∀ u a, a ≠ b → (c.pc u).Owes a → (c'.pc u).Owes a)
    (hb : ∀ k, Fits k b → ∀ t i table, Waits c' t k i table → waitsOn c t k i = some b → (∃ e ∈ table, e.addr = b) →
      (cond c k b = true → ∃ u, (c.pc u).Owes b) → cond c' k b = true → ∃ u, (c'.pc u).Owes b) : Alert c' := by
  apply h.move hpc hfg (fun t _ _ _ => by rw [htty]) hinode
  rintro k a hfits ⟨t, i, table, hw', -, ha, hmem⟩ howed hc
  by_cases hab : a = b
  · subst hab
    exact hb k hfits t i table hw' ha hmem howed hc
  · exact owed_still c c' (fun hc => hother k a hab ▸ hc) (fun u hu => ⟨u, howes u a hab hu⟩) howed hc

/-! ### Pipes -/

theorem cond_setInode {i : Nat} {v : Inode} {k : Sel} {a : Addr} (ha : a ≠ .iWait i) :
    cond (c.setInode i v) k a = cond c k a := by
  cases a with
  | proc q => rfl
  | iWait j =>
      have hj : j ≠ i := fun hj => ha (hj ▸ rfl)
      exact congrArg (pipeReady k) (if_neg hj)
  | iWait2 j => rfl

theorem inode_setInode (c : Config) (i : Nat) (v : Inode) : (c.setInode i v).inode i = v := if_pos rfl

/-- A pipe stays a pipe. -/
theorem same_setInode {i n m : Nat} {head tail head' tail' : Fin PAGE_SIZE} (hi : c.inode i = .pipe head tail n)
    (j : Nat) : (c.inode j).Same ((c.setInode i (.pipe head' tail' m)).inode j) := by
  show (c.inode j).Same (if j = i then .pipe head' tail' m else c.inode j)
  split
  · rename_i hj
    rw [hj, hi]
    trivial
  · exact .refl _

/-- `pipe_read` takes some bytes. -/
theorem Alert.readTake (h : Alert c) {i n : Nat} {head tail : Fin PAGE_SIZE} (hi : c.inode i = .pipe head tail n)
    (hsize : pipeSize head tail ≠ 0) (tail' : Fin PAGE_SIZE) : Alert (c.setInode i (.pipe head tail' n)) := by
  refine h.change (.iWait i) (fun _ _ _ ht => ⟨ht, rfl⟩) rfl rfl (fun _ _ j _ => same_setInode hi j)
    (fun _ _ ha => cond_setInode ha) (fun _ _ _ hu => hu) ?_
  intro k hfits t j table _ _ _ howed hc
  refine owed_still c (c.setInode i (.pipe head tail' n)) (fun hc => ?_) (fun u hu => ⟨u, hu⟩) howed hc
  simp only [cond, inode_setInode] at hc
  simp only [cond, hi]
  cases k with
  | in_ =>
      -- there was something to read before
      have hne : pipeEmpty head tail = false := by
        rw [pipeEmpty, beq_eq_false_iff_ne]
        rintro rfl
        simp [pipeSize] at hsize
      simp [pipeReady, hne]
  | out => exact hfits.elim
  | ex => exact hc

/-- `pipe_write` puts some bytes in, and is not done yet. -/
theorem Alert.writeTake (h : Alert c) {u i n : Nat} {head tail : Fin PAGE_SIZE}
    (hu : c.pc u = .run ∨ c.pc u = .pipeWrite i) (hi : c.inode i = .pipe head tail n) (head' : Fin PAGE_SIZE) :
    Alert ((c.setInode i (.pipe head' tail n)).goto u (.pipeWrite i)) := by
  have hgoto : ∀ t sets table, ((c.setInode i (.pipe head' tail n)).goto u (.pipeWrite i)).pc t =
      .asleep sets table false → c.pc t = .asleep sets table false :=
    fun t sets table ht => (asleep_goto ht (by simp)).2
  refine h.change (.iWait i) (fun t sets table ht => ⟨hgoto t sets table ht, rfl⟩) rfl rfl
    (fun _ _ j _ => same_setInode hi j)
    (fun k a ha => (cond_setInode ha : cond (c.setInode i (.pipe head' tail n)) k a = cond c k a)) ?_ ?_
  · intro x a ha hx
    refine owes_goto (c := c) (fun hx => ?_) hx
    rcases hu with hu | hu <;> rw [hu] at hx
    · exact hx.elim
    · exact absurd hx ha
  · intro k _ t j table _ _ _ _ _
    refine ⟨u, ?_⟩
    have hpc : ((c.setInode i (.pipe head' tail n)).goto u (.pipeWrite i)).pc u = .pipeWrite i := if_pos rfl
    rw [hpc]
    rfl

/-- A step that ends with a wake-up on the queue that it has changed. -/
theorem Alert.paid (h : Alert c) (b : Addr) (l : List Addr) (hl : b ∈ l)
    (hpc : ∀ t sets table, c'.pc t = .asleep sets table false →
      c.pc t = .asleep sets table false ∧ c'.filp t = c.filp t)
    (hfg : c'.fgConsole = c.fgConsole) (htty : c'.tty = c.tty)
    (hinode : ∀ t fd i, c.filp t fd = some i → (c.inode i).Same (c'.inode i))
    (hother : ∀ k a, a ≠ b → cond c' k a = cond c k a)
    (howes : ∀ u a, a ≠ b → (c.pc u).Owes a → (c'.pc u).Owes a) : Alert (c'.wakeUp l) := by
  apply h.change b
  · intro t sets table ht
    exact hpc t sets table (asleep_wakeUp ht).1
  · exact hfg
  · exact htty
  · exact hinode
  · exact hother
  · exact fun u a ha hu => (owes_wakeUp l u a).mpr (howes u a ha hu)
  · rintro k - t i table ⟨sets, fd, ht, -⟩ - ⟨e, he, rfl⟩ - -
    exact absurd hl ((asleep_wakeUp ht).2 e he)

/-- A task pays what it owes. -/
theorem Alert.pay (h : Alert c) {u : Nat} (b : Addr) (hu : ∀ a, (c.pc u).Owes a → a = b) :
    Alert ((c.goto u .run).wakeUp [b]) := by
  apply h.paid b [b] List.mem_cons_self
  · exact fun t sets table ht => ⟨(asleep_goto ht (by simp)).2, rfl⟩
  · rfl
  · rfl
  · exact fun _ _ j _ => .refl _
  · exact fun _ _ _ => rfl
  · exact fun x a ha hx => owes_goto (c := c) (fun hx => absurd (hu a hx) ha) hx

/-- One end of a pipe is closed. -/
theorem Alert.close (h : Alert c) {i n m : Nat} {head tail : Fin PAGE_SIZE} (hi : c.inode i = .pipe head tail n) :
    Alert ((c.setInode i (.pipe head tail m)).wakeUp [.iWait i, .iWait2 i]) :=
  h.paid (.iWait i) _ List.mem_cons_self (fun _ _ _ ht => ⟨ht, rfl⟩) rfl rfl (fun _ _ j _ => same_setInode hi j)
    (fun _ _ ha => cond_setInode ha) fun _ _ _ hu => hu

/-! ### Terminals -/

theorem cond_setQueue {b : Queue} {v : TtyQueue} {k : Sel} {a : Addr} (ha : a ≠ .proc b) :
    cond { c with ttys := c.ttys.setQueue b v } k a = cond c k a := by
  cases a with
  | proc q =>
      have hq : q ≠ b := fun hq => ha (hq ▸ rfl)
      have hqueue : (c.ttys.setQueue b v).queue q = c.ttys.queue q := if_neg hq
      cases q <;> simp only [cond, Ttys.ready, hqueue]
  | iWait i => rfl
  | iWait2 i => rfl

/-- A queue changes that is not ready afterwards, or was before. -/
theorem Alert.setQueue (h : Alert c) (b : Queue) (v : TtyQueue)
    (hb : ∀ k, Fits k (.proc b) → (c.ttys.setQueue b v).ready b = true → c.ttys.ready b = true) :
    Alert { c with ttys := c.ttys.setQueue b v } := by
  refine h.change (.proc b) (fun _ _ _ ht => ⟨ht, rfl⟩) rfl rfl (fun _ _ _ _ => .refl _)
    (fun _ _ ha => cond_setQueue ha) (fun _ _ _ hu => hu) ?_
  intro k hfits _ _ _ _ _ _ howed hc
  exact howed (hb k hfits hc)

/-- `tty_write` puts a character in, and is not done yet. -/
theorem Alert.put (h : Alert c) {u n : Nat} (hu : c.pc u = .run ∨ c.pc u = .ttyWrite n) (v : TtyQueue) :
    Alert ({ c with ttys := c.ttys.setQueue (.writeQ n) v }.goto u (.ttyWrite n)) := by
  have hgoto : ∀ t sets table, ({ c with ttys := c.ttys.setQueue (.writeQ n) v }.goto u (.ttyWrite n) : Config).pc t =
      .asleep sets table false → c.pc t = .asleep sets table false :=
    fun t sets table ht => (asleep_goto ht (by simp)).2
  refine h.change (.proc (.writeQ n)) (fun t sets table ht => ⟨hgoto t sets table ht, rfl⟩) rfl rfl
    (fun _ _ _ _ => .refl _)
    (fun k a ha => (cond_setQueue ha : cond { c with ttys := c.ttys.setQueue (.writeQ n) v } k a = cond c k a)) ?_ ?_
  · intro x a ha hx
    refine owes_goto (c := c) (fun hx => ?_) hx
    rcases hu with hu | hu <;> rw [hu] at hx
    · exact hx.elim
    · exact absurd hx ha
  · intro k _ t j table _ _ _ _ _
    refine ⟨u, ?_⟩
    have hpc : ({ c with ttys := c.ttys.setQueue (.writeQ n) v }.goto u (.ttyWrite n) : Config).pc u = .ttyWrite n :=
      if_pos rfl
    rw [hpc]
    rfl

theorem not_serial {k : Sel} {q : Queue} (h : Fits k (.proc q)) : ¬ q.serial := by
  cases q with
  | readQ n => exact id
  | secondary n => exact id
  | writeQ n =>
      cases k with
      | out => exact h
      | in_ => exact h.elim
      | ex => exact h.elim

/-- A call of a terminal by `u`, who owes a wake-up on `b` at most. What was ready before is in `R`. -/
theorem Alert.calls (h : Alert c) {u : Nat} {b : Queue} (hu : ∀ a, (c.pc u).Owes a → a = .proc b) {s : Ttys}
    (hs : Tells (fun q => c.ttys.ready q = true ∧ q ≠ b) [] s) : Alert ((c.goto u .run).calls s) := by
  apply h.move
  · intro t sets table ht
    exact ⟨(asleep_goto (asleep_wakeUp ht).1 (by simp)).2, rfl⟩
  · rfl
  · exact fun _ _ _ _ => rfl
  · exact fun _ _ _ _ => .refl _
  · rintro k a hfits ⟨t, i, table, ⟨sets, fd, ht, -⟩, -, -, e, he, rfl⟩ howed hc
    have hkeep : ∀ x, e.addr ≠ .proc b → (c.pc x).Owes e.addr → ((c.goto u .run).pc x).Owes e.addr :=
      fun x hne hx => owes_goto (c := c) (fun hx => absurd (hu _ hx) hne) hx
    have howed' : (cond c k e.addr = true ∧ e.addr ≠ .proc b) → ∃ x, (((c.goto u .run).calls s).pc x).Owes e.addr := by
      rintro ⟨hc, hne⟩
      obtain ⟨x, hx⟩ := howed hc
      exact ⟨x, (owes_wakeUp _ x _).mpr (hkeep x hne hx)⟩
    apply howed'
    cases ha : e.addr with
    | proc q =>
        rw [ha] at hfits hc
        rcases hs.told q hc (not_serial hfits) with ⟨hready, hne⟩ | hwoken
        · refine ⟨hready, fun heq => hne ?_⟩
          cases heq
          rfl
        · have hmem : e.addr ∈ s.woken.map Addr.proc := by
            rw [ha]
            exact List.mem_map.mpr ⟨q, hwoken, rfl⟩
          exact absurd hmem ((asleep_wakeUp ht).2 e he)
    | iWait j =>
        rw [ha] at hc
        exact ⟨hc, by simp⟩
    | iWait2 j =>
        rw [ha] at hc
        exact ⟨hc, by simp⟩

/-- So does a call that an interrupt makes. -/
theorem Alert.interrupt (h : Alert c) {s : Ttys} (hs : Tells (fun q => c.ttys.ready q = true) [] s) :
    Alert (c.calls s) := by
  apply h.move
  · intro t sets table ht
    exact ⟨(asleep_wakeUp ht).1, rfl⟩
  · rfl
  · exact fun _ _ _ _ => rfl
  · exact fun _ _ _ _ => .refl _
  · rintro k a hfits ⟨t, i, table, ⟨sets, fd, ht, -⟩, -, -, e, he, rfl⟩ howed hc
    refine owed_still c (c.calls s) (fun hc => ?_) (fun x hx => ⟨x, (owes_wakeUp _ x _).mpr hx⟩) howed hc
    cases ha : e.addr with
    | proc q =>
        rw [ha] at hfits hc
        rcases hs.told q hc (not_serial hfits) with hready | hwoken
        · exact hready
        · have hmem : e.addr ∈ s.woken.map Addr.proc := by
            rw [ha]
            exact List.mem_map.mpr ⟨q, hwoken, rfl⟩
          exact absurd hmem ((asleep_wakeUp ht).2 e he)
    | iWait j =>
        rw [ha] at hc
        exact hc
    | iWait2 j =>
        rw [ha] at hc
        exact hc

/-- A queue is emptied, with a wake-up. -/
theorem Alert.flush (h : Alert c) (q : Queue) (v : TtyQueue) :
    Alert ({ c with ttys := c.ttys.setQueue q v }.wakeUp [.proc q]) :=
  h.paid (.proc q) _ List.mem_cons_self (fun _ _ _ ht => ⟨ht, rfl⟩) rfl rfl (fun _ _ _ _ => .refl _)
    (fun _ _ ha => cond_setQueue ha) fun _ _ _ hu => hu

/-- Another console comes to the foreground. -/
theorem Alert.changeConsole (h : Alert c) (n : Nat) (hclear : ∀ t, ¬ WaitsForConsole c t) :
    Alert { c with fgConsole := n } := by
  refine h.next (fun _ _ _ ht => ⟨ht, rfl⟩) ?_ ?_
  · rintro t k i table a ⟨sets, fd, ht, -, -, hi⟩ ha
    have hminor : c.minor t i ≠ some 0 := fun hm => hclear t ⟨⟨sets, table, false, ht⟩, fd, i, hi, hm⟩
    rw [← ha]
    have htty : ({ c with fgConsole := n } : Config).getTty t i = c.getTty t i := by
      show (c.minor t i).map _ = (c.minor t i).map _
      cases hm : c.minor t i with
      | none => rfl
      | some m =>
          have hne : m ≠ 0 := fun hz => hminor (hz ▸ hm)
          simp [Config.ttyTable, hne]
    unfold waitsOn
    rw [htty]
  · exact fun _ _ _ _ _ _ _ _ _ _ howed hc => howed hc

/-- A task loses its controlling terminal. -/
theorem Alert.hangUp (h : Alert c) (t : Nat) :
    Alert { c with tty := fun x => if x = t then none else c.tty x } := by
  refine h.next (fun _ _ _ ht => ⟨ht, rfl⟩) ?_ ?_
  · intro x k i table a _ ha
    -- a character device has no terminal then, or the same
    have hkept : ({ c with tty := fun x => if x = t then none else c.tty x } : Config).getTty x i = c.getTty x i ∨
        ({ c with tty := fun x => if x = t then none else c.tty x } : Config).getTty x i = none ∧
          ∃ major minor, c.inode i = .chr major minor := by
      unfold Config.getTty Config.minor
      cases hi : c.inode i with
      | chr major minor =>
          simp only
          by_cases hfive : major = 5
          · by_cases hxt : x = t
            · exact .inr ⟨by simp [hfive, hxt], major, minor, rfl⟩
            · exact .inl (by simp only [if_pos hfive, if_neg hxt]; rfl)
          · exact .inl (by simp [hfive, Config.ttyTable])
      | _ => exact .inl rfl
    unfold waitsOn at ha ⊢
    rcases hkept with hkept | ⟨hkept, major, minor, hi⟩
    · rw [hkept] at ha
      exact ha
    · have hi' : ({ c with tty := fun x => if x = t then none else c.tty x } : Config).inode i = .chr major minor := hi
      rw [hkept, hi'] at ha
      cases ha
  · exact fun _ _ _ _ _ _ _ _ _ _ howed hc => howed hc

/-- An inode that no task has open becomes another one. -/
theorem Alert.newInode (h : Alert c) {i : Nat} (v : Inode) (hi : ∀ t fd, c.filp t fd ≠ some i) :
    Alert (c.setInode i v) := by
  refine h.change (.iWait i) (fun _ _ _ ht => ⟨ht, rfl⟩) rfl rfl (fun t fd j hj => ?_)
    (fun _ _ ha => cond_setInode ha) (fun _ _ _ hu => hu) ?_
  · have hne : j ≠ i := fun hji => hi t fd (hji ▸ hj)
    show (c.inode j).Same (if j = i then v else c.inode j)
    rw [if_neg hne]
    exact .refl _
  · rintro k - t j table ⟨sets, fd, -, -, -, hj⟩ ha - - -
    have hij := (waitsOn_iWait ha).1
    exact absurd (hij ▸ hj) (hi t fd)

/-- **One step** keeps the invariant. -/
theorem Alert.step (h : Alert c) (hs : Step True c c') : Alert c' := by
  cases hs with
  | @call t sets ht _ =>
      apply h.goto (by simp)
      intro _ _ _ ho
      rw [ht] at ho
      exact ho
  | sleep ht hcount hclear => exact h.sleep ht hcount (hclear trivial)
  | @found t sets ht =>
      apply (h.top _).goto (by simp)
      intro _ _ _ ho
      have ho : (c.pc t).Owes _ := ho
      rw [ht] at ho
      exact ho
  | @resume t sets table woken ht =>
      apply h.goto (by simp)
      intro _ _ _ ho
      rw [ht] at ho
      exact ho
  | @free t again e table ht _ =>
      apply (h.top _).goto (by simp)
      intro _ _ _ ho
      have ho : (c.pc t).Owes _ := ho
      rw [ht] at ho
      exact ho
  | @freed t again ht =>
      apply h.goto
      · cases again <;> simp
      · intro _ _ _ ho
        rw [ht] at ho
        exact ho.elim
  | sleepOn a t => exact h.top _
  | @readTake u i n head tail _ hu hi _ hsize =>
      refine (h.readTake hi hsize _).goto (by simp) fun k a hfits ho => ?_
      have ho : (c.pc u).Owes a := ho
      rcases hu with hu | hu <;> rw [hu] at ho
      · exact ho.elim
      · exact ho
  | @readWake u i hu =>
      apply h.pay
      intro a ho
      rcases hu with hu | hu <;> rw [hu] at ho
      · exact ho.elim
      · exact ho
  | writeTake _ hu hi _ _ => exact h.writeTake hu hi _
  | @writeWake u i hu =>
      apply h.pay
      intro a ho
      rcases hu with hu | hu <;> rw [hu] at ho
      · exact ho.elim
      · exact ho
  | close hi => exact h.close hi
  | put b hu => exact h.put hu _
  | @write u n k signal s hu hs =>
      apply h.calls (b := .writeQ n)
      · intro a ho
        rcases hu with hu | hu <;> rw [hu] at ho
        · exact ho.elim
        · exact ho
      · refine (written_pays k n _ [] _ ⟨fun q hq _ => .inl ?_, by simp⟩).ok_of hs
        by_cases hqn : q = .writeQ n
        · exact .inr hqn
        · exact .inl ⟨hq, hqn⟩
  | @cook n k signal s hs =>
      have hstart : Tells (fun q => c.ttys.ready q = true) [] { c.ttys with woken := [], signal } :=
        ⟨fun q hq _ => .inl hq, by simp⟩
      exact h.interrupt ((cooked_keeps k n _ [] _ hstart).ok_of hs)
  | @get n hn =>
      apply Alert.wakeUp
      apply h.setQueue
      intro _ _ _
      simp [Ttys.ready, hn]
  | receive n b => exact h.setQueue _ _ fun _ _ hr => hr
  | flush q => exact h.flush q _
  | @transmit n hn =>
      apply Alert.wakeUp
      apply h.setQueue
      intro k hfits
      cases k with
      | out => exact absurd hn hfits
      | in_ => exact hfits.elim
      | ex => exact hfits.elim
  | xonc n b hclear =>
      apply h.setQueue
      intro _ _ _
      simp [Ttys.ready, hclear trivial]
  | tcset => exact h
  | changeConsole n hclear => exact h.changeConsole n (hclear trivial)
  | @die u hu =>
      obtain ⟨i, hu⟩ := hu.resolve_right fun hn => hn.1 trivial
      refine h.goto (by simp) fun k a hfits ho => ?_
      rw [hu] at ho
      have ha : a = .iWait2 i := ho
      rw [ha] at hfits
      cases k <;> exact hfits.elim
  | @openFd t fd i ht =>
      apply h.move
      · intro x sets table hx
        refine ⟨hx, ?_⟩
        have hne : x ≠ t := by
          rintro rfl
          have hx : c.pc x = .asleep sets table false := hx
          rw [ht] at hx
          cases hx
        funext y
        exact if_neg fun hc => hne hc.1
      · rfl
      · exact fun _ _ _ _ => rfl
      · exact fun _ _ _ _ => .refl _
      · exact fun _ _ _ _ howed hc => howed hc
  | newInode v hi => exact h.newInode v hi
  | @setTty t v ht =>
      rcases ht with ht | rfl
      · refine h.move (fun _ _ _ hx => ⟨hx, rfl⟩) rfl ?_ ?_ ?_
        · intro x sets table hx
          refine if_neg ?_
          rintro rfl
          rw [ht] at hx
          cases hx
        · exact fun _ _ _ _ => .refl _
        · exact fun _ _ _ _ howed hc => howed hc
      · exact h.hangUp t

end

/-- **Select loses no wake-up**, in a run that is clear. -/
theorem select_heard {c₀ c : Config} (h : ∀ t, c₀.pc t = .run) (hr : ReflTransGen (Step True) c₀ c) : Heard c := by
  have hrun : Alert c := by
    induction hr with
    | refl =>
        rintro t k i table ⟨sets, fd, ht, -⟩
        rw [h t] at ht
        cases ht
    | tail _ hs ih => exact ih.step hs
  exact hrun.heard

/-! ## A pipe that is full -/

/-- Tasks 0 and 1 have both ends of a pipe open, the inode 0; nothing is in it. -/
def piped : Config where
  ttys :=
    { termios := fun _ => DEF_TERMIOS, stopped := fun _ => false, vc := fun _ => ⟨.normal, 0⟩
      queue := fun _ => TtyQueue.init, signal := false, woken := [] }
  fgConsole := 0
  inode := fun i => if i = 0 then .pipe 0 0 2 else .other
  filp := fun t fd => if t < 2 ∧ fd < 2 then some 0 else none
  tty := fun _ => none
  top := fun _ => none
  pc := fun _ => .run

/-- Descriptor `fd` alone, in the set `k`. -/
def only (k : Sel) (fd : Nat) : Sel → FdSet := fun x => if x = k then BitVec.twoPow 32 fd else 0

theorem only_valid {c : Config} {k : Sel} {fd i : Nat} {t : Nat} (hi : c.filp t fd = some i)
    (hp : c.inode i ≠ .other) : valid c t (only k fd) := by
  rintro x hx ⟨k', hbit⟩
  have hxfd : x = fd := by
    unfold only at hbit
    split at hbit
    · simp only [BitVec.getLsbD_twoPow] at hbit
      simp at hbit
      omega
    · simp at hbit
  rw [hxfd]
  exact ⟨i, hi, hp⟩

/-- A run in which task 0 waits for input, and task 1 writes. -/
theorem select_heard_input : ∃ c, ReflTransGen (Step True) piped c ∧ Heard c := by
  have hcall : Step True piped (piped.goto 0 (.scanning (only .in_ 0))) :=
    .call _ rfl (only_valid rfl (by simp [piped]))
  have hrun := ReflTransGen.single hcall |>.tail (.sleep (t := 0) rfl rfl fun _ fd _ hbit => by simp [only] at hbit)
  exact ⟨_, hrun, select_heard (fun _ => rfl) hrun⟩

/-- **A wake-up that is lost.** Task 0 fills the pipe and waits for room; task 1 reads, and wakes up those that sleep in
`pipe_write`. -/
theorem pipe_unheard : ∃ c₀ c, (∀ t, c₀.pc t = .run) ∧ ReflTransGen (Step False) c₀ c ∧ ¬ Heard c := by
  have hfill : Step False piped _ := .writeTake (u := 0) (i := 0) 4095 (.inl rfl) rfl (by decide) (by decide)
  have hrun := ReflTransGen.single hfill
    |>.tail (.writeWake (u := 0) (i := 0) (.inr rfl))
    |>.tail (.call (t := 0) (only .out 1) rfl (only_valid rfl (by intro h; cases h)))
    |>.tail (.sleep (t := 0) rfl rfl False.elim)
    |>.tail (.readTake (u := 1) (i := 0) 1 (.inl rfl) rfl (by decide) (by decide))
    |>.tail (.readWake (u := 1) (i := 0) (.inr rfl))
  refine ⟨piped, _, fun _ => rfl, hrun, fun h => ?_⟩
  obtain ⟨a, u, ha, hu⟩ := h.told 0 .out 0 _ ⟨only .out 1, 1, rfl, by decide, by decide, rfl⟩ (fun _ => none, []) rfl
  -- nobody is in the middle of a call
  rcases u with _ | _ | u
  · exact hu
  · exact hu
  · exact hu

end Select
end Fs
end Linux095
