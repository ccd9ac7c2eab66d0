import Linux095.Fs.Pipe
import Linux095.Seq.Relate

/-!
# `Fs.NewPipe` — what a new pipe inherits (`fs/pipe.c`, `read_write.c`, `open.c`)

`sys_pipe` takes two entries of the file table that nobody uses, and sets their mode, position and inode. The flags
and the operations of their last use stay.

* `step` — one step of a call on the descriptors of a pipe, by any process that has them;
* `Same` — what two states have to share for these calls: of the flags only `O_NONBLOCK` of the reading end;
* `alike_step` — such states stay so, and every call answers the same in both;
* `new_pipe_forgets` — **a new pipe has no memory of earlier files exactly when `O_NONBLOCK` is not set in the entry
  of its reading end.**

Processes take turns after every byte, which allows more runs than the kernel has.
-/

namespace Linux095
namespace Fs
namespace NewPipe

open Seq
open Pipe (Byte PAGE_SIZE)

def NR_OPEN : Nat := 20
def NR_FILE : Nat := 64
def O_NONBLOCK : BitVec 16 := 0o4000
def EINTR : Int := 4
def EBADF : Int := 9
def EINVAL : Int := 22
def EMFILE : Int := 24
def ERESTARTSYS : Int := 512
def SIGPIPE : Nat := 13

/-- What `f_op` can point to. -/
inductive FileOperations where
  | minixFileOperations

/-- `struct file`. -/
structure File where
  fMode : BitVec 16
  fFlags : BitVec 16
  fCount : BitVec 16
  fInode : Option Nat
  fOp : Option FileOperations
  fPos : Int

/-- What a pipe uses of `struct inode`. -/
structure PipeInode where
  iCount : BitVec 16
  iPipe : Bool
  head : Nat
  tail : Nat
  page : Nat → Byte

/-- `PIPE_SIZE`. -/
def PipeInode.size (q : PipeInode) : Nat := (q.head + PAGE_SIZE - q.tail) % PAGE_SIZE

/-- The call a process is in, with the inode it is about. `buf` is what `pipe_write` copies from. -/
inductive Doing where
  /-- None. -/
  | idle
  /-- `while (!PIPE_SIZE(*inode))` of `pipe_read`. -/
  | readWait (i count : Nat)
  /-- `while (count>0 && (size = PIPE_SIZE(*inode)))`. -/
  | readLoop (i count read : Nat)
  /-- `while (chars-->0) put_fs_byte(..)`. -/
  | readCopy (i chars size count read : Nat)
  /-- `while (count>0)` of `pipe_write`. -/
  | writeLoop (i : Nat) (buf : Nat → Byte) (count written : Nat)
  /-- `while (chars-->0) .. = get_fs_byte(..)`. -/
  | writeCopy (i : Nat) (buf : Nat → Byte) (chars size count written : Nat)

def Doing.isIdle : Doing → Bool
  | idle => true
  | _ => false

structure Task where
  filp : Nat → Option Nat
  signal : BitVec 32
  blocked : BitVec 32
  doing : Doing

/-- `current->signal & ~current->blocked`. -/
def Task.signalled (t : Task) : Bool := t.signal &&& ~~~t.blocked != 0

/-- The tables. `spare` is the inode that `get_pipe_inode` finds, if there is a page for it too. -/
structure State where
  fileTable : Nat → File
  task : Nat → Option Task
  inode : Nat → PipeInode
  spare : Option Nat

namespace State

/-- The process is in no call. -/
def idle (s : State) (p : Nat) : Bool := (s.task p).any (·.doing.isIdle)

def doing (s : State) (p : Nat) : Option Doing := (s.task p).map (·.doing)

/-- `current->filp[fd]`. -/
def fileOf (s : State) (p fd : Nat) : Option Nat := if fd < NR_OPEN then (s.task p).bind (·.filp fd) else none

def setFile (s : State) (f : Nat) (x : File → File) : State :=
  { s with fileTable := fun g => if g = f then x (s.fileTable g) else s.fileTable g }

def setInode (s : State) (i : Nat) (x : PipeInode → PipeInode) : State :=
  { s with inode := fun j => if j = i then x (s.inode j) else s.inode j }

def setTask (s : State) (p : Nat) (x : Task → Task) : State :=
  { s with task := fun q => if q = p then (s.task q).map x else s.task q }

def setFilp (s : State) (p fd : Nat) (f : Option Nat) : State :=
  s.setTask p fun t => { t with filp := fun d => if d = fd then f else t.filp d }

def setDoing (s : State) (p : Nat) (d : Doing) : State := s.setTask p fun t => { t with doing := d }

end State

/-- How the kernel stops. -/
inductive Halt where
  | panic

abbrev Call (α : Type) : Type := Prog State Halt α

/-- What is seen of a step. -/
inductive Answer where
  /-- Not a step of these calls: another file, no such process, or one in the middle of a call. -/
  | refused
  /-- The call goes on. -/
  | going
  /-- `interruptible_sleep_on`. -/
  | asleep
  /-- `put_fs_byte`. -/
  | stored (b : Byte)
  | returned (v : Int)
  deriving DecidableEq

/-! ## `sys_pipe` -/

/-- The two entries of the file table and the two descriptors. -/
structure Ends where
  f0 : Nat
  f1 : Nat
  fd0 : Nat
  fd1 : Nat

/-- The entry is one of the pipe's. -/
def Ends.Has (e : Ends) (f : Nat) : Prop := f = e.f0 ∨ f = e.f1

instance (e : Ends) (f : Nat) : Decidable (e.Has f) := inferInstanceAs (Decidable (_ ∨ _))

/-- The entries with `f_count` 0, in the order of the table. -/
def State.freeFiles (s : State) : List Nat := (List.range NR_FILE).filter fun f => (s.fileTable f).fCount == 0

def State.freeFds (s : State) (p : Nat) : List Nat := (List.range NR_OPEN).filter fun fd => (s.fileOf p fd).isNone

/-- `get_pipe_inode`. -/
def newInode (q : PipeInode) : PipeInode :=
  { q with
    iCount := 2
    iPipe := true
    head := 0
    tail := 0
    page := fun _ => 0 }

/-- What `sys_pipe` sets of an entry. -/
def pipeFile (i : Nat) (mode : BitVec 16) (f : File) : File :=
  { f with
    fCount := f.fCount + 1
    fInode := some i
    fPos := 0
    fMode := mode }

/-- `sys_pipe`, once it has found all it needs. -/
def install (p i : Nat) (e : Ends) (s : State) : State :=
  ((((s.setFile e.f0 (pipeFile i 1)).setFile e.f1 (pipeFile i 2)).setFilp p e.fd0 (some e.f0)).setFilp p e.fd1
    (some e.f1)).setInode i newInode

/-- `sys_pipe`; without a result it returns -1. -/
def sysPipe (p : Nat) (s : State) : Option (Ends × State) :=
  if s.idle p then
    match s.freeFiles, s.freeFds p, s.spare with
    | f0 :: f1 :: _, fd0 :: fd1 :: _, some i => some (⟨f0, f1, fd0, fd1⟩, install p i ⟨f0, f1, fd0, fd1⟩ s)
    | _, _, _ => none
  else none

/-! ## `pipe_read` and `pipe_write` -/

def doing (p : Nat) (d : Doing) : Call Answer := do
  .modify fun s => s.setDoing p d
  return .going

/-- The process is back from its call. -/
def return_ (p : Nat) (v : Int) : Call Answer := do
  .modify fun s => s.setDoing p .idle
  return .returned v

def signalled (p : Nat) : Call Bool := .reads fun s => (s.task p).any (·.signalled)

/-- The start of `pipe_read`. -/
def pipeRead (i f p count : Nat) : Call Answer := do
  if ← .reads (fun s => (s.fileTable f).fFlags &&& O_NONBLOCK == 0) then doing p (.readWait i count)
  else doing p (.readLoop i count 0)

/-- `while (!PIPE_SIZE(*inode))`. -/
def readWait (p i count : Nat) : Call Answer := do
  if ← .reads (fun s => (s.inode i).size == 0) then
    if ← .reads (fun s => (s.inode i).iCount != 2) then return_ p 0
    else if ← signalled p then return_ p (-ERESTARTSYS)
    else return .asleep
  else doing p (.readLoop i count 0)

/-- `while (count>0 && (size = PIPE_SIZE(*inode)))`. -/
def readLoop (p i count read : Nat) : Call Answer := do
  let q ← .reads (·.inode i)
  if 0 < count ∧ q.size ≠ 0 then
    let chars := min (min (PAGE_SIZE - q.tail) count) q.size
    .modify fun s => s.setInode i fun q => { q with tail := (q.tail + chars) % PAGE_SIZE }
    doing p (.readCopy i chars q.tail (count - chars) (read + chars))
  else return_ p read

def readCopy (p i chars size count read : Nat) : Call Answer := do
  if chars = 0 then doing p (.readLoop i count read)
  else
    let b ← .reads fun s => (s.inode i).page size
    .modify fun s => s.setDoing p (.readCopy i (chars - 1) (size + 1) count read)
    return .stored b

/-- `return written?written:-EINTR`. -/
def writeStops (p written : Nat) : Call Answer := return_ p (if written = 0 then -EINTR else written)

/-- `while (count>0)`, and in it the wait for space. -/
def writeLoop (p i : Nat) (buf : Nat → Byte) (count written : Nat) : Call Answer := do
  let q ← .reads (·.inode i)
  let size := PAGE_SIZE - 1 - q.size
  if count = 0 then return_ p written
  else if size = 0 then
    if q.iCount != 2 then
      .modify fun s => s.setTask p fun t => { t with signal := t.signal ||| 1 <<< (SIGPIPE - 1) }
      writeStops p written
    else if ← signalled p then writeStops p written
    else return .asleep
  else
    let chars := min (min (PAGE_SIZE - q.head) count) size
    .modify fun s => s.setInode i fun q => { q with head := (q.head + chars) % PAGE_SIZE }
    doing p (.writeCopy i buf chars q.head (count - chars) (written + chars))

def writeCopy (p i : Nat) (buf : Nat → Byte) (chars size count written : Nat) : Call Answer := do
  if chars = 0 then doing p (.writeLoop i buf count written)
  else
    .modify fun s => s.setInode i fun q =>
      { q with page := fun x => if x = size then buf (written - chars) else q.page x }
    doing p (.writeCopy i buf (chars - 1) (size + 1) count written)

/-- The process goes on with its call. -/
def goOn (p : Nat) : Call Answer := do
  match ← .reads (State.doing · p) with
  | none => return .refused
  | some .idle => return .refused
  | some (.readWait i count) => readWait p i count
  | some (.readLoop i count read) => readLoop p i count read
  | some (.readCopy i chars size count read) => readCopy p i chars size count read
  | some (.writeLoop i buf count written) => writeLoop p i buf count written
  | some (.writeCopy i buf chars size count written) => writeCopy p i buf chars size count written

/-! ## System calls -/

/-- A handler of a `struct file_operations`, for a process, an inode and a file. -/
abbrev Handler : Type := Nat → Nat → Nat → Call Answer

/-- The handler that `file->f_op` has for reading, and the one for writing: `minix_file_operations` has `NULL`. -/
def FileOperations.read : FileOperations → Option Handler
  | minixFileOperations => none

def FileOperations.write : FileOperations → Option Handler
  | minixFileOperations => none

/-- `sys_read` and `sys_write`, which differ in the bit of the mode, the handler and the function for pipes. -/
def transfer (e : Ends) (p fd : Nat) (bit : BitVec 16) (count : BitVec 32) (handler : FileOperations → Option Handler)
    (pipe : Nat → Nat → Call Answer) : Call Answer := do
  match ← .reads (·.fileOf p fd) with
  | none => return .returned (-EBADF)
  | some f =>
      if ¬ e.Has f then return .refused
      else
        match ← .reads (fun s => (s.fileTable f).fInode) with
        | none => return .returned (-EBADF)
        | some i =>
            if ← .reads (fun s => (s.fileTable f).fMode &&& bit == 0) then return .returned (-EBADF)
            else if count = 0 then return .returned 0
            else
              match ← .reads (fun s => (s.fileTable f).fOp.bind handler) with
              | some h => h p i f
              | none => if ← .reads (fun s => (s.inode i).iPipe) then pipe i f else return .refused

def sysRead (e : Ends) (p fd : Nat) (count : BitVec 32) : Call Answer :=
  transfer e p fd 1 count FileOperations.read fun i f => pipeRead i f p count.toInt.toNat

def sysWrite (e : Ends) (p fd : Nat) (buf : Nat → Byte) (count : BitVec 32) : Call Answer :=
  transfer e p fd 2 count FileOperations.write fun i _ => doing p (.writeLoop i buf count.toInt.toNat 0)

/-- `iput` of a pipe, or of an inode without a device. -/
def iput (i : Nat) : Call Unit := do
  if ← .reads (fun s => (s.inode i).iCount == 0) then .halt .panic
  else
    .modify fun s => s.setInode i fun q =>
      { q with
        iCount := q.iCount - 1
        iPipe := q.iPipe && q.iCount != 1 }

def sysClose (e : Ends) (p fd : Nat) : Call Answer := do
  match ← .reads (·.fileOf p fd) with
  | none => return .returned (-EINVAL)
  | some f =>
      if ¬ e.Has f then return .refused
      else
        .modify fun s => s.setFilp p fd none
        let count ← .reads fun s => (s.fileTable f).fCount
        if count = 0 then .halt .panic
        else
          .modify fun s => s.setFile f fun x => { x with fCount := x.fCount - 1 }
          if count ≠ 1 then return .returned 0
          else
            match ← .reads (fun s => (s.fileTable f).fInode) with
            | none => return .returned 0
            | some i =>
                iput i
                return .returned 0

/-- `sys_dup`. -/
def sysDup (e : Ends) (p fd : Nat) : Call Answer := do
  match ← .reads (·.fileOf p fd) with
  | none => return .returned (-EBADF)
  | some f =>
      if ¬ e.Has f then return .refused
      else
        match ← .reads (·.freeFds p) with
        | [] => return .returned (-EMFILE)
        | arg :: _ =>
            .modify fun s => (s.setFilp p arg (some f)).setFile f fun x => { x with fCount := x.fCount + 1 }
            return .returned arg

/-- `f->f_count++` for every descriptor of the process. -/
def share (t : Task) (s : State) : State :=
  { s with
    fileTable := fun f =>
      { s.fileTable f with
        fCount := (s.fileTable f).fCount +
          BitVec.ofNat 16 ((List.range NR_OPEN).filter fun fd => t.filp fd == some f).length } }

/-- `sys_fork`, which has found the slot `child`. -/
def sysFork (p child : Nat) : Call Answer := do
  match ← .reads (·.task p) with
  | none => return .refused
  | some t =>
      if ← .reads (fun s => (s.task child).isSome) then return .refused
      else
        .modify fun s =>
          { share t s with
            task := fun q =>
              if q = child then
                some { t with
                  signal := 0
                  doing := .idle }
              else s.task q }
        return .returned child

/-! ## Runs -/

/-- What a process does next. `signals` is a signal that arrives, or one that is delivered. -/
inductive Event where
  | read (p fd : Nat) (count : BitVec 32)
  | write (p fd : Nat) (buf : Nat → Byte) (count : BitVec 32)
  | close (p fd : Nat)
  | dup (p fd : Nat)
  | fork (p child : Nat)
  | goOn (p : Nat)
  | signals (p : Nat) (v : BitVec 32)

/-- A call starts in a process that is in no other. -/
def start (p : Nat) (m : Call Answer) : Call Answer := do
  if ← .reads (·.idle p) then m else return .refused

def step (e : Ends) : Event → Call Answer
  | .read p fd count => start p (sysRead e p fd count)
  | .write p fd buf count => start p (sysWrite e p fd buf count)
  | .close p fd => start p (sysClose e p fd)
  | .dup p fd => start p (sysDup e p fd)
  | .fork p child => start p (sysFork p child)
  | .goOn p => goOn p
  | .signals p v => do
      .modify fun s => s.setTask p fun t => { t with signal := v }
      return .going

/-- What is seen of a run, up to a `panic`. -/
def trace (e : Ends) : List Event → State → List (Except Halt Answer)
  | [], _ => []
  | x :: l, s =>
      match step e x s with
      | .ok (a, s') => .ok a :: trace e l s'
      | .error h => [.error h]

/-- The state after a run. -/
def after (e : Ends) : List Event → State → Option State
  | [], s => some s
  | x :: l, s =>
      match step e x s with
      | .ok (_, s') => after e l s'
      | .error _ => none

/-! ## What the calls look at -/

/-- The entries of a pipe with inode `i`; of the flags only `O_NONBLOCK` of the reading end matters, which is `b`. -/
structure EndsAre (e : Ends) (i : Nat) (b : BitVec 16) (s : State) : Prop where
  reader : (s.fileTable e.f0).fMode = 1
  writer : (s.fileTable e.f1).fMode = 2
  inode : ∀ f, e.Has f → (s.fileTable f).fInode = some i
  nonblock : (s.fileTable e.f0).fFlags &&& O_NONBLOCK = b

/-- **What two states have to share**: all but the files of others, and what is looked at of the entries. -/
structure Same (e : Ends) (i : Nat) (b : BitVec 16) (s s' : State) : Prop where
  task : s.task = s'.task
  inode : s.inode = s'.inode
  count : ∀ f, (s.fileTable f).fCount = (s'.fileTable f).fCount
  left : EndsAre e i b s
  right : EndsAre e i b s'

namespace EndsAre

variable {e : Ends} {s : State} {f i : Nat} {b : BitVec 16}

theorem reads_of (h : EndsAre e i b s) (hf : e.Has f) (hmode : (s.fileTable f).fMode &&& 1 ≠ 0) : f = e.f0 := by
  rcases hf with hf | rfl
  · exact hf
  · rw [h.writer] at hmode
    exact absurd rfl hmode

end EndsAre

namespace Same

variable {e : Ends} {s s' : State} {p fd f i j : Nat} {b : BitVec 16}

theorem fileOf (h : Same e i b s s') : s.fileOf p fd = s'.fileOf p fd := by
  unfold State.fileOf
  rw [h.task]

theorem freeFds (h : Same e i b s s') : s.freeFds p = s'.freeFds p := by
  unfold State.freeFds
  simp only [h.fileOf]

theorem file (h : Same e i b s s') (hf : e.Has f) : (s.fileTable f).fInode = (s'.fileTable f).fInode :=
  (h.left.inode f hf).trans (h.right.inode f hf).symm

theorem mode (h : Same e i b s s') (hf : e.Has f) : (s.fileTable f).fMode = (s'.fileTable f).fMode := by
  rcases hf with rfl | rfl
  · rw [h.left.reader, h.right.reader]
  · rw [h.left.writer, h.right.writer]

theorem nonblock (h : Same e i b s s') (hf : e.Has f) (hmode : (s.fileTable f).fMode &&& 1 ≠ 0) :
    (s.fileTable f).fFlags &&& O_NONBLOCK = (s'.fileTable f).fFlags &&& O_NONBLOCK := by
  obtain rfl := h.left.reads_of hf hmode
  rw [h.left.nonblock, h.right.nonblock]

/-- A change to a task. -/
theorem setTask (h : Same e i b s s') (x : Task → Task) : Same e i b (s.setTask p x) (s'.setTask p x) where
  task := by
    unfold State.setTask
    rw [h.task]
  inode := h.inode
  count := h.count
  left := { h.left with }
  right := { h.right with }

theorem setInode (h : Same e i b s s') (x : PipeInode → PipeInode) :
    Same e i b (s.setInode j x) (s'.setInode j x) where
  task := h.task
  inode := by
    unfold State.setInode
    rw [h.inode]
  count := h.count
  left := { h.left with }
  right := { h.right with }

/-- A change of `f_count`. -/
theorem setCount (h : Same e i b s s') (x : Nat → BitVec 16 → BitVec 16) :
    Same e i b { s with fileTable := fun f => { s.fileTable f with fCount := x f (s.fileTable f).fCount } }
      { s' with fileTable := fun f => { s'.fileTable f with fCount := x f (s'.fileTable f).fCount } } where
  task := h.task
  inode := h.inode
  count := fun f => congrArg (x f) (h.count f)
  left := { h.left with }
  right := { h.right with }

end Same

theorem setFile_count (s : State) (f : Nat) (x : BitVec 16 → BitVec 16) :
    s.setFile f (fun y => { y with fCount := x y.fCount }) =
      { s with
        fileTable := fun g =>
          { s.fileTable g with fCount := if g = f then x (s.fileTable g).fCount else (s.fileTable g).fCount } } := by
  unfold State.setFile
  congr 1
  funext g
  by_cases hg : g = f
  · rw [if_pos hg, if_pos hg]
  · rw [if_neg hg, if_neg hg]

/-- The rest of the tables makes no difference to the call. -/
abbrev Blind {α : Type} (e : Ends) (i : Nat) (b : BitVec 16) (m : Call α) : Prop := Alike (Same e i b) (Same e i b) m

section
variable {e : Ends} {b : BitVec 16} {p fd f i j count chars size read written : Nat} {v : Int} {d : Doing}
  {buf : Nat → Byte}

theorem alike_doing : Blind e i b (doing p d) := .modify_bind (fun _ _ h => h.setTask _) (.pure _)

theorem alike_return : Blind e i b (return_ p v) := .modify_bind (fun _ _ h => h.setTask _) (.pure _)

/-- The one place that looks at the flags. -/
theorem alike_pipeRead (hf : e.Has f) :
    Alike (fun s s' => Same e i b s s' ∧ (s.fileTable f).fMode &&& 1 ≠ 0) (Same e i b) (pipeRead j f p count) :=
  .look (fun _ _ h => by rw [h.1.nonblock hf h.2])
    fun _ => (Alike.ite alike_doing alike_doing).weaken fun _ _ h => h.1.1

theorem alike_readWait : Blind e i b (readWait p j count) := by
  refine .reads_bind (fun _ _ h => by rw [h.inode]) fun _ => .ite ?_ alike_doing
  refine .reads_bind (fun _ _ h => by rw [h.inode]) fun _ => .ite alike_return ?_
  exact .reads_bind (fun _ _ h => by rw [h.task]) fun _ => .ite alike_return (.pure _)

theorem alike_readLoop : Blind e i b (readLoop p j count read) := by
  refine .reads_bind (fun _ _ h => by rw [h.inode]) fun q => .ite ?_ alike_return
  exact .modify_bind (fun _ _ h => h.setInode _) alike_doing

theorem alike_readCopy : Blind e i b (readCopy p j chars size count read) := by
  refine .ite alike_doing (.reads_bind (fun _ _ h => by rw [h.inode]) fun b => ?_)
  exact .modify_bind (fun _ _ h => h.setTask _) (.pure _)

theorem alike_writeLoop : Blind e i b (writeLoop p j buf count written) := by
  refine .reads_bind (fun _ _ h => by rw [h.inode]) fun q => .ite alike_return (.ite (.ite ?_ ?_) ?_)
  · exact .modify_bind (fun _ _ h => h.setTask _) alike_return
  · exact .reads_bind (fun _ _ h => by rw [h.task]) fun _ => .ite alike_return (.pure _)
  · exact .modify_bind (fun _ _ h => h.setInode _) alike_doing

theorem alike_writeCopy : Blind e i b (writeCopy p j buf chars size count written) :=
  .ite alike_doing (.modify_bind (fun _ _ h => h.setInode _) alike_doing)

theorem alike_goOn : Blind e i b (goOn p) := by
  refine .reads_bind (fun _ _ h => by unfold State.doing; rw [h.task]) fun d => ?_
  cases d with
  | none => exact .pure _
  | some d =>
    cases d with
    | idle => exact .pure _
    | readWait j count => exact alike_readWait
    | readLoop j count read => exact alike_readLoop
    | readCopy j chars size count read => exact alike_readCopy
    | writeLoop j buf count written => exact alike_writeLoop
    | writeCopy j buf chars size count written => exact alike_writeCopy

/-- What `f_op` is left at makes no difference: it has no handlers. -/
theorem alike_handler {handler : FileOperations → Option Handler} {m : Call Answer} {R : State → State → Prop}
    (hnone : ∀ x, handler x = none) (hm : Alike R (Same e i b) m) :
    Alike R (Same e i b) (do
      match ← .reads (fun s => (s.fileTable f).fOp.bind handler) with
      | some h => h p j f
      | none => m) := by
  have hop : ∀ s : State, (s.fileTable f).fOp.bind handler = none := by
    intro s
    cases (s.fileTable f).fOp with
    | none => rfl
    | some x => exact hnone x
  refine .look (fun s s' _ => by rw [hop s, hop s']) fun h => ?_
  cases h with
  | some h => exact fun s s' hs => absurd (hs.2.symm.trans (hop s)) (by simp)
  | none => exact hm.weaken fun _ _ h => h.1

theorem alike_transfer {bit : BitVec 16} {n : BitVec 32} {handler : FileOperations → Option Handler}
    {pipe : Nat → Nat → Call Answer} (hnone : ∀ x, handler x = none)
    (hpipe : ∀ j f, e.Has f →
      Alike (fun s s' => Same e i b s s' ∧ (s.fileTable f).fMode &&& bit ≠ 0) (Same e i b) (pipe j f)) :
    Blind e i b (transfer e p fd bit n handler pipe) := by
  refine .reads_bind (fun _ _ h => h.fileOf) fun file => ?_
  cases file with
  | none => exact .pure _
  | some f =>
    refine .split (fun _ => .pure _) fun hf => ?_
    have hf := not_not.mp hf
    refine .reads_bind (fun _ _ h => h.file hf) fun inode => ?_
    cases inode with
    | none => exact .pure _
    | some j =>
      refine .look (fun _ _ h => by rw [h.mode hf]) fun c => .split (fun _ => ?_) fun hc => ?_
      · exact fun _ _ h => ⟨rfl, h.1⟩
      · have hmode : ∀ s s' : State, Same e i b s s' ∧ ((s.fileTable f).fMode &&& bit == 0) = c →
            Same e i b s s' ∧ (s.fileTable f).fMode &&& bit ≠ 0 := fun s s' h =>
          ⟨h.1, fun h0 => hc (by rw [← h.2, h0]; rfl)⟩
        refine .split (fun _ => fun _ _ h => ⟨rfl, h.1⟩) fun _ => .weaken ?_ hmode
        refine alike_handler hnone (.look (fun _ _ h => by rw [h.1.inode]) fun _ => .ite ?_ ?_)
        · exact (hpipe j f hf).weaken fun _ _ h => h.1
        · exact fun _ _ h => ⟨rfl, h.1.1⟩

theorem alike_iput : Blind e i b (iput j) :=
  .reads_bind (fun _ _ h => by rw [h.inode]) fun _ => .ite (.halt _) (.modify fun _ _ h => h.setInode _)

theorem alike_sysClose : Blind e i b (sysClose e p fd) := by
  refine .reads_bind (fun _ _ h => h.fileOf) fun file => ?_
  cases file with
  | none => exact .pure _
  | some f =>
    refine .split (fun _ => .pure _) fun hf => .modify_bind (fun _ _ h => h.setTask _) ?_
    refine .reads_bind (fun _ _ h => h.count f) fun c => .ite (.halt _) ?_
    refine .modify_bind (fun s s' h => ?_) (.ite (.pure _) ?_)
    · rw [setFile_count s f (· - 1), setFile_count s' f (· - 1)]
      exact h.setCount fun g c => if g = f then c - 1 else c
    · refine .reads_bind (fun _ _ h => h.file (not_not.mp hf)) fun inode => ?_
      cases inode with
      | none => exact .pure _
      | some j => exact .bind alike_iput fun _ => .pure _

theorem alike_sysDup : Blind e i b (sysDup e p fd) := by
  refine .reads_bind (fun _ _ h => h.fileOf) fun file => ?_
  cases file with
  | none => exact .pure _
  | some f =>
    refine .ite (.pure _) (.reads_bind (fun _ _ h => h.freeFds) fun fds => ?_)
    cases fds with
    | nil => exact .pure _
    | cons arg l =>
      refine .modify_bind (fun s s' h => ?_) (.pure _)
      rw [setFile_count _ f (· + 1), setFile_count _ f (· + 1)]
      exact (h.setTask _).setCount fun g c => if g = f then c + 1 else c

theorem alike_sysFork {child : Nat} : Blind e i b (sysFork p child) := by
  refine .reads_bind (fun _ _ h => by rw [h.task]) fun t => ?_
  cases t with
  | none => exact .pure _
  | some t =>
    refine .reads_bind (fun _ _ h => by rw [h.task]) fun _ => .ite (.pure _) (.modify_bind (fun s s' h => ?_) (.pure _))
    have hshare : Same e i b (share t s) (share t s') :=
      h.setCount fun f c => c + BitVec.ofNat 16 ((List.range NR_OPEN).filter fun fd => t.filp fd == some f).length
    exact { hshare with
      task := by rw [h.task]
      left := { hshare.left with }
      right := { hshare.right with } }

/-- **One step.** -/
theorem alike_step (x : Event) : Blind e i b (step e x) := by
  have hstart : ∀ {q m}, Blind e i b m → Blind e i b (start q m) := fun hm =>
    .reads_bind (fun _ _ h => by unfold State.idle; rw [h.task]) fun _ => .ite hm (.pure _)
  cases x with
  | read p fd count => exact hstart (alike_transfer (fun x => by cases x; rfl) fun j f hf => alike_pipeRead hf)
  | write p fd buf count =>
    exact hstart (alike_transfer (fun x => by cases x; rfl) fun j f _ => alike_doing.weaken fun _ _ h => h.1)
  | close p fd => exact hstart alike_sysClose
  | dup p fd => exact hstart alike_sysDup
  | fork p child => exact hstart alike_sysFork
  | goOn p => exact alike_goOn
  | signals p v => exact .modify_bind (fun _ _ h => h.setTask _) (.pure _)

theorem trace_ok {x : Event} {a : Answer} {s s' : State} (h : step e x s = .ok (a, s')) (l : List Event) :
    trace e (x :: l) s = .ok a :: trace e l s' := by
  rw [trace, h]

theorem trace_error {x : Event} {a : Halt} {s : State} (h : step e x s = .error a) (l : List Event) :
    trace e (x :: l) s = [.error a] := by
  rw [trace, h]

/-- **A run.** -/
theorem trace_same {s s' : State} (h : Same e i b s s') (l : List Event) : trace e l s = trace e l s' := by
  induction l generalizing s s' with
  | nil => rfl
  | cons x l ih =>
    have hstep := alike_step x s s' h
    cases hl : step e x s with
    | error a =>
      cases hr : step e x s' with
      | error a' =>
        rw [hl, hr] at hstep
        rw [trace_error hl, trace_error hr, show a = a' from hstep]
      | ok q => exact absurd (by rw [hl, hr] at hstep; exact hstep) not_false
    | ok q =>
      cases hr : step e x s' with
      | error a => exact absurd (by rw [hl, hr] at hstep; exact hstep) not_false
      | ok q' =>
        rw [hl, hr] at hstep
        obtain ⟨ha, hs⟩ : q.1 = q'.1 ∧ Same e i b q.2 q'.2 := hstep
        rw [trace_ok hl, trace_ok hr, ha, ih hs]

/-- The entries stay what they are. -/
theorem EndsAre.after {s u : State} (h : EndsAre e i b s) {l : List Event} (hu : after e l s = some u) :
    EndsAre e i b u := by
  induction l generalizing s with
  | nil =>
    cases hu
    exact h
  | cons x l ih =>
    have hself : Same e i b s s := ⟨rfl, rfl, fun _ => rfl, h, h⟩
    have hstep := alike_step x s s hself
    unfold NewPipe.after at hu
    cases hl : step e x s with
    | error a =>
      rw [hl] at hu
      cases hu
    | ok q =>
      rw [hl] at hu hstep
      exact ih hstep.2.left hu

end

/-! ## A new pipe -/

/-- The states differ only in entries that nobody uses. -/
structure Stale (s s' : State) : Prop where
  task : s.task = s'.task
  inode : s.inode = s'.inode
  spare : s.spare = s'.spare
  count : ∀ f, (s.fileTable f).fCount = (s'.fileTable f).fCount
  used : ∀ f, (s.fileTable f).fCount ≠ 0 → s.fileTable f = s'.fileTable f

/-- **The condition**: the first unused entry, which is to be the reading end, was not left with `O_NONBLOCK`. -/
def Clean (s : State) : Prop := ∀ f ∈ s.freeFiles.head?, (s.fileTable f).fFlags &&& O_NONBLOCK = 0

/-- A process can call `read` on the reading end of a pipe that is empty and has a writer. -/
structure Starved (e : Ends) (s : State) (q fd i : Nat) : Prop where
  idle : s.idle q = true
  file : s.fileOf q fd = some e.f0
  inode : (s.fileTable e.f0).fInode = some i
  quiet : (s.task q).any (·.signalled) = false
  pipe : (s.inode i).iPipe = true
  empty : (s.inode i).size = 0
  writer : (s.inode i).iCount = 2

/-- **A reader waits for a writer**, whatever has been done with the pipe so far. -/
def Blocks (e : Ends) (s : State) : Prop :=
  ∀ l u, after e l s = some u → ∀ q fd i count, Starved e u q fd i → count ≠ 0 →
    trace e [.read q fd count, .goOn q] u = [.ok .going, .ok .asleep]

namespace Starved

variable {e : Ends} {s : State} {q fd i : Nat} {b : BitVec 16} {count : BitVec 32}

theorem doing_setDoing (h : Starved e s q fd i) (d : Doing) : (s.setDoing q d).doing q = some d := by
  have hidle := h.idle
  unfold State.idle at hidle
  unfold State.doing State.setDoing State.setTask
  cases ht : s.task q with
  | none => simp [ht] at hidle
  | some t => simp [ht]

theorem setDoing_inode (d : Doing) : (s.setDoing q d).inode = s.inode := rfl

theorem signalled_setDoing (h : Starved e s q fd i) (d : Doing) :
    ((s.setDoing q d).task q).any (·.signalled) = false := by
  have hquiet := h.quiet
  unfold State.setDoing State.setTask
  cases ht : s.task q with
  | none => simp [ht]
  | some t => simpa [ht, Task.signalled] using hquiet

/-- The call starts. -/
theorem step_read (h : Starved e s q fd i) (hends : EndsAre e i b s) (hcount : count ≠ 0) :
    step e (.read q fd count) s =
      .ok (.going, s.setDoing q
        (if b = 0 then .readWait i count.toInt.toNat else .readLoop i count.toInt.toNat 0)) := by
  have hop : (s.fileTable e.f0).fOp.bind FileOperations.read = none := by
    cases (s.fileTable e.f0).fOp with
    | none => rfl
    | some x =>
      cases x
      rfl
  show start q (sysRead e q fd count) s = _
  unfold start
  rw [Prog.reads_bind, h.idle, if_pos rfl]
  unfold sysRead transfer
  rw [Prog.reads_bind, h.file]
  dsimp only
  rw [if_neg (not_not.mpr (.inl rfl)), Prog.reads_bind, h.inode]
  dsimp only
  rw [Prog.reads_bind, hends.reader, if_neg (by decide), if_neg hcount, Prog.reads_bind, hop]
  dsimp only
  rw [Prog.reads_bind, h.pipe, if_pos rfl]
  unfold pipeRead doing
  rw [Prog.reads_bind, hends.nonblock]
  by_cases hb : b = 0
  · rw [if_pos (by rw [hb]; rfl), if_pos hb]
    rfl
  · rw [if_neg (by simpa using hb), if_neg hb]
    rfl

/-- In the wait loop it sleeps. -/
theorem step_readWait (h : Starved e s q fd i) (n : Nat) :
    step e (.goOn q) (s.setDoing q (.readWait i n)) = .ok (.asleep, s.setDoing q (.readWait i n)) := by
  show goOn q _ = _
  unfold goOn
  rw [Prog.reads_bind, h.doing_setDoing]
  show readWait q i n _ = _
  unfold readWait
  rw [Prog.reads_bind, setDoing_inode, if_pos (beq_iff_eq.mpr h.empty), Prog.reads_bind, setDoing_inode,
    if_neg (by simpa using h.writer)]
  unfold signalled
  rw [Prog.reads_bind, h.signalled_setDoing, if_neg Bool.false_ne_true]
  rfl

/-- Past the wait loop there is nothing to read. -/
theorem step_readLoop (h : Starved e s q fd i) (n : Nat) :
    step e (.goOn q) (s.setDoing q (.readLoop i n 0)) =
      .ok (.returned 0, (s.setDoing q (.readLoop i n 0)).setDoing q .idle) := by
  show goOn q _ = _
  unfold goOn
  rw [Prog.reads_bind, h.doing_setDoing]
  show readLoop q i n 0 _ = _
  unfold readLoop
  rw [Prog.reads_bind]
  dsimp only
  rw [if_neg fun hc => hc.2 h.empty]
  rfl

/-- **What a `read` does.** -/
theorem trace (h : Starved e s q fd i) (hends : EndsAre e i b s) (hcount : count ≠ 0) :
    NewPipe.trace e [.read q fd count, .goOn q] s =
      [.ok .going, .ok (if b = 0 then .asleep else .returned 0)] := by
  rw [trace_ok (h.step_read hends hcount)]
  by_cases hb : b = 0
  · rw [if_pos hb, if_pos hb, trace_ok (h.step_readWait _)]
    rfl
  · rw [if_neg hb, if_neg hb, trace_ok (h.step_readLoop _)]
    rfl

end Starved

section
variable {p i : Nat} {e : Ends} {s s' t : State}

/-- What `sys_pipe` has found. -/
structure Found (p i : Nat) (e : Ends) (s : State) : Prop where
  idle : s.idle p = true
  files : ∃ l, s.freeFiles = e.f0 :: e.f1 :: l
  fds : ∃ l, s.freeFds p = e.fd0 :: e.fd1 :: l
  spare : s.spare = some i

theorem sysPipe_eq_some (h : sysPipe p s = some (e, t)) : ∃ i, Found p i e s ∧ t = install p i e s := by
  unfold sysPipe at h
  split at h
  · next hidle =>
    split at h
    · next f0 f1 l fd0 fd1 l' i hfiles hfds hspare =>
      cases h
      exact ⟨i, ⟨hidle, ⟨l, hfiles⟩, ⟨l', hfds⟩, hspare⟩, rfl⟩
    · cases h
  · cases h

namespace Found

theorem sysPipe (h : Found p i e s) : sysPipe p s = some (e, install p i e s) := by
  obtain ⟨l, hfiles⟩ := h.files
  obtain ⟨l', hfds⟩ := h.fds
  unfold NewPipe.sysPipe
  rw [if_pos h.idle, hfiles, hfds, h.spare]

theorem files_ne (h : Found p i e s) : e.f0 ≠ e.f1 := by
  obtain ⟨l, hfiles⟩ := h.files
  have hnodup : s.freeFiles.Nodup := List.nodup_range.filter _
  rw [hfiles] at hnodup
  exact fun he => (List.nodup_cons.mp hnodup).1 (he ▸ List.mem_cons_self)

theorem fds_ne (h : Found p i e s) : e.fd0 ≠ e.fd1 := by
  obtain ⟨l, hfds⟩ := h.fds
  have hnodup : (s.freeFds p).Nodup := List.nodup_range.filter _
  rw [hfds] at hnodup
  exact fun he => (List.nodup_cons.mp hnodup).1 (he ▸ List.mem_cons_self)

theorem fd0_lt (h : Found p i e s) : e.fd0 < NR_OPEN := by
  obtain ⟨l, hfds⟩ := h.fds
  have hmem : e.fd0 ∈ s.freeFds p := hfds ▸ List.mem_cons_self
  exact List.mem_range.mp (List.mem_filter.mp hmem).1

/-- Only the flags of the reading end are what they were. -/
theorem ends (h : Found p i e s) : EndsAre e i ((s.fileTable e.f0).fFlags &&& O_NONBLOCK) (install p i e s) := by
  have hne := h.files_ne
  have h0 : (install p i e s).fileTable e.f0 = pipeFile i 1 (s.fileTable e.f0) := by
    show (if e.f0 = e.f1 then _ else if e.f0 = e.f0 then _ else _) = _
    rw [if_neg hne, if_pos rfl]
  have h1 : (install p i e s).fileTable e.f1 = pipeFile i 2 (s.fileTable e.f1) := by
    show (if e.f1 = e.f1 then pipeFile i 2 (if e.f1 = e.f0 then _ else _) else _) = _
    rw [if_pos rfl, if_neg hne.symm]
  constructor
  · rw [h0]
    rfl
  · rw [h1]
    rfl
  · rintro f (rfl | rfl)
    · rw [h0]
      rfl
    · rw [h1]
      rfl
  · rw [h0]
    rfl

/-- The other state has the same entries free. -/
theorem stale (h : Found p i e s) (hs : Stale s s') : Found p i e s' where
  idle := by
    rw [← h.idle]
    unfold State.idle
    rw [hs.task]
  files := by
    obtain ⟨l, hfiles⟩ := h.files
    refine ⟨l, hfiles ▸ ?_⟩
    unfold State.freeFiles
    simp only [hs.count]
  fds := by
    obtain ⟨l, hfds⟩ := h.fds
    refine ⟨l, hfds ▸ ?_⟩
    unfold State.freeFds State.fileOf
    rw [hs.task]
  spare := hs.spare ▸ h.spare

theorem clean_iff (h : Found p i e s) : Clean s ↔ (s.fileTable e.f0).fFlags &&& O_NONBLOCK = 0 := by
  obtain ⟨l, hfiles⟩ := h.files
  unfold Clean
  rw [hfiles, List.head?_cons]
  exact ⟨fun hc => hc e.f0 rfl, fun hc f hf => by cases hf; exact hc⟩

/-- The two pipes share what matters if the flags agree. -/
theorem same (h : Found p i e s) (hs : Stale s s')
    (hflags : (s.fileTable e.f0).fFlags &&& O_NONBLOCK = (s'.fileTable e.f0).fFlags &&& O_NONBLOCK) :
    Same e i ((s.fileTable e.f0).fFlags &&& O_NONBLOCK) (install p i e s) (install p i e s') where
  task := by
    unfold install State.setInode State.setFilp State.setTask State.setFile
    dsimp only
    rw [hs.task]
  inode := by
    unfold install State.setInode State.setFilp State.setTask State.setFile
    dsimp only
    rw [hs.inode]
  count f := by
    have hcount : ∀ t : State, ((install p i e t).fileTable f).fCount =
        if e.Has f then (t.fileTable f).fCount + 1 else (t.fileTable f).fCount := by
      intro t
      unfold install State.setInode State.setFilp State.setTask State.setFile pipeFile
      by_cases h0 : f = e.f0
      · simp [h0, h.files_ne, Ends.Has]
      · by_cases h1 : f = e.f1 <;> simp [h0, h1, h.files_ne.symm, Ends.Has]
    rw [hcount, hcount, hs.count]
  left := h.ends
  right := hflags ▸ (h.stale hs).ends

/-- The process has a descriptor to read from. -/
theorem starved (h : Found p i e s) :
    Starved e ((install p i e s).setTask p fun t => { t with signal := 0 }) p e.fd0 i := by
  have hidle := h.idle
  unfold State.idle at hidle
  cases ht : s.task p with
  | none => simp [ht] at hidle
  | some t =>
    have htask : ((install p i e s).setTask p fun t => { t with signal := 0 }).task p = some
        { t with
          filp := fun d => if d = e.fd1 then some e.f1 else if d = e.fd0 then some e.f0 else t.filp d
          signal := 0 } := by
      simp [install, State.setInode, State.setFilp, State.setTask, State.setFile, ht]
    constructor
    · unfold State.idle
      rw [htask]
      simpa [ht] using hidle
    · unfold State.fileOf
      rw [htask, if_pos h.fd0_lt]
      simp [h.fds_ne]
    · exact h.ends.inode e.f0 (.inl rfl)
    · rw [htask]
      simp [Task.signalled]
    · simp [State.setTask, install, State.setInode, newInode]
    · simp [State.setTask, install, State.setInode, newInode, PipeInode.size]
    · simp [State.setTask, install, State.setInode, newInode]

/-- **A reader that always waits for the writer shows that the entry was clean.** -/
theorem blocks_iff (h : Found p i e s) : Blocks e (install p i e s) ↔ Clean s := by
  rw [h.clean_iff]
  constructor
  · intro hblocks
    have hends := h.ends
    have hstarved := h.starved
    have hread := hblocks [.signals p 0] _ rfl p e.fd0 i 1 hstarved (by decide)
    have hends' : EndsAre e i _ ((install p i e s).setTask p fun t => { t with signal := 0 }) := { hends with }
    rw [hstarved.trace hends' (by decide)] at hread
    by_contra hb
    rw [if_neg hb] at hread
    simp at hread
  · intro hb l u hu q fd j count hstarved hcount
    have hends := h.ends.after hu
    obtain rfl : i = j := by
      have hinode := hends.inode e.f0 (.inl rfl)
      rw [hstarved.inode] at hinode
      exact (Option.some.inj hinode).symm
    rw [hstarved.trace hends hcount, if_pos hb]

end Found

/-- **A new pipe has no memory of earlier files exactly when both states are clean.** Then, and only then, every
    sequence of calls answers the same in both, and a reader waits for the writer. -/
theorem new_pipe_forgets (hs : Stale s s') (h : sysPipe p s = some (e, t)) :
    ∃ t', sysPipe p s' = some (e, t') ∧
      (((∀ l, trace e l t = trace e l t') ∧ Blocks e t ∧ Blocks e t') ↔ Clean s ∧ Clean s') := by
  obtain ⟨i, hfound, rfl⟩ := sysPipe_eq_some h
  have hfound' := hfound.stale hs
  refine ⟨_, hfound'.sysPipe, ?_⟩
  rw [hfound.blocks_iff, hfound'.blocks_iff]
  refine ⟨And.right, fun hclean => ⟨fun l => ?_, hclean⟩⟩
  have hflags := (hfound.clean_iff.mp hclean.1).trans (hfound'.clean_iff.mp hclean.2).symm
  exact trace_same (hfound.same hs hflags) l

end

/-- One process, and a file table of which every entry was left with these flags and operations. -/
def oldFiles (flags : BitVec 16) (op : Option FileOperations) : State where
  fileTable := fun _ => ⟨3, flags, 0, some 9, op, 7⟩
  task := fun p => if p = 0 then some ⟨fun _ => none, 0, 0, .idle⟩ else none
  inode := fun _ => ⟨0, false, 0, 0, fun _ => 0⟩
  spare := some 5

theorem oldFiles_stale (flags flags' : BitVec 16) (op op' : Option FileOperations) :
    Stale (oldFiles flags op) (oldFiles flags' op') :=
  ⟨rfl, rfl, rfl, fun _ => rfl, fun _ h => absurd rfl h⟩

/-- The pipe of a table that was left with `O_APPEND` and the operations of a file. -/
theorem new_pipe_forgets_append : ∃ t t',
    sysPipe 0 (oldFiles 0o2000 (some .minixFileOperations)) = some (⟨0, 1, 0, 1⟩, t) ∧
      sysPipe 0 (oldFiles 0 none) = some (⟨0, 1, 0, 1⟩, t') ∧
      ((∀ l, trace ⟨0, 1, 0, 1⟩ l t = trace ⟨0, 1, 0, 1⟩ l t') ∧ Blocks ⟨0, 1, 0, 1⟩ t ∧ Blocks ⟨0, 1, 0, 1⟩ t') := by
  have hs := oldFiles_stale 0o2000 0 (some .minixFileOperations) none
  obtain ⟨t', ht', hiff⟩ := new_pipe_forgets hs (p := 0) (e := ⟨0, 1, 0, 1⟩) rfl
  refine ⟨_, t', rfl, ht', hiff.mpr ⟨?_, ?_⟩⟩
  · rintro f ⟨⟩
    decide
  · rintro f ⟨⟩
    decide

/-- **A pipe that remembers.** The entry of the reading end was left with `O_NONBLOCK`: a `read` of the empty pipe
    returns 0, where it would wait. -/
theorem nonblock_remembered : ¬ ∀ (s s' t t' : State) (p : Nat) (e : Ends), Stale s s' → sysPipe p s = some (e, t) →
    sysPipe p s' = some (e, t') → (∀ l, trace e l t = trace e l t') ∧ Blocks e t := by
  intro h
  have hs := oldFiles_stale O_NONBLOCK 0 none none
  have hread := (h _ _ _ _ 0 ⟨0, 1, 0, 1⟩ hs rfl rfl).1 [.read 0 0 1, .goOn 0]
  have hreturns : [.ok .going, .ok (.returned 0)] = [Except.ok (ε := Halt) Answer.going, .ok .asleep] := hread
  simp at hreturns

end NewPipe
end Fs
end Linux095
