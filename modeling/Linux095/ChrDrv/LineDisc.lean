import Linux095.ChrDrv.Tty
import Linux095.Circular.Buffer

/-!
# `ChrDrv.LineDisc` — the line discipline of one terminal (`kernel/chr_drv/tty_io.c`, `tty_ioctl.c`)

One terminal, with everything that happens to its three queues, step by step. `copy_to_cooked` calls `tty->write` in the
middle of its work, and that may come back to `copy_to_cooked` of the same terminal: the console answers ESC Z, and a
pseudo terminal hands what it gets to the other side, which echoes. So a call of `copy_to_cooked` is a stack of frames,
each of them inside its `tty->write` but the last.

* `Line`, `TtyQueue.list` — a terminal, and what is in a queue;
* `Config.cookTurn`, `Config.killTurn`, `Config.written` — the pieces of `copy_to_cooked`;
* `readLoop`, `Line.sleeps` — the loop and the test of `tty_read`;
* `Event`, `step`, `Reach` — **all that may happen**, in any order.

The driver puts characters into `read_q` and takes them out of `write_q`. The pages that `tty_read` writes to are taken
to be present; where `tty_write` sleeps in `get_fs_byte`, it is two steps.
-/

namespace Linux095
namespace ChrDrv

/-! ## Queues -/

namespace TtyQueue

/-- What is in a queue, the oldest first. -/
def list (q : TtyQueue) : List Byte := Circular.contents q.buf q.tail q.head

/-- Some characters, one after the other. -/
def putchs (q : TtyQueue) : List Byte → TtyQueue
  | [] => q
  | c :: l => (q.putch c).putchs l

/-- One of these PUTCHs is on a queue that is FULL. -/
def overruns (q : TtyQueue) : List Byte → Bool
  | [] => false
  | c :: l => q.full || (q.putch c).overruns l

/-- `flush`. -/
def flush (q : TtyQueue) : TtyQueue := { q with head := q.tail }

section
variable {q : TtyQueue}

theorem length_list : q.list.length + q.left = 1023 := Circular.length_add_room q.buf q.tail q.head

theorem full_iff : q.full = true ↔ q.left = 0 := beq_iff_eq

theorem not_full (h : q.full = false) : q.left ≠ 0 := fun h0 => Bool.false_ne_true (h.symm.trans (full_iff.2 h0))

theorem list_of_empty (h : q.empty = true) : q.list = [] := Circular.contents_nil_iff.2 (beq_iff_eq.1 h)

theorem head_ne (h : q.empty = false) : q.head ≠ q.tail := fun he =>
  Bool.false_ne_true (h.symm.trans (beq_iff_eq.2 he))

theorem list_putch (c : Byte) (h : q.full = false) : (q.putch c).list = q.list ++ [c] :=
  Circular.contents_put q.buf c (not_full h)

theorem list_getch (h : q.empty = false) : q.list = q.getch.1 :: q.getch.2.list :=
  Circular.contents_take q.buf (head_ne h)

theorem list_dec (h : q.empty = false) : q.list = q.dec.list ++ [q.last] := Circular.contents_drop q.buf (head_ne h)

theorem list_flush : q.flush.list = [] := Circular.contents_self q.buf q.tail

theorem empty_iff : q.empty = true ↔ q.list = [] := by
  constructor
  · exact list_of_empty
  · intro h
    exact beq_iff_eq.2 (Circular.contents_nil_iff.1 h)

theorem left_putch (c : Byte) (h : q.full = false) : (q.putch c).left + 1 = q.left := by
  have h₁ : (q.putch c).list.length + (q.putch c).left = 1023 := length_list
  have h₂ : q.list.length + q.left = 1023 := length_list
  rw [list_putch c h, List.length_append, List.length_singleton] at h₁
  omega

/-- **No PUTCH overruns the queue, if and only if there is room for all.** -/
theorem overruns_iff (l : List Byte) : q.overruns l = false ↔ l.length ≤ q.left := by
  induction l generalizing q with
  | nil => exact ⟨fun _ => Nat.zero_le _, fun _ => rfl⟩
  | cons c l ih =>
      unfold overruns
      rw [Bool.or_eq_false_iff, ih, List.length_cons]
      cases hfull : q.full with
      | true =>
          have h0 : q.left = 0 := full_iff.1 hfull
          simp [h0]
      | false =>
          have hleft := left_putch c hfull
          simp only [true_and]
          omega

theorem list_putchs (l : List Byte) (h : q.overruns l = false) : (q.putchs l).list = q.list ++ l := by
  induction l generalizing q with
  | nil => exact (List.append_nil _).symm
  | cons c l ih =>
      unfold overruns at h
      obtain ⟨hfull, hrest⟩ := Bool.or_eq_false_iff.1 h
      show ((q.putch c).putchs l).list = _
      rw [ih hrest, list_putch c hfull, List.append_assoc, List.singleton_append]

end

end TtyQueue

namespace LineDisc

/-! ## The terminal -/

/-- What `tty->write` leads to. -/
inductive Device where
  | console
  | serial
  | pty
  deriving DecidableEq

/-- `struct tty_struct`, and the console's part of it. -/
structure Line where
  device : Device
  termios : Termios
  stopped : Bool
  vc : Vc
  readQ : TtyQueue
  writeQ : TtyQueue
  secondary : TtyQueue

/-- `c` ends a line: "c==10 || (EOF_CHAR(tty) != _POSIX_VDISABLE && c==EOF_CHAR(tty))". -/
def ends (t : Termios) (c : Byte) : Bool := c == 10 || isChar t.eof c

namespace Line

/-- There is nothing to erase on the line. -/
def atStart (l : Line) : Bool := l.secondary.empty || ends l.termios l.secondary.last

/-- What takes the last character off the screen. -/
def eraseMarks (l : Line) : List Byte := if l.secondary.last < 32 then [127, 127] else [127]

/-- The condition of `tty_read` to go to sleep. -/
def sleeps (l : Line) : Bool :=
  l.secondary.empty || (l.termios.icanon && !l.readQ.full && l.secondary.data == 0)

/-- The lines that are complete in `secondary`. -/
def terminators (l : Line) : Nat := l.secondary.list.countP (ends l.termios)

end Line

/-- The `do` loop of `tty_read`: what it stores, and the queue. -/
def readLoop (t : Termios) : Nat → TtyQueue → List Byte × TtyQueue
  | 0, q => ([], q)
  | nr + 1, q =>
      let c := q.getch.1
      let q := if ends t c then { q.getch.2 with data := q.data - 1 } else q.getch.2
      if isChar t.eof c && t.icanon then ([], q)
      else if nr == 0 || (c == 10 && t.icanon) || q.empty then ([c], q)
      else
        let r := readLoop t nr q
        (c :: r.1, r.2)

/-! ## Calls of `copy_to_cooked` -/

/-- What a call does when `tty->write` has come back. `counted` is no variable of the source: `data` has been
incremented for `c`. -/
inductive After where
  /-- "continue". -/
  | loop
  /-- `DEC(tty->secondary->head)`, in the loop of KILL or for ERASE. -/
  | dec (kill : Bool)
  /-- `PUTCH(c,tty->secondary)`. -/
  | put (c : Byte) (counted : Bool)
  deriving DecidableEq

/-- Where the innermost call is. `nested` is no variable of the source: there has been another call inside this
`tty->write`, or the termios have changed. -/
inductive Frame where
  /-- At the top of "while (1)". -/
  | loop
  /-- Before the test of the loop of KILL. -/
  | kill
  /-- In `tty->write`. -/
  | writing (a : After) (nested : Bool)
  deriving DecidableEq

/-- A call, and those that wait for it. -/
structure Active where
  top : Frame
  outer : List After

/-- A terminal in the system. What follows `fetching` are no variables of the source: whether a PUTCH has been on a
queue that was FULL, what has come in, and what each pass of `tty_read` has stored. -/
structure Config where
  line : Line
  active : Option Active
  /-- The writers that sleep in `get_fs_byte`, having found room. -/
  fetching : Nat
  overrun : Bool
  typed : List Byte
  returned : List (List Byte)

namespace Config

def setLine (s : Config) (l : Line) : Config := { s with line := l }

/-- The innermost call goes to `f`. -/
def goTo (s : Config) (outer : List After) (f : Frame) : Config := { s with active := some ⟨f, outer⟩ }

/-- PUTCHs into `write_q`. -/
def send (s : Config) (l : List Byte) : Config :=
  { s with
    line := { s.line with writeQ := s.line.writeQ.putchs l }
    overrun := s.overrun || s.line.writeQ.overruns l }

/-- `PUTCH(c,tty->secondary)`. -/
def store (s : Config) (c : Byte) : Config :=
  { s with
    line := { s.line with secondary := s.line.secondary.putch c }
    overrun := s.overrun || s.line.secondary.full }

/-- `DEC(tty->secondary->head)`. -/
def dec (s : Config) : Config := s.setLine { s.line with secondary := s.line.secondary.dec }

/-- `tty->secondary->data++`, for a character that ends a line. -/
def count (s : Config) (c : Byte) : Config :=
  s.setLine { s.line with
    secondary := { s.line.secondary with
      data := if ends s.line.termios c then s.line.secondary.data + 1 else s.line.secondary.data } }

/-- `GETCH(tty->read_q,c)` leaves this. -/
def takeIn (s : Config) : Config := s.setLine { s.line with readQ := s.line.readQ.getch.2 }

/-- `GETCH(tty->write_q,c)` leaves this. -/
def takeOut (s : Config) : Config := s.setLine { s.line with writeQ := s.line.writeQ.getch.2 }

def setStopped (s : Config) (v : Bool) : Config := s.setLine { s.line with stopped := v }

/-- `copy_to_cooked` returns. -/
def return_ (s : Config) : List After → Config
  | [] => { s with active := none }
  | a :: outer => s.goTo outer (.writing a true)

/-- The last character goes: with an echo, `tty->write` comes first. -/
def eraseChar (s : Config) (outer : List After) (kill : Bool) : Config :=
  if s.line.termios.echo then (s.send s.line.eraseMarks).goTo outer (.writing (.dec kill) false)
  else s.dec.goTo outer (if kill then .kill else .loop)

/-- What is done with a character that has been translated. -/
def cookChar (s : Config) (outer : List After) (c : Byte) : Config :=
  let t := s.line.termios
  if t.icanon && isChar t.kill c then s.goTo outer .kill
  else if t.icanon && isChar t.erase c then
    if s.line.atStart then s.goTo outer .loop else s.eraseChar outer false
  else if t.ixon && isChar t.stop c then
    (s.setStopped true).goTo outer (.writing .loop false)
  else if t.ixon && isChar t.start c then
    (s.setStopped false).goTo outer (.writing .loop false)
  else if t.isig && (isChar t.intr c || isChar t.quit c || isChar t.susp c) then s.goTo outer .loop
  else ((s.count c).send (echoed t c)).goTo outer (.writing (.put c (ends t c)) false)

/-- One turn of "while (1)". -/
def cookTurn (s : Config) (outer : List After) : Config :=
  if s.line.readQ.empty || s.line.secondary.full then s.return_ outer
  else
    match translate s.line.termios s.line.readQ.getch.1 with
    | none => s.takeIn.goTo outer .loop
    | some c => s.takeIn.cookChar outer c

/-- One turn of the loop of KILL. -/
def killTurn (s : Config) (outer : List After) : Config :=
  if s.line.atStart then s.goTo outer .loop else s.eraseChar outer true

/-- `tty->write` has come back. -/
def written (s : Config) (outer : List After) : After → Config
  | .loop => s.goTo outer .loop
  | .dec kill => s.dec.goTo outer (if kill then .kill else .loop)
  | .put c _ => (s.store c).goTo outer .loop

/-- The innermost call goes on. -/
def run (s : Config) : Option Config :=
  s.active.map fun
    | ⟨.loop, outer⟩ => s.cookTurn outer
    | ⟨.kill, outer⟩ => s.killTurn outer
    | ⟨.writing a _, outer⟩ => s.written outer a

/-- `copy_to_cooked` is called: by a process, by an interrupt or in `tty->write`. -/
def call (s : Config) : Option Config :=
  match s.active with
  | none => some (s.goTo [] .loop)
  | some ⟨.writing a _, outer⟩ => some (s.goTo (a :: outer) .loop)
  | some _ => none

/-- `tty->write`, of a process or of the innermost call, can take characters out of `write_q`. -/
def open_ (s : Config) : Bool :=
  match s.active with
  | none => true
  | some ⟨.writing _ _, _⟩ => true
  | some _ => false

/-- The termios have changed inside `tty->write`. -/
def markNested (s : Config) : Config :=
  { s with active := s.active.map fun
      | ⟨.writing a _, outer⟩ => ⟨.writing a true, outer⟩
      | a => a }

end Config


/-! ## `tty->write`, `tty_read` and the rest -/

namespace Config

/-- The PUTCHs of `respond`. -/
def answer (s : Config) : Config :=
  { s with
    line := { s.line with readQ := s.line.readQ.putchs RESPONSE }
    overrun := s.overrun || s.line.readQ.overruns RESPONSE
    typed := s.typed ++ RESPONSE }

/-- A character of an escape sequence, or any other. -/
def feed (s : Config) (c : Byte) : Config := s.setLine { s.line with vc := s.line.vc.next c }

/-- `tty->termios = DEF_TERMIOS`. -/
def reset (s : Config) : Config := (s.setLine { s.line with termios := DEF_TERMIOS }).markNested

/-- One character in `con_write`. -/
def draw (s : Config) (c : Byte) : Option Config :=
  if s.line.vc.resets c then some (s.feed c).reset
  else if s.line.vc.responds c then (s.feed c).answer.call
  else some (s.feed c)

/-- A character goes out. `con_write` goes by the number of characters that it has found when it was called, and not by
what an inner call has left of them. -/
def drain (s : Config) : Option Config :=
  match s.line.device with
  | .console => if s.open_ && !s.line.stopped then s.takeOut.draw s.line.writeQ.getch.1 else none
  | .serial => if s.open_ && !s.line.writeQ.empty then some s.takeOut else none
  | .pty => if s.open_ && !s.line.stopped && !s.line.writeQ.empty then some s.takeOut else none

/-- One pass of `tty_read`, with room for `nr` bytes. -/
def read (s : Config) (nr : Nat) : Option Config :=
  if s.active.isSome || nr == 0 || s.line.sleeps then none
  else
    let r := readLoop s.line.termios nr s.line.secondary
    some { s with
      line := { s.line with secondary := r.2 }
      returned := s.returned ++ [r.1] }

/-- The driver has got a character; it drops it if `read_q` is FULL. -/
def input (s : Config) (c : Byte) : Option Config :=
  if s.line.readQ.full then none
  else some { s with
    line := { s.line with readQ := s.line.readQ.putch c }
    typed := s.typed ++ [c] }

/-- TCFLSH, TCSETSF, TCSETAF: the input. -/
def flushInput (s : Config) : Config :=
  s.setLine { s.line with
    readQ := s.line.readQ.flush
    secondary := s.line.secondary.flush }

def flushOutput (s : Config) : Config := s.setLine { s.line with writeQ := s.line.writeQ.flush }

def setTermios (s : Config) (t : Termios) : Config := s.setLine { s.line with termios := t }

/-- `get_fs_byte` sleeps. -/
def fault (s : Config) : Config := { s with fetching := s.fetching + 1 }

/-- `get_fs_byte` has come back, with `c`. -/
def fetched (s : Config) (c : Byte) : Config := { s with fetching := s.fetching - 1 }.send [c]

end Config

/-- The arguments of TCXONC. -/
inductive Xonc where
  | tcooff
  | tcoon
  | tcioff
  | tcion
  deriving DecidableEq

/-- What TCXONC puts into `write_q`. -/
def Line.xoncSends (l : Line) : Xonc → List Byte
  | .tcooff | .tcoon => []
  | .tcioff => if l.termios.stop = 0 then [] else [l.termios.stop]
  | .tcion => if l.termios.start = 0 then [] else [l.termios.start]

/-- TCXONC. -/
def Config.tcxonc (s : Config) (arg : Xonc) : Config :=
  match arg with
  | .tcooff => s.setStopped true
  | .tcoon => s.setStopped false
  | .tcioff | .tcion => s.send (s.line.xoncSends arg)

/-- What may happen. -/
inductive Event where
  | call
  | run
  | input (c : Byte)
  | drain
  | read (nr : Nat)
  | flushInput
  | flushOutput
  | setTermios (t : Termios)
  | tcxonc (arg : Xonc)
  /-- A byte in the inner loop of `tty_write`. -/
  | write (c : Byte)
  /-- `tty_write` has found room, and sleeps in `get_fs_byte`. -/
  | fault
  /-- `get_fs_byte` has come back. -/
  | fetched (c : Byte)

/-- One step. A process is at work only while no call of `copy_to_cooked` is. -/
def step (s : Config) : Event → Option Config
  | .call => s.call
  | .run => s.run
  | .input c => s.input c
  | .drain => s.drain
  | .read nr => s.read nr
  | .flushInput => if s.active.isSome then none else some s.flushInput
  | .flushOutput => if s.active.isSome then none else some s.flushOutput
  | .setTermios t => if s.active.isSome then none else some (s.setTermios t)
  | .tcxonc arg => if s.active.isSome then none else some (s.tcxonc arg)
  | .write c => if s.active.isSome || s.line.writeQ.full then none else some (s.send [c])
  | .fault => if s.active.isSome || s.line.writeQ.full then none else some s.fault
  | .fetched c => if s.active.isSome || s.fetching == 0 then none else some (s.fetched c)

/-- A step that is taken only where `p` does not hold. -/
theorem of_guarded {p : Bool} {s s' : Config} (h : (if p then none else some s) = some s') : p = false ∧ s' = s := by
  cases p with
  | true => cases h
  | false => exact ⟨rfl, (Option.some.inj h).symm⟩

theorem call_overrun {s s' : Config} (h : s.call = some s') : s'.overrun = s.overrun := by
  unfold Config.call at h
  split at h <;> cases h <;> rfl

/-- A terminal nobody has used. -/
def init (device : Device) (t : Termios) : Config where
  line := ⟨device, t, false, ⟨.normal, 0⟩, .init, .init, .init⟩
  active := none
  fetching := 0
  overrun := false
  typed := []
  returned := []

/-- **What is reached** by steps that all meet a condition. -/
inductive Reach (ok : Config → Event → Bool) (s₀ : Config) : Config → Prop
  | start : Reach ok s₀ s₀
  | next {s s' : Config} (h : Reach ok s₀ s) (e : Event) (hok : ok s e = true) (hs : step s e = some s') :
      Reach ok s₀ s'

/-- Some events, one after the other. -/
def runs (ok : Config → Event → Bool) : Config → List Event → Option Config
  | s, [] => some s
  | s, e :: es => if ok s e then (step s e).bind (runs ok · es) else none

theorem Reach.trans {ok : Config → Event → Bool} {s₀ s s' : Config} (h : Reach ok s₀ s) (h' : Reach ok s s') :
    Reach ok s₀ s' := by
  induction h' with
  | start => exact h
  | next _ e hok hs ih => exact .next ih e hok hs

theorem reach_runs {ok : Config → Event → Bool} {s s' : Config} {es : List Event} (h : runs ok s es = some s') :
    Reach ok s s' := by
  induction es generalizing s with
  | nil =>
      cases h
      exact .start
  | cons e es ih =>
      unfold runs at h
      split at h
      · next hok =>
          obtain ⟨s₁, hs₁, hrest⟩ := Option.bind_eq_some_iff.1 h
          exact (Reach.next .start e hok hs₁).trans (ih hrest)
      · cases h

/-- **What every step keeps holds in all that is reached.** -/
theorem Reach.inv {ok : Config → Event → Bool} {s₀ s : Config} {I : Config → Prop} (h : Reach ok s₀ s) (h₀ : I s₀)
    (hstep : ∀ s s' e, I s → ok s e = true → step s e = some s' → I s') : I s := by
  induction h with
  | start => exact h₀
  | next _ e hok hs ih => exact hstep _ _ e ih hok hs

end LineDisc
end ChrDrv
end Linux095
