import Mathlib.Data.Prod.Lex
import Mathlib.Order.WellFounded
import Linux095.ChrDrv.ConWrite

/-!
# `ChrDrv.PtyWrite` — `pty_copy` and the two ends of a pseudo terminal (`kernel/chr_drv/pty.c`)

`tty->write` of one end moves its `write_q` into the `read_q` of the other end, and calls `copy_to_cooked` there. For
nearly every character that one takes, it calls `tty->write` in its turn, and that comes back to the first end, where a
`copy_to_cooked` may be waiting with a character in its hand.

* `Machine`, `Machine.step` — the calls, step by step; `Run` — what a call of `mpty_write` or `spty_write` comes to;
* `Ends` — **the call ends**, goes no deeper than there are characters, and `copy_to_cooked` is never called for an end
  that is not through with a character;
* `Machine.Calm` — the other end takes no character for which it calls `tty->write`;
* `ends_iff` — **a call ends just when all that the outermost `copy_to_cooked` writes meets with calm**;
* `echo_deepens`, `echo_never_ends` — two raw ends with ECHO.

A signal may come at any time. What `copy_to_cooked` does is in `LineDisc`.
-/

namespace Linux095
namespace ChrDrv
namespace PtyWrite
open LineDisc

/-! ## The calls -/

/-- The ends of a pseudo terminal, `tty_table[128 + i]` and `tty_table[192 + i]`. -/
inductive Side where
  | master
  | slave
  deriving DecidableEq

/-- `tty+64` for `mpty_write`, and `tty-64` for `spty_write`. -/
def Side.other : Side → Side
  | master => slave
  | slave => master

/-- Where the innermost call is. `again` tells that `pty_copy` has called this `copy_to_cooked` in its loop, and not
    behind it. -/
inductive Call where
  /-- In `pty_copy`, at the top of its loop. -/
  | copy
  /-- In `copy_to_cooked`, at the top of "while (1)". -/
  | loop (again : Bool)
  /-- In `copy_to_cooked`, before the test of the loop of KILL. -/
  | kill (again : Bool)
  /-- In `copy_to_cooked`; `tty->write` has come back. -/
  | written (a : After) (again : Bool)
  deriving DecidableEq

/-- A `copy_to_cooked` in its `tty->write`: it has taken a character and is not through with it. -/
structure Waiting where
  tty : Side
  after : After
  again : Bool

/-- A call of `tty->write` with all the calls inside it. -/
structure Machine where
  line : Side → Line
  /-- `from` of the innermost `pty_copy`. -/
  from' : Side
  top : Call
  outer : List Waiting

namespace Machine

/-- `to` of the innermost `pty_copy`. -/
def to' (m : Machine) : Side := m.from'.other

def setLine (m : Machine) (x : Side) (l : Line) : Machine :=
  { m with line := fun y => if y = x then l else m.line y }

/-- One turn of the loop of `pty_copy`. -/
def copy (m : Machine) (signal : Bool) : Machine :=
  let source := m.line m.from'
  let target := m.line m.to'
  if source.stopped || source.writeQ.empty then { m with top := .loop false }
  else if target.readQ.full then { m with top := .loop (!target.secondary.full) }
  else
    { (m.setLine m.from' { source with writeQ := source.writeQ.getch.2 }).setLine m.to'
        { target with readQ := target.readQ.putch source.writeQ.getch.1 } with
      top := if signal then .loop false else .copy }

/-- The next piece of `copy_to_cooked`. -/
def piece (m : Machine) : Config :=
  match m.top with
  | .copy => ConWrite.config (m.line m.to')
  | .loop _ => (ConWrite.config (m.line m.to')).cookTurn []
  | .kill _ => (ConWrite.config (m.line m.to')).killTurn []
  | .written a _ => (ConWrite.config (m.line m.to')).written [] a

/-- `pty_copy` returns. -/
def back (m : Machine) : Option Machine :=
  match m.outer with
  | [] => none
  | w :: outer =>
      some { m with
        from' := w.tty.other
        top := .written w.after w.again
        outer := outer }

/-- `copy_to_cooked` has come to `s`; it returns, goes on or calls `tty->write`. -/
def cooked (m : Machine) (again : Bool) (s : Config) : Option Machine :=
  let m' := m.setLine m.to' s.line
  match s.active with
  | none => if again then some { m' with top := .copy } else m'.back
  | some ⟨.loop, _⟩ => some { m' with top := .loop again }
  | some ⟨.kill, _⟩ => some { m' with top := .kill again }
  | some ⟨.writing a _, _⟩ =>
      some { m' with
        from' := m.to'
        top := .copy
        outer := ⟨m.to', a, again⟩ :: m.outer }

/-- One step; none when the outermost call has returned. `signal` is "current->signal & ~current->blocked". -/
def step (m : Machine) (signal : Bool) : Option Machine :=
  match m.top with
  | .copy => some (m.copy signal)
  | .loop again | .kill again | .written _ again => m.cooked again m.piece

/-- `mpty_write` or `spty_write` is called. -/
def start (l : Side → Line) (x : Side) : Machine := ⟨l, x, .copy, []⟩

/-- `copy_to_cooked` runs for an end where another one, `w`, is not through with a character. -/
def Within (m : Machine) (w : Waiting) : Prop := m.top ≠ .copy ∧ w ∈ m.outer ∧ w.tty = m.to'

end Machine

/-- What a call of `tty->write` comes to. -/
inductive Run (l : Side → Line) (x : Side) : Machine → Prop
  | start : Run l x (.start l x)
  | step {m m' : Machine} (signal : Bool) (h : Run l x m) (hs : m.step signal = some m') : Run l x m'

/-- The characters in the queues between the two ends. -/
def queued (l : Side → Line) : Nat :=
  (l .master).readQ.chars + (l .master).writeQ.chars + (l .slave).readQ.chars + (l .slave).writeQ.chars

/-- **What a call of `mpty_write` or `spty_write` should be like.** -/
structure Ends (l : Side → Line) (x : Side) : Prop where
  ends : ¬∃ f : Nat → Machine, f 0 = .start l x ∧ ∀ n, ∃ signal, (f n).step signal = some (f (n + 1))
  /-- `outer` are the calls of `tty->write` that `copy_to_cooked` has made. -/
  depth : ∀ m, Run l x m → m.outer.length ≤ queued l
  alone : ∀ m, Run l x m → ∀ w, ¬m.Within w

/-! ## When it does -/

/-- For the character `c`, after its translation, `copy_to_cooked` does not call `tty->write`. -/
def ignores (l : Line) (c : Byte) : Bool :=
  let t := l.termios
  if t.icanon && isChar t.kill c then !t.echo || l.atStart
  else if t.icanon && isChar t.erase c then !t.echo || l.atStart
  else if t.ixon && isChar t.stop c then false
  else if t.ixon && isChar t.start c then false
  else t.isig && (isChar t.intr c || isChar t.quit c || isChar t.susp c)

/-- `copy_to_cooked` takes `c` and does not call `tty->write`. -/
def quiet (l : Line) (c : Byte) : Bool := (translate l.termios c).all (ignores l)

namespace Machine

/-- `tty->write` is in `pty_copy`, and `copy_to_cooked` of the other end takes nothing, or is quiet about all that it
    finds there. -/
def Calm (m : Machine) : Prop :=
  let source := m.line m.from'
  let target := m.line m.to'
  target.secondary.full = true ∨
    ∀ c ∈ target.readQ.list ++ (if source.stopped then [] else source.writeQ.list), quiet target c = true

/-- What `tty->write` of the outermost `copy_to_cooked` must meet with. -/
def Meets (m : Machine) : Prop := ∀ w, m.outer = [w] → m.top = .copy → m.Calm

end Machine

/-! ## The pieces of `copy_to_cooked` -/

section Pieces

variable {l : Line} {s : Config}

/-- A character has been taken. -/
structure Took (l l' : Line) : Prop where
  nonempty : l.readQ.empty = false
  room : l.secondary.full = false
  readQ : l'.readQ = l.readQ.getch.2
  termios : l'.termios = l.termios

/-- `l'` is `l`, with the last character of `secondary` erased or not; it is not erased where it would be echoed. -/
def Erased (l l' : Line) : Prop :=
  l'.secondary = l.secondary ∨
    l.termios.echo = false ∧ l.secondary.empty = false ∧ l'.secondary = l.secondary.dec

/-- What one turn of "while (1)" comes to. -/
inductive Turn (l : Line) (s : Config) : Prop
  | done (hend : (l.readQ.empty || l.secondary.full) = true) (hline : s.line = l) (hact : s.active = none)
  | loop (htook : Took l s.line) (hquiet : quiet l l.readQ.getch.1 = true) (hsame : s.line.writeQ = l.writeQ)
      (hstop : s.line.stopped = l.stopped) (herased : Erased l s.line) (hact : s.active = some ⟨.loop, []⟩)
  | kill (htook : Took l s.line) (hquiet : quiet l l.readQ.getch.1 = (!l.termios.echo || l.atStart))
      (hsame : s.line.writeQ = l.writeQ) (hstop : s.line.stopped = l.stopped)
      (hkept : s.line.secondary = l.secondary) (hact : s.active = some ⟨.kill, []⟩)
  | write (a : After) (htook : Took l s.line) (hloud : quiet l l.readQ.getch.1 = false)
      (hkept : s.line.secondary.list = l.secondary.list)
      (hdec : ∀ kill, a = .dec kill → l.secondary.empty = false) (hact : s.active = some ⟨.writing a false, []⟩)

/-- What one turn of the loop of KILL comes to. -/
inductive KillTurn (l : Line) (s : Config) : Prop
  | done (hstart : l.atStart = true) (hline : s.line = l) (hact : s.active = some ⟨.loop, []⟩)
  | dec (hecho : l.termios.echo = false) (hnone : l.secondary.empty = false)
      (hline : s.line = { l with secondary := l.secondary.dec }) (hact : s.active = some ⟨.kill, []⟩)
  | write (hecho : l.termios.echo = true) (hstart : l.atStart = false)
      (hline : s.line = { l with writeQ := l.writeQ.putchs l.eraseMarks })
      (hact : s.active = some ⟨.writing (.dec true) false, []⟩)

theorem nonempty_of_not_atStart (h : l.atStart = false) : l.secondary.empty = false :=
  (Bool.or_eq_false_iff.1 h).1

theorem killTurn_spec (l : Line) : KillTurn l ((ConWrite.config l).killTurn []) := by
  unfold Config.killTurn
  cases hstart : l.atStart with
  | true =>
      rw [show (ConWrite.config l).line.atStart = true from hstart]
      exact .done hstart rfl rfl
  | false =>
      rw [show (ConWrite.config l).line.atStart = false from hstart]
      unfold Config.eraseChar
      cases hecho : l.termios.echo with
      | false =>
          rw [show (ConWrite.config l).line.termios.echo = false from hecho]
          exact .dec hecho (nonempty_of_not_atStart hstart) rfl rfl
      | true =>
          rw [show (ConWrite.config l).line.termios.echo = true from hecho]
          exact .write hecho hstart rfl rfl

/-- A character is worked on. -/
theorem cookChar_spec {c : Byte} (htook : Took l (ConWrite.config l).takeIn.line)
    (hc : quiet l l.readQ.getch.1 = ignores l c) : Turn l ((ConWrite.config l).takeIn.cookChar [] c) := by
  unfold ignores at hc
  unfold Config.cookChar
  show Turn l (if (l.termios.icanon && isChar l.termios.kill c) = true then _ else _)
  dsimp only at hc ⊢
  split
  · next hkill =>
      rw [if_pos hkill] at hc
      exact .kill htook hc rfl rfl rfl rfl
  next hkill =>
  rw [if_neg hkill] at hc
  show Turn l (if (l.termios.icanon && isChar l.termios.erase c) = true then _ else _)
  split
  · next herase =>
      rw [if_pos herase] at hc
      show Turn l (if l.atStart = true then _ else _)
      cases hstart : l.atStart with
      | true =>
          rw [hstart, Bool.or_true] at hc
          exact .loop htook hc rfl rfl (.inl rfl) rfl
      | false =>
          have hsome := nonempty_of_not_atStart hstart
          rw [hstart, Bool.or_false] at hc
          unfold Config.eraseChar
          show Turn l (if false = true then _ else if l.termios.echo = true then _ else _)
          cases hecho : l.termios.echo with
          | true =>
              rw [hecho] at hc
              exact .write (.dec false) ⟨htook.nonempty, htook.room, rfl, rfl⟩ hc rfl (fun _ _ => hsome) rfl
          | false =>
              rw [hecho] at hc
              exact .loop ⟨htook.nonempty, htook.room, rfl, rfl⟩ hc rfl rfl (.inr ⟨hecho, hsome, rfl⟩) rfl
  next herase =>
  rw [if_neg herase] at hc
  show Turn l (if (l.termios.ixon && isChar l.termios.stop c) = true then _ else _)
  split
  · next hstop =>
      rw [if_pos hstop] at hc
      exact .write .loop ⟨htook.nonempty, htook.room, rfl, rfl⟩ hc rfl (fun _ h => nomatch h) rfl
  next hstop =>
  rw [if_neg hstop] at hc
  show Turn l (if (l.termios.ixon && isChar l.termios.start c) = true then _ else _)
  split
  · next hstart =>
      rw [if_pos hstart] at hc
      exact .write .loop ⟨htook.nonempty, htook.room, rfl, rfl⟩ hc rfl (fun _ h => nomatch h) rfl
  next hstart =>
  rw [if_neg hstart] at hc
  show Turn l (if (l.termios.isig && (isChar l.termios.intr c || isChar l.termios.quit c || isChar l.termios.susp c)) =
    true then _ else _)
  split
  · next hsig => exact .loop htook (hc.trans hsig) rfl rfl (.inl rfl) rfl
  · next hsig =>
      exact .write (.put c (ends l.termios c)) ⟨htook.nonempty, htook.room, rfl, rfl⟩
        (hc.trans (Bool.not_eq_true _ ▸ hsig)) rfl (fun _ h => nomatch h) rfl

theorem cookTurn_spec (l : Line) : Turn l ((ConWrite.config l).cookTurn []) := by
  unfold Config.cookTurn
  split
  · next hend => exact .done hend rfl rfl
  next hgo =>
  obtain ⟨hempty, hroom⟩ := Bool.or_eq_false_iff.1 (Bool.not_eq_true _ ▸ hgo)
  have htook : Took l (ConWrite.config l).takeIn.line := ⟨hempty, hroom, rfl, rfl⟩
  split
  · next hnone =>
      refine .loop htook ?_ rfl rfl (.inl rfl) rfl
      exact congrArg (Option.all (ignores l)) hnone
  · next c hsome => exact cookChar_spec htook (congrArg (Option.all (ignores l)) hsome)

theorem quiet_congr {l' : Line} (hterm : l'.termios = l.termios)
    (hstart : l.termios.echo = false ∨ l'.atStart = l.atStart) (c : Byte) : quiet l' c = quiet l c := by
  have hgo : (!l.termios.echo || l'.atStart) = (!l.termios.echo || l.atStart) := by
    rcases hstart with hecho | hstart
    · simp [hecho]
    · rw [hstart]
  unfold quiet ignores
  simp only [hterm, hgo]

/-- What is quiet stays so when nothing that is echoed has been erased. -/
theorem Erased.quiet {l' : Line} (h : Erased l l') (hterm : l'.termios = l.termios) (c : Byte) :
    quiet l' c = quiet l c := by
  refine quiet_congr hterm ?_ c
  rcases h with hsame | ⟨hecho, -, -⟩
  · refine .inr ?_
    unfold Line.atStart
    rw [hsame, hterm]
  · exact .inl hecho

end Pieces

/-! ## Ranks -/

/-- What gets less while a call goes on, the most important first: the characters of the two queues that it takes from,
    where it is in `pty_copy`, whether it has a character in its hand, the characters that KILL can erase, and where it
    is in the loop of KILL. -/
abbrev Rank := Nat ×ₗ Nat ×ₗ Nat ×ₗ Nat ×ₗ Nat ×ₗ Nat

def rank (source target : Line) (phase hand place : Nat) : Rank :=
  toLex (source.writeQ.list.length, toLex (target.readQ.list.length, toLex (phase, toLex (hand,
    toLex (target.secondary.list.length, place)))))

/-- The next turn of `pty_copy` calls `copy_to_cooked`. -/
def calls (source target : Line) : Bool :=
  !(source.stopped || source.writeQ.empty) && target.readQ.full && !target.secondary.full

def Call.rank (source target : Line) : Call → Rank
  | .copy => PtyWrite.rank source target (if calls source target then 3 else 1) 0 0
  | .loop again => PtyWrite.rank source target (if again then 2 else 0) 0 0
  | .kill again => PtyWrite.rank source target (if again then 2 else 0) 1 2
  | .written _ again => PtyWrite.rank source target (if again then 2 else 0) 1 0

/-- Of a `copy_to_cooked` in its `tty->write`. -/
def Waiting.rank (source target : Line) (w : Waiting) : Rank :=
  PtyWrite.rank source target (if w.again then 2 else 0) 1 1

theorem rank_lt {f t f' t' : Line} {p h s p' h' s' : Nat} (hlt : f'.writeQ.list.length < f.writeQ.list.length ∨
      f'.writeQ.list.length = f.writeQ.list.length ∧ (t'.readQ.list.length < t.readQ.list.length ∨
        t'.readQ.list.length = t.readQ.list.length ∧ (p' < p ∨ p' = p ∧ (h' < h ∨ h' = h ∧
          (t'.secondary.list.length < t.secondary.list.length ∨
            t'.secondary.list.length = t.secondary.list.length ∧ s' < s))))) :
    rank f' t' p' h' s' < rank f t p h s := by
  unfold rank
  simp only [Prod.Lex.toLex_lt_toLex]
  exact hlt

/-! ## One step -/

@[simp] theorem Side.other_other (x : Side) : x.other.other = x := by cases x <;> rfl

@[simp] theorem Side.other_ne (x : Side) : x.other ≠ x := by cases x <;> nofun

namespace Machine

variable {m m' : Machine}

@[simp] theorem line_setLine_self (x : Side) (l : Line) : (m.setLine x l).line x = l := if_pos rfl

@[simp] theorem from_ne (m : Machine) : m.from' ≠ m.to' := (Side.other_ne m.from').symm

/-- What one turn of the loop of `pty_copy` comes to. -/
inductive Copied (m : Machine) (signal : Bool) (m' : Machine) : Prop
  | stop (hend : ((m.line m.from').stopped || (m.line m.from').writeQ.empty || (m.line m.to').readQ.full) = true)
      (h : m' = { m with top := .loop (calls (m.line m.from') (m.line m.to')) })
  | move (hgo : ((m.line m.from').stopped || (m.line m.from').writeQ.empty) = false)
      (hroom : (m.line m.to').readQ.full = false) (hfrom' : m'.from' = m.from')
      (htop' : m'.top = if signal then .loop false else .copy) (houter : m'.outer = m.outer)
      (hsource : m'.line m.from' = { m.line m.from' with writeQ := (m.line m.from').writeQ.getch.2 })
      (htarget : m'.line m.to' =
        { m.line m.to' with readQ := (m.line m.to').readQ.putch (m.line m.from').writeQ.getch.1 })

theorem copy_spec (m : Machine) (signal : Bool) : Copied m signal (m.copy signal) := by
  unfold copy
  dsimp only
  split
  · next hend =>
      refine .stop (by rw [hend, Bool.true_or]) ?_
      unfold calls
      rw [hend]
      rfl
  next hgo =>
  rw [Bool.not_eq_true] at hgo
  split
  · next hfull =>
      refine .stop (by rw [hfull, Bool.or_true]) ?_
      unfold calls
      rw [hgo, hfull]
      rfl
  · next hroom =>
      rw [Bool.not_eq_true] at hroom
      exact .move hgo hroom rfl rfl rfl ((if_neg m.from_ne).trans (if_pos rfl)) (if_pos rfl)

/-- The call that goes on, with nothing to wait for but the outermost `copy_to_cooked`. -/
def Silent (m : Machine) : Prop :=
  let target := m.line m.to'
  match m.top with
  | .copy => True
  | .loop _ => target.secondary.full = true ∨ ∀ c ∈ target.readQ.list, quiet target c = true
  | .kill _ => (∀ c ∈ target.readQ.list, quiet target c = true) ∧ (!target.termios.echo || target.atStart) = true
  | .written _ _ => False

/-- **The invariant**: no call waits but the outermost `copy_to_cooked`, and inside its `tty->write` the other end is
    quiet. What is to be erased is there. -/
inductive Flat (m : Machine) : Prop
  | alone (houter : m.outer = []) (hdec : ∀ kill again, m.top = .written (.dec kill) again →
      (m.line m.to').secondary.empty = false)
  | inside (w : Waiting) (houter : m.outer = [w]) (htty : w.tty = m.from') (hdec : ∀ kill, w.after = .dec kill →
      (m.line m.from').secondary.empty = false) (hsilent : m.Silent)

/-- The rank of the innermost call. -/
def callRank (m : Machine) : Rank := m.top.rank (m.line m.from') (m.line m.to')

/-- What gets less with every step. -/
def left (m : Machine) : Rank ×ₗ Rank :=
  match m.outer with
  | [] => toLex (m.callRank, m.callRank)
  | w :: _ => toLex (w.rank (m.line m.to') (m.line m.from'), m.callRank)

theorem left_alone (h : m.outer = []) : m.left = toLex (m.callRank, m.callRank) := by
  unfold left
  rw [h]

theorem left_inside {w : Waiting} (h : m.outer = [w]) :
    m.left = toLex (w.rank (m.line m.to') (m.line m.from'), m.callRank) := by
  unfold left
  rw [h]

/-- A turn of `pty_copy` takes the call further. -/
theorem Copied.callRank {signal : Bool} (h : Copied m signal m') (htop : m.top = .copy) :
    m'.callRank < m.callRank := by
  unfold Machine.callRank
  rw [htop]
  cases h with
  | stop hend h =>
      subst h
      refine rank_lt (.inr ⟨rfl, .inr ⟨rfl, .inl ?_⟩⟩)
      split <;> decide
  | move hgo hroom hfrom' htop' houter hsource htarget =>
      have hto : m'.to' = m.to' := congrArg Side.other hfrom'
      have hlist := TtyQueue.list_getch (Bool.or_eq_false_iff.1 hgo).2
      rw [hfrom', hto, hsource, htop']
      have hlt : (m.line m.from').writeQ.getch.2.list.length < (m.line m.from').writeQ.list.length := by
        rw [hlist]
        exact Nat.lt_succ_self _
      split
      · exact rank_lt (.inl hlt)
      · exact rank_lt (.inl hlt)

theorem Waiting.rank_congr {f t f' t' : Line} (w : Waiting) (hf : f'.writeQ = f.writeQ) (ht : t'.readQ = t.readQ)
    (hs : t'.secondary.list = t.secondary.list) : w.rank f' t' = w.rank f t := by
  unfold Waiting.rank PtyWrite.rank
  rw [hf, ht, hs]

/-- **A turn of `pty_copy`** keeps the invariant, and takes the call further. -/
theorem Flat.copy (h : Flat m) (hm : m.Meets) (htop : m.top = .copy) (signal : Bool) :
    Flat (m.copy signal) ∧ (m.copy signal).left < m.left := by
  have hcopied := copy_spec m signal
  generalize m.copy signal = m' at hcopied
  have hlt := hcopied.callRank htop
  have hout : m'.outer = m.outer := by
    cases hcopied with
    | stop _ h => rw [h]
    | move _ _ _ _ hout _ _ => exact hout
  cases h with
  | alone houter hdec =>
      rw [left_alone houter, left_alone (hout.trans houter), Prod.Lex.toLex_lt_toLex]
      refine ⟨.alone (hout.trans houter) fun kill again hw => ?_, .inl hlt⟩
      cases hcopied with
      | stop _ h =>
          rw [h] at hw
          cases hw
      | move _ _ _ htop' _ _ _ =>
          rw [htop'] at hw
          cases signal <;> cases hw
  | inside w houter htty hdec hsilent =>
      have hcalm := hm w houter htop
      rw [left_inside houter, left_inside (hout.trans houter), Prod.Lex.toLex_lt_toLex]
      cases hcopied with
      | stop hend h =>
          refine ⟨?_, .inr ⟨by rw [h]; rfl, hlt⟩⟩
          rw [h]
          refine .inside w houter htty hdec ?_
          exact hcalm.imp_right fun hq c hc => hq c (List.mem_append_left _ hc)
      | move hgo hroom hfrom' htop' _ hsource htarget =>
          have hto : m'.to' = m.to' := congrArg Side.other hfrom'
          obtain ⟨hstop, hempty⟩ := Bool.or_eq_false_iff.1 hgo
          refine ⟨.inside w (hout.trans houter) (htty.trans hfrom'.symm) ?_ ?_, .inr ⟨?_, hlt⟩⟩
          · rw [hfrom', hsource]
            exact hdec
          · unfold Silent
            rw [htop', hto, htarget]
            cases signal with
            | false => trivial
            | true =>
                refine hcalm.imp_right fun hq c hc => ?_
                rw [TtyQueue.list_putch _ hroom] at hc
                rw [hstop, if_neg Bool.false_ne_true, TtyQueue.list_getch hempty] at hq
                refine (quiet_congr rfl (.inr rfl) c).trans (hq c ?_)
                rcases List.mem_append.1 hc with hc | hc
                · exact List.mem_append_left _ hc
                · exact List.mem_append_right _ (List.mem_singleton.1 hc ▸ List.mem_cons_self)
          · rw [hfrom', hto, hsource, htarget]
            exact Waiting.rank_congr w rfl rfl rfl

/-- The innermost `copy_to_cooked` leaves its terminal as `l`, and goes on to `c`. -/
def goOn (m : Machine) (l : Line) (c : Call) : Machine := { m.setLine m.to' l with top := c }

/-- It calls `tty->write`. -/
def call (m : Machine) (l : Line) (a : After) (again : Bool) : Machine :=
  { m.setLine m.to' l with
    from' := m.to'
    top := .copy
    outer := ⟨m.to', a, again⟩ :: m.outer }

section Cooked

variable {again : Bool} {s : Config} {l : Line} {c : Call}

theorem line_goOn_to : (m.goOn l c).line m.to' = l := if_pos rfl

theorem line_goOn_to' : (m.goOn l c).line (m.goOn l c).to' = l := line_goOn_to

theorem line_goOn_from : (m.goOn l c).line m.from' = m.line m.from' := if_neg m.from_ne

theorem callRank_goOn : (m.goOn l c).callRank = c.rank (m.line m.from') l := by
  show c.rank ((m.goOn l c).line m.from') ((m.goOn l c).line m.to') = _
  rw [line_goOn_from, line_goOn_to]

theorem Flat.goOn (h : Flat m) (hc : ∀ a again, c ≠ .written a again)
    (hsilent : ∀ w, m.outer = [w] → (m.goOn l c).Silent) : Flat (m.goOn l c) := by
  cases h with
  | alone houter hdec => exact .alone houter fun kill again hw => absurd hw (hc _ _)
  | inside w houter htty hdec _ =>
      refine .inside w houter htty ?_ (hsilent w houter)
      show ∀ kill, w.after = .dec kill → ((m.goOn l c).line m.from').secondary.empty = false
      rw [line_goOn_from]
      exact hdec

theorem Flat.goOn_left (h : Flat m) (hq : ∀ w, m.outer = [w] → l.writeQ = (m.line m.to').writeQ)
    (hlt : c.rank (m.line m.from') l < m.callRank) : (m.goOn l c).left < m.left := by
  rw [← callRank_goOn] at hlt
  cases h with
  | alone houter _ =>
      rw [left_alone houter, left_alone (m := m.goOn l c) houter, Prod.Lex.toLex_lt_toLex]
      exact .inl hlt
  | inside w houter _ _ _ =>
      rw [left_inside houter, left_inside (m := m.goOn l c) houter, Prod.Lex.toLex_lt_toLex]
      refine .inr ⟨?_, hlt⟩
      show w.rank ((m.goOn l c).line m.to') ((m.goOn l c).line m.from') = _
      rw [line_goOn_to, line_goOn_from]
      exact Waiting.rank_congr w (hq w houter) rfl rfl

theorem cooked_loop {outer : List After} (hact : s.active = some ⟨.loop, outer⟩) :
    m.cooked again s = some (m.goOn s.line (.loop again)) := by
  unfold cooked
  rw [hact]
  rfl

theorem cooked_kill {outer : List After} (hact : s.active = some ⟨.kill, outer⟩) :
    m.cooked again s = some (m.goOn s.line (.kill again)) := by
  unfold cooked
  rw [hact]
  rfl

theorem cooked_writing {outer : List After} {a : After} {nested : Bool}
    (hact : s.active = some ⟨.writing a nested, outer⟩) : m.cooked again s = some (m.call s.line a again) := by
  unfold cooked
  rw [hact]
  rfl

theorem cooked_none (hact : s.active = none) :
    m.cooked again s = if again then some (m.goOn s.line .copy) else (m.setLine m.to' s.line).back := by
  unfold cooked
  rw [hact]
  rfl

/-- `copy_to_cooked` has nothing to take, so it is not called again. -/
theorem calls_of_done {f t : Line} (h : (t.readQ.empty || t.secondary.full) = true) : calls f t = false := by
  unfold calls
  rcases Bool.or_eq_true_iff.1 h with hempty | hfull
  · have hroom : t.readQ.full = false := by
      rw [← Bool.not_eq_true, TtyQueue.full_iff]
      intro h0
      have hlen : t.readQ.list.length + t.readQ.left = 1023 := TtyQueue.length_list
      rw [TtyQueue.empty_iff.1 hempty, h0] at hlen
      cases hlen
    rw [hroom, Bool.and_false, Bool.false_and]
  · rw [hfull, Bool.not_true, Bool.and_false]

/-- The outermost `copy_to_cooked` calls `tty->write`. -/
theorem call_flat (houter : m.outer = []) {a : After}
    (hdec : ∀ kill, a = .dec kill → l.secondary.empty = false)
    (hlt : (Waiting.mk m.to' a again).rank (m.line m.from') l < m.callRank) :
    Flat (m.call l a again) ∧ (m.call l a again).left < m.left := by
  have hout : (m.call l a again).outer = [⟨m.to', a, again⟩] := congrArg _ houter
  have hto : (m.call l a again).to' = m.from' := Side.other_other m.from'
  have hl : (m.call l a again).line m.to' = l := if_pos rfl
  have hf : (m.call l a again).line m.from' = m.line m.from' := if_neg m.from_ne
  refine ⟨.inside _ hout rfl ?_ trivial, ?_⟩
  · show ∀ kill, a = .dec kill → ((m.call l a again).line m.to').secondary.empty = false
    rw [hl]
    exact hdec
  · rw [left_alone houter, left_inside hout, Prod.Lex.toLex_lt_toLex, hto]
    refine .inl ?_
    show (Waiting.mk m.to' a again).rank ((m.call l a again).line m.from') ((m.call l a again).line m.to') < _
    rw [hl, hf]
    exact hlt

/-- `DEC` makes the line shorter. -/
theorem length_dec {q : TtyQueue} (h : q.empty = false) : q.dec.list.length < q.list.length := by
  rw [TtyQueue.list_dec h, List.length_append, List.length_singleton]
  exact Nat.lt_succ_self _

theorem callRank_loop (htop : m.top = .loop again) :
    m.callRank = Call.rank (m.line m.from') (m.line m.to') (.loop again) := by
  unfold callRank
  rw [htop]

theorem callRank_kill (htop : m.top = .kill again) :
    m.callRank = Call.rank (m.line m.from') (m.line m.to') (.kill again) := by
  unfold callRank
  rw [htop]

/-- A character has gone. -/
theorem took_rank {f' t' : Line} {phase hand place : Nat} (htop : m.top = .loop again)
    (hf : f'.writeQ = (m.line m.from').writeQ) (htook : Took (m.line m.to') t') :
    rank f' t' phase hand place < m.callRank := by
  rw [callRank_loop htop]
  refine rank_lt (.inr ⟨by rw [hf], .inl ?_⟩)
  rw [htook.readQ, TtyQueue.list_getch htook.nonempty]
  exact Nat.lt_succ_self _

/-- `copy_to_cooked` returns to the loop of `pty_copy`. -/
theorem done_rank (htop : m.top = .loop true)
    (hend : ((m.line m.to').readQ.empty || (m.line m.to').secondary.full) = true) :
    Call.rank (m.line m.from') (m.line m.to') .copy < m.callRank := by
  rw [callRank_loop htop]
  refine rank_lt (.inr ⟨rfl, .inr ⟨rfl, .inl ?_⟩⟩)
  rw [calls_of_done hend]
  decide

/-- The line has been killed. -/
theorem killed_rank (htop : m.top = .kill again) :
    Call.rank (m.line m.from') (m.line m.to') (.loop again) < m.callRank := by
  rw [callRank_kill htop]
  exact rank_lt (.inr ⟨rfl, .inr ⟨rfl, .inr ⟨rfl, .inl Nat.zero_lt_one⟩⟩⟩)

/-- A character of it has been erased. -/
theorem erased_rank (htop : m.top = .kill again) (hsome : (m.line m.to').secondary.empty = false) :
    Call.rank (m.line m.from') { m.line m.to' with secondary := (m.line m.to').secondary.dec } (.kill again) <
      m.callRank := by
  rw [callRank_kill htop]
  exact rank_lt (.inr ⟨rfl, .inr ⟨rfl, .inr ⟨rfl, .inr ⟨rfl, .inl (length_dec hsome)⟩⟩⟩⟩)

/-- `pty_copy` returns to the outermost `copy_to_cooked`. -/
theorem Flat.back (h : Flat m) (hs : (m.setLine m.to' (m.line m.to')).back = some m') :
    Flat m' ∧ m'.left < m.left := by
  have hline : ∀ x, (m.setLine m.to' (m.line m.to')).line x = m.line x := by
    intro x
    show (if x = m.to' then m.line m.to' else m.line x) = m.line x
    split
    · next hx => rw [hx]
    · rfl
  unfold Machine.back at hs
  cases h with
  | alone houter _ =>
      rw [show (m.setLine m.to' (m.line m.to')).outer = [] from houter] at hs
      cases hs
  | inside w houter htty hdec _ =>
      rw [show (m.setLine m.to' (m.line m.to')).outer = [w] from houter] at hs
      obtain rfl := Option.some.inj hs
      refine ⟨.alone rfl fun kill again hw => ?_, ?_⟩
      · show ((m.setLine m.to' (m.line m.to')).line w.tty.other.other).secondary.empty = false
        rw [hline, Side.other_other, htty]
        exact hdec kill (Call.written.inj hw).1
      · rw [left_inside houter, left_alone rfl, Prod.Lex.toLex_lt_toLex]
        refine .inl ?_
        show Call.rank ((m.setLine m.to' (m.line m.to')).line w.tty.other)
          ((m.setLine m.to' (m.line m.to')).line w.tty.other.other) (.written w.after w.again) < _
        rw [hline, hline, Side.other_other, htty]
        exact rank_lt (.inr ⟨rfl, .inr ⟨rfl, .inr ⟨rfl, .inr ⟨rfl, .inr ⟨rfl, by decide⟩⟩⟩⟩⟩)

/-- **A turn of "while (1)".** -/
theorem Flat.loop (h : Flat m) (htop : m.top = .loop again) (hs : m.cooked again m.piece = some m') :
    Flat m' ∧ m'.left < m.left := by
  have hpiece : m.piece = (ConWrite.config (m.line m.to')).cookTurn [] := by
    unfold piece
    rw [htop]
  have hturn := cookTurn_spec (m.line m.to')
  rw [hpiece] at hs
  generalize (ConWrite.config (m.line m.to')).cookTurn [] = s at hs hturn
  -- inside `tty->write`, what there is to be taken is quiet
  have hquiets : ∀ w, m.outer = [w] → (m.line m.to').secondary.full = false →
      ∀ c ∈ (m.line m.to').readQ.list, quiet (m.line m.to') c = true := by
    intro w houter hroom
    cases h with
    | alone hnil _ => rw [hnil] at houter; cases houter
    | inside _ _ _ _ hsilent =>
        unfold Silent at hsilent
        rw [htop] at hsilent
        exact hsilent.resolve_left (Bool.not_eq_true _ ▸ hroom)
  cases hturn with
  | done hend hline hact =>
      rw [cooked_none hact, hline] at hs
      cases again with
      | true =>
          obtain rfl := Option.some.inj hs
          exact ⟨h.goOn (fun _ _ => Call.noConfusion) fun _ _ => trivial,
            h.goOn_left (fun _ _ => rfl) (done_rank htop hend)⟩
      | false => exact h.back hs
  | loop htook hquiet hsame hstop herased hact =>
      obtain rfl := Option.some.inj ((cooked_loop hact).symm.trans hs)
      refine ⟨h.goOn (fun _ _ => Call.noConfusion) fun w houter => ?_,
        h.goOn_left (fun _ _ => hsame) (took_rank htop rfl htook)⟩
      refine .inr fun c hc => ?_
      rw [line_goOn_to'] at hc ⊢
      rw [herased.quiet htook.termios]
      rw [htook.readQ] at hc
      refine hquiets w houter htook.room c ?_
      rw [TtyQueue.list_getch htook.nonempty]
      exact List.mem_cons_of_mem _ hc
  | kill htook hquiet hsame hstop hkept hact =>
      obtain rfl := Option.some.inj ((cooked_kill hact).symm.trans hs)
      refine ⟨h.goOn (fun _ _ => Call.noConfusion) fun w houter => ?_,
        h.goOn_left (fun _ _ => hsame) (took_rank htop rfl htook)⟩
      have hlist := TtyQueue.list_getch htook.nonempty
      have hall := hquiets w houter htook.room
      rw [hlist] at hall
      have hstart : s.line.atStart = (m.line m.to').atStart := by
        unfold Line.atStart
        rw [hkept, htook.termios]
      refine ⟨fun c hc => ?_, ?_⟩
      · rw [line_goOn_to'] at hc ⊢
        rw [quiet_congr htook.termios (.inr hstart)]
        rw [htook.readQ] at hc
        exact hall c (List.mem_cons_of_mem _ hc)
      · rw [line_goOn_to', hstart, htook.termios, ← hquiet]
        exact hall _ List.mem_cons_self
  | write a htook hloud hkept hdec hact =>
      obtain rfl := Option.some.inj ((cooked_writing hact).symm.trans hs)
      have hout : m.outer = [] := by
        cases h with
        | alone houter _ => exact houter
        | inside w houter _ _ _ =>
            have hall := hquiets w houter htook.room _ (TtyQueue.list_getch htook.nonempty ▸ List.mem_cons_self)
            rw [hloud] at hall
            cases hall
      refine call_flat hout (fun kill ha => ?_) (took_rank htop rfl htook)
      rw [← Bool.not_eq_true, TtyQueue.empty_iff, hkept, ← TtyQueue.empty_iff, hdec kill ha]
      exact Bool.false_ne_true

/-- **A turn of the loop of KILL.** -/
theorem Flat.kill (h : Flat m) (htop : m.top = .kill again) (hs : m.cooked again m.piece = some m') :
    Flat m' ∧ m'.left < m.left := by
  have hpiece : m.piece = (ConWrite.config (m.line m.to')).killTurn [] := by
    unfold piece
    rw [htop]
  have hturn := killTurn_spec (m.line m.to')
  rw [hpiece] at hs
  generalize (ConWrite.config (m.line m.to')).killTurn [] = s at hs hturn
  -- inside `tty->write`, nothing is echoed
  have hquiets : ∀ w, m.outer = [w] → (∀ c ∈ (m.line m.to').readQ.list, quiet (m.line m.to') c = true) ∧
      (!(m.line m.to').termios.echo || (m.line m.to').atStart) = true := by
    intro w houter
    cases h with
    | alone hnil _ => rw [hnil] at houter; cases houter
    | inside _ _ _ _ hsilent =>
        unfold Silent at hsilent
        rw [htop] at hsilent
        exact hsilent
  cases hturn with
  | done hstart hline hact =>
      obtain rfl := Option.some.inj ((cooked_loop hact).symm.trans hs)
      rw [hline]
      refine ⟨h.goOn (fun _ _ => Call.noConfusion) fun w houter => .inr ?_,
        h.goOn_left (fun _ _ => rfl) (killed_rank htop)⟩
      rw [line_goOn_to']
      exact (hquiets w houter).1
  | dec hecho hnone hline hact =>
      obtain rfl := Option.some.inj ((cooked_kill hact).symm.trans hs)
      rw [hline]
      refine ⟨h.goOn (fun _ _ => Call.noConfusion) fun w houter => ⟨fun c hc => ?_, ?_⟩,
        h.goOn_left (fun _ _ => rfl) (erased_rank htop hnone)⟩
      · rw [line_goOn_to'] at hc ⊢
        have herased : Erased (m.line m.to') { m.line m.to' with secondary := (m.line m.to').secondary.dec } :=
          .inr ⟨hecho, hnone, rfl⟩
        rw [herased.quiet rfl]
        exact (hquiets w houter).1 c hc
      · rw [line_goOn_to']
        show (!(m.line m.to').termios.echo || _) = true
        rw [hecho]
        rfl
  | write hecho hstart hline hact =>
      obtain rfl := Option.some.inj ((cooked_writing hact).symm.trans hs)
      have hout : m.outer = [] := by
        cases h with
        | alone houter _ => exact houter
        | inside w houter _ _ _ =>
            have hno := (hquiets w houter).2
            rw [hecho, hstart] at hno
            cases hno
      rw [hline]
      refine call_flat hout (fun _ _ => nonempty_of_not_atStart hstart) ?_
      rw [callRank_kill htop]
      exact rank_lt (.inr ⟨rfl, .inr ⟨rfl, .inr ⟨rfl, .inr ⟨rfl, .inr ⟨rfl, Nat.lt_succ_self 1⟩⟩⟩⟩⟩)

/-- **`tty->write` has come back.** -/
theorem Flat.written {a : After} (h : Flat m) (htop : m.top = .written a again)
    (hs : m.cooked again m.piece = some m') : Flat m' ∧ m'.left < m.left := by
  have hpiece : m.piece = (ConWrite.config (m.line m.to')).written [] a := by
    unfold piece
    rw [htop]
  have hrank : m.callRank = Call.rank (m.line m.from') (m.line m.to') (.written a again) := by
    unfold callRank
    rw [htop]
  obtain ⟨houter, hdec⟩ : m.outer = [] ∧ ∀ kill, a = .dec kill → (m.line m.to').secondary.empty = false := by
    cases h with
    | alone houter hdec => exact ⟨houter, fun kill ha => hdec kill again (ha ▸ htop)⟩
    | inside _ _ _ _ hsilent =>
        unfold Silent at hsilent
        rw [htop] at hsilent
        exact hsilent.elim
  have hwaits : ∀ {w}, m.outer = [w] → False := fun hw => nomatch houter.symm.trans hw
  rw [hpiece] at hs
  have hgo : ∀ {l' : Line} {c : Call}, (∀ a again, c ≠ .written a again) →
      c.rank (m.line m.from') l' < m.callRank → Flat (m.goOn l' c) ∧ (m.goOn l' c).left < m.left :=
    fun hc hlt => ⟨h.goOn hc fun _ hw => (hwaits hw).elim, h.goOn_left (fun _ hw => (hwaits hw).elim) hlt⟩
  have hloop : ∀ {l' : Line}, l'.readQ = (m.line m.to').readQ →
      Call.rank (m.line m.from') l' (.loop again) < m.callRank := by
    intro l' hq
    rw [hrank]
    exact rank_lt (.inr ⟨rfl, .inr ⟨by rw [hq], .inr ⟨rfl, .inl Nat.zero_lt_one⟩⟩⟩)
  cases a with
  | loop =>
      obtain rfl := Option.some.inj ((cooked_loop rfl).symm.trans hs)
      exact hgo (fun _ _ => Call.noConfusion) (hloop rfl)
  | put c counted =>
      obtain rfl := Option.some.inj ((cooked_loop rfl).symm.trans hs)
      exact hgo (fun _ _ => Call.noConfusion) (hloop rfl)
  | dec kill =>
      cases kill with
      | false =>
          obtain rfl := Option.some.inj ((cooked_loop rfl).symm.trans hs)
          exact hgo (fun _ _ => Call.noConfusion) (hloop rfl)
      | true =>
          obtain rfl := Option.some.inj ((cooked_kill rfl).symm.trans hs)
          refine hgo (fun _ _ => Call.noConfusion) ?_
          rw [hrank]
          exact rank_lt (.inr ⟨rfl, .inr ⟨rfl, .inr ⟨rfl, .inr ⟨rfl, .inl (length_dec (hdec true rfl))⟩⟩⟩⟩)

end Cooked

/-- **Every step keeps the invariant, and takes the call further.** -/
theorem Flat.step (h : Flat m) (hm : m.Meets) {signal : Bool} (hs : m.step signal = some m') :
    Flat m' ∧ m'.left < m.left := by
  unfold Machine.step at hs
  cases htop : m.top with
  | copy =>
      rw [htop] at hs
      obtain rfl := Option.some.inj hs
      exact h.copy hm htop signal
  | loop again =>
      rw [htop] at hs
      exact h.loop htop hs
  | kill again =>
      rw [htop] at hs
      exact h.kill htop hs
  | written a again =>
      rw [htop] at hs
      exact h.written htop hs

end Machine

/-! ## Calls that end -/

section Runs

variable {l : Side → Line} {x : Side} {m m' : Machine}

theorem Run.flat (hclear : ∀ m, Run l x m → m.Meets) (hr : Run l x m) : m.Flat := by
  induction hr with
  | start => exact .alone rfl fun _ _ h => nomatch h
  | step signal hr hs ih => exact (ih.step (hclear _ hr) hs).1

/-- Where there are no characters, `copy_to_cooked` takes none. -/
theorem Run.idle (h0 : queued l = 0) (hr : Run l x m) : m.outer = [] := by
  have hnil : ∀ q : TtyQueue, q.chars = 0 → q.empty = true := fun q hq => by
    rw [TtyQueue.empty_iff, ← List.length_eq_zero_iff, ← ConWrite.Machine.chars_eq]
    exact hq
  have hqueues : ∀ y, (l y).readQ.empty = true ∧ (l y).writeQ.empty = true := by
    intro y
    unfold queued at h0
    cases y
    · exact ⟨hnil _ (by omega), hnil _ (by omega)⟩
    · exact ⟨hnil _ (by omega), hnil _ (by omega)⟩
  have hidle : m.outer = [] ∧ m.line = l ∧ (m.top = .copy ∨ m.top = .loop false) := by
    induction hr with
    | start => exact ⟨rfl, rfl, .inl rfl⟩
    | @step m m' signal hr hs ih =>
        obtain ⟨houter, hline, htop⟩ := ih
        unfold Machine.step at hs
        rcases htop with htop | htop
        · rw [htop] at hs
          obtain rfl := Option.some.inj hs
          cases Machine.copy_spec m signal with
          | stop hend h =>
              rw [h]
              refine ⟨houter, hline, .inr (congrArg Call.loop ?_)⟩
              rw [hline]
              unfold calls
              rw [(hqueues _).2, Bool.or_true, Bool.not_true, Bool.false_and, Bool.false_and]
          | move hgo _ _ _ _ _ _ =>
              rw [hline, (hqueues _).2, Bool.or_true] at hgo
              cases hgo
        · rw [htop] at hs
          have hpiece : m.piece = (ConWrite.config (m.line m.to')).return_ [] := by
            unfold Machine.piece Config.cookTurn
            rw [htop]
            refine if_pos ?_
            show ((m.line m.to').readQ.empty || _) = true
            rw [hline, (hqueues _).1, Bool.true_or]
          have hback : m.cooked false m.piece = (m.setLine m.to' m.piece.line).back := by
            rw [Machine.cooked_none (hpiece ▸ rfl)]
            rfl
          have hnone : (m.setLine m.to' m.piece.line).back = none := by
            unfold Machine.back
            rw [show (m.setLine m.to' m.piece.line).outer = [] from houter]
          cases hs.symm.trans (hback.trans hnone)
  exact hidle.1

/-- **Where the outermost `copy_to_cooked` meets with calm, a call ends.** -/
theorem ends_of_meets (hclear : ∀ m, Run l x m → m.Meets) : Ends l x where
  ends := by
    rintro ⟨f, hstart, hsteps⟩
    have hrun : ∀ n, Run l x (f n) := by
      intro n
      induction n with
      | zero => exact hstart ▸ .start
      | succ n ih =>
          obtain ⟨signal, hs⟩ := hsteps n
          exact ih.step signal hs
    have hless : ∀ n, (f (n + 1)).left < (f n).left := by
      intro n
      obtain ⟨signal, hs⟩ := hsteps n
      exact (((hrun n).flat hclear).step (hclear _ (hrun n)) hs).2
    exact (wellFounded_iff_isEmpty_descending_chain.1 wellFounded_lt).false ⟨fun n => (f n).left, hless⟩
  depth m hr := by
    cases hr.flat hclear with
    | alone houter _ =>
        rw [houter]
        exact Nat.zero_le _
    | inside w houter _ _ _ =>
        rw [houter]
        refine Nat.pos_of_ne_zero fun h0 => ?_
        rw [hr.idle h0] at houter
        cases houter
  alone m hr := by
    rintro w ⟨-, hw, htty⟩
    cases hr.flat hclear with
    | alone houter _ =>
        rw [houter] at hw
        cases hw
    | inside w' houter htty' _ _ =>
        rw [houter, List.mem_singleton] at hw
        subst hw
        exact m.from_ne (htty'.symm.trans htty)

/-! ## Calls that come back -/

/-- There is a character in `target.readQ` or `l` for which `copy_to_cooked` calls `tty->write`. -/
def LoudIn (target : Line) (l : List Byte) : Prop := ∃ c ∈ target.readQ.list ++ l, quiet target c = false

/-- There is such a character, in `read_q` or before `pty_copy`, and it is going to be taken. -/
def Call.Loud (source target : Line) (top : Call) : Prop :=
  target.secondary.full = false ∧
    match top with
    | .copy => LoudIn target (if source.stopped then [] else source.writeQ.list)
    | .loop again => LoudIn target (if again && !source.stopped then source.writeQ.list else [])
    | .kill again => (!target.termios.echo || target.atStart) = false ∨
        LoudIn target (if again && !source.stopped then source.writeQ.list else [])
    | .written _ _ => False

def Machine.Loud (m : Machine) : Prop := m.top.Loud (m.line m.from') (m.line m.to')

theorem loud_goOn {l' : Line} {c : Call} (h : c.Loud (m.line m.from') l') : (m.goOn l' c).Loud := by
  show c.Loud ((m.goOn l' c).line m.from') ((m.goOn l' c).line m.to')
  rw [Machine.line_goOn_from, Machine.line_goOn_to]
  exact h

theorem Erased.room {l l' : Line} (h : Erased l l') (hroom : l.secondary.full = false) :
    l'.secondary.full = false := by
  rcases h with hsame | ⟨-, hsome, hdec⟩
  · rw [hsame]
    exact hroom
  · have hless := Machine.length_dec hsome
    have hlen : l.secondary.list.length + l.secondary.left = 1023 := TtyQueue.length_list
    have hlen' : l.secondary.dec.list.length + l.secondary.dec.left = 1023 := TtyQueue.length_list
    rw [hdec, ← Bool.not_eq_true, TtyQueue.full_iff]
    omega

/-- A character that is quiet has been taken. -/
theorem LoudIn.took {l l' : Line} {rest : List Byte} (h : LoudIn l rest) (htook : Took l l')
    (hsilent : quiet l l.readQ.getch.1 = true) (hsame : ∀ c, quiet l' c = quiet l c) : LoudIn l' rest := by
  obtain ⟨c, hc, hquiet⟩ := h
  refine ⟨c, ?_, (hsame c).trans hquiet⟩
  rw [TtyQueue.list_getch htook.nonempty, List.cons_append, List.mem_cons] at hc
  rw [htook.readQ]
  refine hc.resolve_left ?_
  rintro rfl
  rw [hsilent] at hquiet
  cases hquiet

/-- The `copy_to_cooked` that waits is called once more. -/
theorem within_of_call {w : Waiting} {l' : Line} {a : After} {again : Bool} (houter : m.outer = [w])
    (htty : w.tty = m.from') (hr : Run l x (m.call l' a again)) : ∃ m', Run l x m' ∧ m'.Within w := by
  have hto : (m.call l' a again).to' = m.from' := Side.other_other m.from'
  refine ⟨_, hr.step true rfl, ?_⟩
  have hmem : w ∈ (m.call l' a again).outer := List.mem_cons_of_mem _ (houter ▸ List.mem_cons_self)
  cases Machine.copy_spec (m.call l' a again) true with
  | stop _ h =>
      rw [h]
      exact ⟨Call.noConfusion, hmem, htty.trans hto.symm⟩
  | move _ _ hfrom' htop' hout _ _ =>
      refine ⟨by rw [htop']; exact Call.noConfusion, hout ▸ hmem, ?_⟩
      exact (htty.trans hto.symm).trans (congrArg Side.other hfrom').symm

/-- A turn of `pty_copy` without a signal leads on to such a character. -/
theorem loud_copied (hloud : m.Loud) (htop : m.top = .copy) (h : Machine.Copied m false m') : m'.Loud := by
  unfold Machine.Loud Call.Loud at hloud
  rw [htop] at hloud
  obtain ⟨hroom, c, hc, hquiet⟩ := hloud
  cases h with
  | stop hend h =>
      subst h
      refine ⟨hroom, c, ?_, hquiet⟩
      cases hstop : (m.line m.from').stopped with
      | true =>
          rw [hstop] at hc
          rw [Bool.not_true, Bool.and_false]
          exact hc
      | false =>
          rw [hstop] at hc hend
          cases hempty : (m.line m.from').writeQ.empty with
          | true =>
              rw [TtyQueue.list_of_empty hempty, ite_self] at hc ⊢
              exact hc
          | false =>
              rw [hempty, Bool.or_false, Bool.false_or] at hend
              have hcalls : calls (m.line m.from') (m.line m.to') = true := by
                unfold calls
                rw [hstop, hempty, hend, hroom]
                rfl
              rw [hcalls]
              exact hc
  | move hgo hroom' hfrom' htop' hout hsource htarget =>
      have hto : m'.to' = m.to' := congrArg Side.other hfrom'
      obtain ⟨hstop, hempty⟩ := Bool.or_eq_false_iff.1 hgo
      unfold Machine.Loud
      rw [htop', hfrom', hto, hsource, htarget]
      refine ⟨hroom, c, ?_, (quiet_congr rfl (.inr rfl) c).trans hquiet⟩
      rw [hstop, if_neg Bool.false_ne_true, TtyQueue.list_getch hempty] at hc
      show c ∈ ((m.line m.to').readQ.putch _).list ++ (if (m.line m.from').stopped = true then _ else _)
      rw [hstop, if_neg Bool.false_ne_true, TtyQueue.list_putch _ hroom', List.append_assoc]
      exact hc

/-- **A character that is not quiet brings the call back.** -/
theorem within_of_loud {w : Waiting} (hr : Run l x m) (houter : m.outer = [w]) (htty : w.tty = m.from')
    (hloud : m.Loud) : ∃ m', Run l x m' ∧ m'.Within w := by
  induction h : m.callRank using WellFoundedLT.induction generalizing m with
  | ind r ih =>
  subst h
  have hgo : ∀ {l' : Line} {c : Call}, m.step false = some (m.goOn l' c) →
      c.rank (m.line m.from') l' < m.callRank → c.Loud (m.line m.from') l' → ∃ m', Run l x m' ∧ m'.Within w := by
    intro l' c hstep hlt hl
    rw [← Machine.callRank_goOn] at hlt
    exact ih _ hlt (hr.step false hstep) houter htty (loud_goOn hl) rfl
  have hl := hloud
  unfold Machine.Loud Call.Loud at hl
  obtain ⟨hroom, hl⟩ := hl
  cases htop : m.top with
  | copy =>
      have hstep : m.step false = some (m.copy false) := by
        unfold Machine.step
        rw [htop]
      have hcopied := Machine.copy_spec m false
      generalize m.copy false = m' at hstep hcopied
      have hsame : m'.outer = m.outer ∧ m'.from' = m.from' := by
        cases hcopied with
        | stop _ h => rw [h]; exact ⟨rfl, rfl⟩
        | move _ _ hfrom' _ hout _ _ => exact ⟨hout, hfrom'⟩
      exact ih _ (hcopied.callRank htop) (hr.step false hstep) (hsame.1.trans houter) (htty.trans hsame.2.symm)
        (loud_copied hloud htop hcopied) rfl
  | loop again =>
      rw [htop] at hl
      have hstep : m.step false = m.cooked again m.piece := by
        unfold Machine.step
        rw [htop]
      have hpiece : m.piece = (ConWrite.config (m.line m.to')).cookTurn [] := by
        unfold Machine.piece
        rw [htop]
      have hturn := cookTurn_spec (m.line m.to')
      rw [hpiece] at hstep
      generalize (ConWrite.config (m.line m.to')).cookTurn [] = s at hstep hturn
      cases hturn with
      | done hend hline hact =>
          rw [Machine.cooked_none hact, hline] at hstep
          rw [hroom, Bool.or_false] at hend
          cases again with
          | true =>
              refine hgo hstep (Machine.done_rank htop (by rw [hend]; rfl)) ⟨hroom, ?_⟩
              cases hstop : (m.line m.from').stopped with
              | true => rw [hstop] at hl; exact hl
              | false => rw [hstop] at hl; exact hl
          | false =>
              obtain ⟨c, hc, -⟩ := hl
              rw [TtyQueue.list_of_empty hend] at hc
              cases hc
      | loop htook hsilent hsame hstop herased hact =>
          rw [Machine.cooked_loop hact] at hstep
          exact hgo hstep (Machine.took_rank htop rfl htook)
            ⟨herased.room hroom, hl.took htook hsilent (herased.quiet htook.termios)⟩
      | kill htook hsilent hsame hstop hkept hact =>
          rw [Machine.cooked_kill hact] at hstep
          have hstart : s.line.atStart = (m.line m.to').atStart := by
            unfold Line.atStart
            rw [hkept, htook.termios]
          refine hgo hstep (Machine.took_rank htop rfl htook) ⟨by rw [hkept]; exact hroom, ?_⟩
          show (!s.line.termios.echo || s.line.atStart) = false ∨ _
          rw [hstart, htook.termios]
          cases hecho : !(m.line m.to').termios.echo || (m.line m.to').atStart with
          | false => exact .inl rfl
          | true => exact .inr (hl.took htook (hsilent.trans hecho) (quiet_congr htook.termios (.inr hstart)))
      | write a _ _ _ _ hact =>
          rw [Machine.cooked_writing hact] at hstep
          exact within_of_call houter htty (hr.step false hstep)
  | kill again =>
      rw [htop] at hl
      have hstep : m.step false = m.cooked again m.piece := by
        unfold Machine.step
        rw [htop]
      have hpiece : m.piece = (ConWrite.config (m.line m.to')).killTurn [] := by
        unfold Machine.piece
        rw [htop]
      have hturn := killTurn_spec (m.line m.to')
      rw [hpiece] at hstep
      generalize (ConWrite.config (m.line m.to')).killTurn [] = s at hstep hturn
      cases hturn with
      | done hstart hline hact =>
          rw [Machine.cooked_loop hact, hline] at hstep
          rw [hstart, Bool.or_true] at hl
          exact hgo hstep (Machine.killed_rank htop) ⟨hroom, hl.resolve_left nofun⟩
      | dec hecho hsome hline hact =>
          rw [Machine.cooked_kill hact, hline] at hstep
          have herased : Erased (m.line m.to') { m.line m.to' with secondary := (m.line m.to').secondary.dec } :=
            .inr ⟨hecho, hsome, rfl⟩
          rw [hecho] at hl
          obtain ⟨c, hc, hquiet⟩ := hl.resolve_left nofun
          exact hgo hstep (Machine.erased_rank htop hsome)
            ⟨herased.room hroom, .inr ⟨c, hc, (herased.quiet rfl c).trans hquiet⟩⟩
      | write _ _ _ hact =>
          rw [Machine.cooked_writing hact] at hstep
          exact within_of_call houter htty (hr.step false hstep)
  | written a again =>
      rw [htop] at hl
      exact hl.elim

theorem Machine.Flat.within (h : m.Flat) (hr : Run l x m) {w : Waiting} (houter : m.outer = [w]) (htop : m.top = .copy)
    (hcalm : ¬m.Calm) : ∃ m', Run l x m' ∧ m'.Within w := by
  obtain ⟨hroom, hall⟩ := not_or.1 hcalm
  obtain ⟨c, hc, hquiet⟩ := not_forall₂.1 hall
  have htty : w.tty = m.from' := by
    cases h with
    | alone hnil _ =>
        rw [hnil] at houter
        cases houter
    | inside w' houter' htty _ _ =>
        rw [houter', List.cons.injEq] at houter
        exact houter.1 ▸ htty
  have hloud : m.Loud := by
    unfold Machine.Loud Call.Loud
    rw [htop]
    exact ⟨Bool.not_eq_true _ ▸ hroom, c, hc, Bool.not_eq_true _ ▸ hquiet⟩
  exact within_of_loud hr houter htty hloud

theorem Machine.Flat.meets (h : m.Flat) (hr : Run l x m) (hno : ∀ m, Run l x m → ∀ w, ¬m.Within w) : m.Meets := by
  intro w houter htop
  by_contra hcalm
  obtain ⟨m', hr', hw⟩ := h.within hr houter htop hcalm
  exact hno m' hr' w hw

/-- **A call of `mpty_write` or `spty_write` ends as it should, if and only if** the outermost `copy_to_cooked`, when it
is in `tty->write`, has the other end take no character for which that calls `tty->write` in its turn. -/
theorem ends_iff (l : Side → Line) (x : Side) : Ends l x ↔ ∀ m, Run l x m → m.Meets := by
  constructor
  · intro h m hr
    have hflat : m.Flat := by
      induction hr with
      | start => exact .alone rfl fun _ _ h => nomatch h
      | step signal hr hs ih => exact (ih.step (ih.meets hr h.alone) hs).1
    exact hflat.meets hr h.alone
  · exact ends_of_meets

end Runs

/-! ## Two ends that echo -/

/-- A raw end with ECHO, and room in its queues, which takes `c` for a character to be stored. -/
structure Echoes (l : Line) (c : Byte) : Prop where
  icanon : l.termios.icanon = false
  ixon : l.termios.ixon = false
  isig : l.termios.isig = false
  taken : translate l.termios c = some c
  echo : echoed l.termios c = [c]
  stopped : l.stopped = false
  room : l.secondary.full = false
  writeQ : l.writeQ.list = []

/-- Such an end has `c` in its `read_q`, and is about to take it. -/
structure Echoing (c : Byte) (m : Machine) : Prop where
  top : m.top = .loop false
  echoes : ∀ y, Echoes (m.line y) c
  target : (m.line m.to').readQ.list = [c]
  source : (m.line m.from').readQ.list = []

section Echo

variable {l : Side → Line} {x : Side} {m : Machine} {c : Byte}

theorem getch_of_list {q : TtyQueue} {c : Byte} (h : q.list = [c]) :
    q.empty = false ∧ q.getch.1 = c ∧ q.getch.2.list = [] := by
  have hempty : q.empty = false := by
    rw [← Bool.not_eq_true, TtyQueue.empty_iff, h]
    exact List.cons_ne_nil _ _
  rw [TtyQueue.list_getch hempty] at h
  exact ⟨hempty, List.cons.inj h⟩

theorem putch_of_nil {q : TtyQueue} (c : Byte) (h : q.list = []) : q.full = false ∧ (q.putch c).list = [c] := by
  have hroom : q.full = false := by
    rw [← Bool.not_eq_true, TtyQueue.full_iff]
    have hlen : q.list.length + q.left = 1023 := TtyQueue.length_list
    rw [h, List.length_nil] at hlen
    omega
  rw [TtyQueue.list_putch c hroom, h]
  exact ⟨hroom, rfl⟩

/-- It takes the character and echoes it. -/
theorem Echoes.takes {l : Line} (h : Echoes l c) (hq : l.readQ.list = [c]) :
    ∃ s : Config, (ConWrite.config l).cookTurn [] = s ∧
      s.active = some ⟨.writing (.put c (ends l.termios c)) false, []⟩ ∧ s.line.readQ = l.readQ.getch.2 ∧
      s.line.writeQ = l.writeQ.putch c ∧ s.line.termios = l.termios ∧ s.line.stopped = l.stopped ∧
      s.line.secondary.full = l.secondary.full := by
  obtain ⟨hempty, hfirst, -⟩ := getch_of_list hq
  have hturn : (ConWrite.config l).cookTurn [] = (ConWrite.config l).takeIn.cookChar [] c := by
    have hgo : ((ConWrite.config l).line.readQ.empty || (ConWrite.config l).line.secondary.full) = false :=
      Bool.or_eq_false_iff.2 ⟨hempty, h.room⟩
    have htaken : translate (ConWrite.config l).line.termios (ConWrite.config l).line.readQ.getch.1 = some c :=
      (congrArg (translate l.termios) hfirst).trans h.taken
    unfold Config.cookTurn
    rw [hgo, htaken]
    rfl
  have hchar : (ConWrite.config l).takeIn.cookChar [] c =
      (((ConWrite.config l).takeIn.count c).send (echoed l.termios c)).goTo []
        (.writing (.put c (ends l.termios c)) false) := by
    unfold Config.cookChar
    show (if (l.termios.icanon && _) = true then _ else if (l.termios.icanon && _) = true then _ else
      if (l.termios.ixon && _) = true then _ else if (l.termios.ixon && _) = true then _ else
      if (l.termios.isig && _) = true then _ else _) = _
    rw [h.icanon, h.ixon, h.isig]
    rfl
  rw [h.echo] at hchar
  exact ⟨_, hturn.trans hchar, rfl, rfl, rfl, rfl, rfl, rfl⟩

theorem Side.eq_or (y x : Side) : y = x ∨ y = x.other := by
  cases x <;> cases y
  · exact .inl rfl
  · exact .inr rfl
  · exact .inr rfl
  · exact .inl rfl

/-- `pty_copy` moves the only character. -/
theorem moves_one (hr : Run l x m) (htop : m.top = .copy) (hstop : (m.line m.from').stopped = false)
    (hlist : (m.line m.from').writeQ.list = [c]) (hnil : (m.line m.to').readQ.list = []) :
    ∃ m', Run l x m' ∧ m'.top = .loop false ∧ m'.outer = m.outer ∧ m'.from' = m.from' ∧
      m'.line m.from' = { m.line m.from' with writeQ := (m.line m.from').writeQ.getch.2 } ∧
      m'.line m.to' = { m.line m.to' with readQ := (m.line m.to').readQ.putch c } := by
  obtain ⟨hempty, hfirst, hrest⟩ := getch_of_list hlist
  have hgo : ∀ {m : Machine}, m.top = .copy → m.step false = some (m.copy false) := by
    intro m htop
    unfold Machine.step
    rw [htop]
  have hmove := Machine.copy_spec m false
  have hr' := hr.step false (hgo htop)
  generalize m.copy false = m₁ at hmove hr'
  cases hmove with
  | stop hend _ =>
      rw [hstop, hempty, (putch_of_nil c hnil).1] at hend
      cases hend
  | move _ _ hfrom' htop' hout hsource htarget =>
      have hto : m₁.to' = m.to' := congrArg Side.other hfrom'
      have hstop' := Machine.copy_spec m₁ false
      have hr'' := hr'.step false (hgo htop')
      generalize m₁.copy false = m₂ at hstop' hr''
      have hended : (m₁.line m₁.from').writeQ.empty = true := by
        rw [hfrom', hsource]
        exact TtyQueue.empty_iff.2 hrest
      cases hstop' with
      | move hgo' _ _ _ _ _ _ =>
          rw [hended, Bool.or_true] at hgo'
          cases hgo'
      | stop _ h =>
          subst h
          refine ⟨_, hr'', congrArg Call.loop ?_, hout, hfrom', hsource, hfirst ▸ htarget⟩
          unfold calls
          rw [hended, Bool.or_true, Bool.not_true, Bool.false_and, Bool.false_and]

/-- **The echo comes to the other end, which is about to echo it.** -/
theorem Echoing.next (h : Echoing c m) (hr : Run l x m) : ∃ m' counted, Run l x m' ∧ Echoing c m' ∧
    m'.outer = ⟨m.to', .put c counted, false⟩ :: m.outer ∧ m'.to' = m.from' := by
  have hown := h.echoes m.to'
  have hother := h.echoes m.from'
  obtain ⟨s, hs, hact, hread, hwrite, hterm, hstop, hfull⟩ := hown.takes h.target
  -- the character is taken, and `tty->write` is called
  have hcall : m.step false = some (m.call s.line (.put c (ends (m.line m.to').termios c)) false) := by
    have hpiece : m.piece = s := by
      unfold Machine.piece
      rw [h.top]
      exact hs
    unfold Machine.step
    rw [h.top]
    exact (congrArg _ hpiece).trans (Machine.cooked_writing hact)
  obtain ⟨m₁, hr₁, htop₁, hout₁, hfrom₁, hto₁, hline, hline'⟩ : ∃ m₁, Run l x m₁ ∧ m₁.top = .copy ∧
      m₁.outer = ⟨m.to', .put c (ends (m.line m.to').termios c), false⟩ :: m.outer ∧ m₁.from' = m.to' ∧
      m₁.to' = m.from' ∧ m₁.line m.to' = s.line ∧ m₁.line m.from' = m.line m.from' :=
    ⟨_, hr.step false hcall, rfl, rfl, rfl, Side.other_other m.from', if_pos rfl, if_neg m.from_ne⟩
  -- and it is moved to the other end
  have hlist : s.line.writeQ.list = [c] := by
    rw [hwrite]
    exact (putch_of_nil c hown.writeQ).2
  obtain ⟨m₂, hr₂, htop₂, hout₂, hfrom₂, hsource, htarget⟩ := moves_one (c := c) hr₁ htop₁
    (by rw [hfrom₁, hline, hstop]; exact hown.stopped) (by rw [hfrom₁, hline]; exact hlist)
    (by rw [hto₁, hline']; exact h.source)
  have hto₂ : m₂.to' = m.from' := (congrArg Side.other hfrom₂).trans hto₁
  rw [hfrom₁, hline] at hsource
  rw [hto₁, hline'] at htarget
  refine ⟨m₂, _, hr₂, ⟨htop₂, fun y => ?_, ?_, ?_⟩, hout₂.trans hout₁, hto₂⟩
  · rcases Side.eq_or y m.from' with rfl | rfl
    · rw [htarget]
      exact ⟨hother.icanon, hother.ixon, hother.isig, hother.taken, hother.echo, hother.stopped, hother.room,
        hother.writeQ⟩
    · rw [show m.from'.other = m.to' from rfl, hsource]
      refine ⟨?_, ?_, ?_, ?_, ?_, hstop.trans hown.stopped, hfull.trans hown.room, (getch_of_list hlist).2.2⟩ <;>
        dsimp only <;> rw [hterm]
      · exact hown.icanon
      · exact hown.ixon
      · exact hown.isig
      · exact hown.taken
      · exact hown.echo
  · rw [hto₂, htarget]
    exact (putch_of_nil c h.source).2
  · rw [hfrom₂, hfrom₁, hsource]
    show s.line.readQ.list = []
    rw [hread]
    exact (getch_of_list h.target).2.2

/-- **Two raw ends with ECHO never come to an end** with a character: there are calls of any depth. -/
theorem echo_deepens (hl : ∀ y, Echoes (l y) c) (hread : (l x.other).readQ.list = [c])
    (hread' : (l x).readQ.list = []) (n : Nat) : ∃ m, Run l x m ∧ Echoing c m ∧ m.outer.length = n := by
  induction n with
  | zero =>
      have hstep : (Machine.start l x).step false = some ((Machine.start l x).copy false) := rfl
      have hended : (l x).writeQ.empty = true := TtyQueue.empty_iff.2 (hl x).writeQ
      have hcopy : (Machine.start l x).copy false = { Machine.start l x with top := .loop false } := by
        unfold Machine.copy
        refine if_pos ?_
        show ((l x).stopped || (l x).writeQ.empty) = true
        rw [hended, Bool.or_true]
      exact ⟨_, Run.start.step false (hcopy ▸ hstep), ⟨rfl, hl, hread, hread'⟩, rfl⟩
  | succ n ih =>
      obtain ⟨m, hr, he, hlen⟩ := ih
      obtain ⟨m', counted, hr', he', hout, -⟩ := he.next hr
      refine ⟨m', hr', he', ?_⟩
      rw [hout, List.length_cons, hlen]

/-- The end is called again before it has stored the character. -/
theorem Echoing.within (h : Echoing c m) (hr : Run l x m) :
    ∃ m' counted, Run l x m' ∧ m'.Within ⟨m.to', .put c counted, false⟩ := by
  obtain ⟨m₁, counted, hr₁, he₁, hout₁, hto₁⟩ := h.next hr
  obtain ⟨m₂, _, hr₂, he₂, hout₂, hto₂⟩ := he₁.next hr₁
  refine ⟨m₂, counted, hr₂, he₂.top ▸ Call.noConfusion, ?_, ?_⟩
  · rw [hout₂, hout₁]
    exact List.mem_cons_of_mem _ List.mem_cons_self
  · rw [hto₂, ← Side.other_other m₁.from']
    exact congrArg Side.other hto₁.symm

end Echo

/-- Raw, with ECHO. -/
def RAW_ECHO : Termios :=
  { DEF_TERMIOS with
    icanon := false
    ixon := false
    isig := false }

/-- A character for the slave. -/
def echoing (y : Side) : Line where
  device := .pty
  termios := RAW_ECHO
  stopped := false
  vc := ⟨.normal, 0⟩
  readQ := if y = .slave then TtyQueue.init.putchs [97] else .init
  writeQ := .init
  secondary := .init

/-- **With it, a call does not end**: it goes deeper than any number, and `copy_to_cooked` is called for an end that is
about to store its character. -/
theorem echo_never_ends : ¬Ends echoing .master ∧ (∀ n, ∃ m, Run echoing .master m ∧ m.outer.length = n) ∧
    ∃ m w, Run echoing .master m ∧ m.Within w ∧ ∃ counted, w.after = .put 97 counted := by
  have htaken : translate RAW_ECHO 97 = some 97 := by decide
  have hecho : echoed RAW_ECHO 97 = [97] := by decide
  have hechoes : ∀ y, Echoes (echoing y) 97 := fun y =>
    ⟨rfl, rfl, rfl, htaken, hecho, rfl, rfl, TtyQueue.list_of_empty rfl⟩
  have hdeep := echo_deepens (x := .master) hechoes (by decide) (by decide)
  have hone : queued echoing = 1 := by decide
  refine ⟨fun hends => ?_, fun n => ?_, ?_⟩
  · obtain ⟨m, hr, -, hlen⟩ := hdeep 2
    have hle := hends.depth m hr
    omega
  · obtain ⟨m, hr, -, hlen⟩ := hdeep n
    exact ⟨m, hr, hlen⟩
  · obtain ⟨m, hr, he, -⟩ := hdeep 0
    obtain ⟨m', counted, hr', hw⟩ := he.within hr
    exact ⟨m', _, hr', hw, counted, rfl⟩

end PtyWrite
end ChrDrv
end Linux095
