import Linux095.Seq.Program

/-!
# `ChrDrv.Tty` — terminals (`kernel/chr_drv/tty_io.c`, `pty.c`, `console.c`)

A terminal has three queues: `read_q` from the device, `write_q` to it, and `secondary` with the cooked input. A
character may set off a whole chain of calls: `copy_to_cooked` echoes it, which writes to the device, and a pseudo
terminal hands it to the other side, whose `copy_to_cooked` is next.

* `copyToCooked`, `conWrite`, `ptyCopy`, `write` — the source's functions;
* `Tells` — **what is ready has been announced**: a queue with something to wait for has been woken;
* `copyToCooked_tells`, `write_tells` — both keep that, `write` also for a queue that its caller has filled.

Every terminal of `tty_table` has its queues here. What the console draws, and `kill_pg` for the control characters,
are left out.
-/

namespace Linux095
namespace ChrDrv
open Seq

abbrev Byte := BitVec 8

abbrev TTY_BUF_SIZE : Nat := 1024
def MAX_CONSOLES : Nat := 8
def NPAR : Nat := 16
def POSIX_VDISABLE : Byte := 0

/-- `struct tty_queue`, without `proc_list`. -/
structure TtyQueue where
  data : BitVec 32
  head : Fin TTY_BUF_SIZE
  tail : Fin TTY_BUF_SIZE
  buf : Fin TTY_BUF_SIZE → Byte

namespace TtyQueue

def empty (q : TtyQueue) : Bool := q.head == q.tail
def left (q : TtyQueue) : Nat := (q.tail - q.head - 1).val
def last (q : TtyQueue) : Byte := q.buf (q.head - 1)
def full (q : TtyQueue) : Bool := q.left == 0
def chars (q : TtyQueue) : Nat := (q.head - q.tail).val

/-- A queue of `tty_table` at the start. -/
def init : TtyQueue := ⟨0, 0, 0, fun _ => 0⟩

/-- `GETCH`. -/
def getch (q : TtyQueue) : Byte × TtyQueue := (q.buf q.tail, { q with tail := q.tail + 1 })

/-- `PUTCH`. -/
def putch (c : Byte) (q : TtyQueue) : TtyQueue :=
  { q with buf := fun i => if i = q.head then c else q.buf i, head := q.head + 1 }

/-- `DEC(queue->head)`. -/
def dec (q : TtyQueue) : TtyQueue := { q with head := q.head - 1 }

end TtyQueue

/-- The flags and the control characters of `struct termios`. -/
structure Termios where
  icrnl : Bool
  igncr : Bool
  inlcr : Bool
  iuclc : Bool
  ixon : Bool
  isig : Bool
  icanon : Bool
  echo : Bool
  echonl : Bool
  echoctl : Bool
  intr : Byte
  quit : Byte
  erase : Byte
  kill : Byte
  eof : Byte
  start : Byte
  stop : Byte
  susp : Byte

/-- `DEF_TERMIOS`, with `INIT_C_CC`. -/
def DEF_TERMIOS : Termios where
  icrnl := true
  igncr := false
  inlcr := false
  iuclc := false
  ixon := true
  isig := true
  icanon := true
  echo := true
  echonl := false
  echoctl := true
  intr := 3
  quit := 28
  erase := 127
  kill := 21
  eof := 4
  start := 17
  stop := 19
  susp := 26

/-- A queue of `tty_queues`, by the number of its terminal. -/
inductive Queue where
  | readQ (n : Nat)
  | writeQ (n : Nat)
  | secondary (n : Nat)
  deriving DecidableEq

/-! ## Escape sequences -/

/-- `state`; `gotpars` is left as soon as it is entered. -/
inductive Es where
  | normal
  | esc
  | square
  | getpars
  | funckey
  | setterm
  | setgraph
  | other
  deriving DecidableEq

/-- What `con_write` keeps of a console between two characters. -/
structure Vc where
  state : Es
  npar : Nat

namespace Vc

/-- CAN and SUB end a sequence. -/
def start (v : Vc) (c : Byte) : Es := if c = 24 ∨ c = 26 then .normal else v.state

/-- `case ESgetpars`. -/
def getpars (npar : Nat) (c : Byte) : Vc :=
  if c = 59 ∧ npar < NPAR - 1 then ⟨.getpars, npar + 1⟩
  else if 48 ≤ c ∧ c ≤ 57 then ⟨.getpars, npar⟩
  else ⟨.normal, npar⟩

/-- The state after `c`. -/
def next (v : Vc) (c : Byte) : Vc :=
  match v.start c with
  | .normal => { v with state := if c = 27 then .esc else .normal }
  | .esc =>
      { v with state :=
          if c = 91 then .square
          else if c = 40 ∨ c = 41 then .setgraph
          else if c = 80 then .setterm
          else if c = 35 then .other
          else .normal }
  | .square => if c = 91 then ⟨.funckey, 0⟩ else if c = 63 then ⟨.getpars, 0⟩ else getpars 0 c
  | .getpars => getpars v.npar c
  | .funckey | .setterm | .setgraph | .other => { v with state := .normal }

/-- ESC Z, `respond`. -/
def responds (v : Vc) (c : Byte) : Bool := v.start c == .esc && c == 90

/-- ESC c, `tty->termios = DEF_TERMIOS`. -/
def resets (v : Vc) (c : Byte) : Bool := v.start c == .esc && c == 99

end Vc

/-- `RESPONSE`. -/
def RESPONSE : List Byte := [27, 91, 63, 49, 59, 50, 99]

/-! ## Calls -/

/-- `tty_table`, and the queues woken so far. `signal` is `current->signal & ~current->blocked`. -/
structure Ttys where
  termios : Nat → Termios
  stopped : Nat → Bool
  vc : Nat → Vc
  queue : Queue → TtyQueue
  signal : Bool
  woken : List Queue

/-- A call that has not come to its end. -/
inductive Off where
  | busy

abbrev Call (α : Type) : Type := Prog Ttys Off α

def Ttys.setQueue (s : Ttys) (a : Queue) (q : TtyQueue) : Ttys :=
  { s with queue := fun b => if b = a then q else s.queue b }

/-- `wake_up(&queue->proc_list)`. -/
def wakeUp (a : Queue) : Call Unit := .modify fun s => { s with woken := a :: s.woken }

def putch (c : Byte) (a : Queue) : Call Unit := .modify fun s => s.setQueue a ((s.queue a).putch c)

/-- Some characters, one after the other. -/
def putchs (a : Queue) : List Byte → Call Unit
  | [] => return
  | c :: l => do
      putch c a
      putchs a l

def getch (a : Queue) : Call Byte := do
  let c ← .reads fun s => ((s.queue a).getch).1
  .modify fun s => s.setQueue a ((s.queue a).getch).2
  return c

def setStopped (n : Nat) (v : Bool) : Call Unit :=
  .modify fun s => { s with stopped := fun x => if x = n then v else s.stopped x }

/-! ### `copy_to_cooked` -/

/-- `tolower`. -/
def tolower (c : Byte) : Byte := if 65 ≤ c ∧ c ≤ 90 then c + 32 else c

/-- CR, NL and upper case; `none` is `continue`. -/
def translate (t : Termios) (c : Byte) : Option Byte :=
  let lower := fun c => if t.iuclc then tolower c else c
  if c = 13 then
    if t.icrnl then some (lower 10) else if t.igncr then none else some (lower c)
  else if c = 10 ∧ t.inlcr then some (lower 13)
  else some (lower c)

/-- `c` is the control character `d`, which is not disabled. -/
def isChar (d c : Byte) : Bool := d != POSIX_VDISABLE && c == d

/-- There is nothing to erase on the line. -/
def atStart (s : Ttys) (n : Nat) : Bool :=
  let q := s.queue (.secondary n)
  q.empty || q.last == 10 || isChar (s.termios n).eof q.last

/-- `DEC(tty->secondary->head)`. -/
def dec (n : Nat) : Call Unit :=
  .modify fun s => s.setQueue (.secondary n) { s.queue (.secondary n) with head := (s.queue (.secondary n)).head - 1 }

/-- A character is taken off the screen; `c` tells whether it takes two places. -/
def echoErase (write : Nat → Call Unit) (n : Nat) (c : Byte) : Call Unit := do
  if ← .reads (fun s => (s.termios n).echo) then
    putchs (.writeQ n) (if c < 32 then [127, 127] else [127])
    write n

/-- "deal with killing the input line". -/
def killLine (write : Nat → Call Unit) (n : Nat) : Nat → Call Unit
  | 0 => .halt .busy
  | k + 1 => do
      if ← .reads (atStart · n) then return
      else
        let c ← .reads fun s => (s.queue (.secondary n)).last
        echoErase write n c
        dec n
        killLine write n k

/-- What is echoed for `c`. -/
def echoed (t : Termios) (c : Byte) : List Byte :=
  if (t.echo || t.echonl) && c == 10 then [10, 13]
  else if t.echo then
    if c < 32 && t.echoctl then [94, c + 64] else [c]
  else []

/-- `tty->secondary->data++`, for a character that ends a line. -/
def countLine (n : Nat) (t : Termios) (c : Byte) (s : Ttys) : Ttys :=
  let q := s.queue (.secondary n)
  s.setQueue (.secondary n) { q with data := if c == 10 || isChar t.eof c then q.data + 1 else q.data }

/-- What `copy_to_cooked` does with a character. -/
def cookChar (write : Nat → Call Unit) (n k : Nat) (c : Byte) : Call Unit := do
  let t ← .reads fun s => s.termios n
  if t.icanon && isChar t.kill c then
    killLine write n k
  else if t.icanon && isChar t.erase c then
    if ← .reads (atStart · n) then return
    else
      let c ← .reads fun s => (s.queue (.secondary n)).last
      echoErase write n c
      dec n
  else if t.ixon && isChar t.stop c then
    setStopped n true
    write n
  else if t.ixon && isChar t.start c then
    setStopped n false
    write n
  else if t.isig && (isChar t.intr c || isChar t.quit c || isChar t.susp c) then
    return
  else
    .modify (countLine n t c)
    putchs (.writeQ n) (echoed t c)
    write n
    putch c (.secondary n)

/-- The loop of `copy_to_cooked`. -/
def cookLoop (write : Nat → Call Unit) (n : Nat) : Nat → Call Unit
  | 0 => .halt .busy
  | k + 1 => do
      if ← .reads (fun s => (s.queue (.readQ n)).empty || (s.queue (.secondary n)).full) then return
      else
        let c ← getch (.readQ n)
        match ← .reads (fun s => translate (s.termios n) c) with
        | none => cookLoop write n k
        | some c =>
            cookChar write n k c
            cookLoop write n k

def copyToCooked (write : Nat → Call Unit) (k n : Nat) : Call Unit := do
  cookLoop write n k
  wakeUp (.secondary n)

/-! ### `tty->write` -/

/-- The loop of `pty_copy`. -/
def ptyLoop (cook : Nat → Call Unit) (from' to' : Nat) : Nat → Call Unit
  | 0 => .halt .busy
  | k + 1 => do
      if ← .reads (fun s => s.stopped from' || (s.queue (.writeQ from')).empty) then return
      else if ← .reads (fun s => (s.queue (.readQ to')).full) then
        if ← .reads (fun s => (s.queue (.secondary to')).full) then return
        else
          cook to'
          ptyLoop cook from' to' k
      else
        let c ← getch (.writeQ from')
        putch c (.readQ to')
        if ← .reads Ttys.signal then return
        else ptyLoop cook from' to' k

def ptyCopy (cook : Nat → Call Unit) (k from' to' : Nat) : Call Unit := do
  ptyLoop cook from' to' k
  cook to'
  wakeUp (.writeQ from')

/-- `respond`. -/
def respond (cook : Nat → Call Unit) (n : Nat) : Call Unit := do
  putchs (.readQ n) RESPONSE
  cook n

/-- The loop of `con_write`. -/
def conLoop (cook : Nat → Call Unit) (n : Nat) : Nat → Call Unit
  | 0 => return
  | nr + 1 => do
      if ← .reads (fun s => s.stopped n) then return
      else
        let c ← getch (.writeQ n)
        let v ← .reads fun s => s.vc n
        .modify fun s => { s with
          vc := fun x => if x = n then v.next c else s.vc x
          termios := fun x => if x = n ∧ v.resets c then DEF_TERMIOS else s.termios x }
        if v.responds c then
          respond cook n
          conLoop cook n nr
        else conLoop cook n nr

def conWrite (cook : Nat → Call Unit) (n : Nat) : Call Unit := do
  wakeUp (.writeQ n)
  if n ≥ MAX_CONSOLES then return
  else
    let nr ← .reads fun s => (s.queue (.writeQ n)).chars
    conLoop cook n nr

/-- `IS_A_SERIAL`, of the index in `tty_table`. -/
def isASerial (n : Nat) : Bool := 64 ≤ n && n < 128

/-- `tty->write`. `rs_write` only turns the transmit interrupt on. -/
def write (cook : Nat → Call Unit) (k n : Nat) : Call Unit :=
  if n < 64 then conWrite cook n
  else if isASerial n then return
  else if n < 192 then ptyCopy cook k n (n + 64)
  else ptyCopy cook k n (n - 64)

/-- `copy_to_cooked`, with what it calls; `k` bounds the depth and the length of all loops. -/
def cooked : Nat → Nat → Call Unit
  | 0, _ => .halt .busy
  | k + 1, n => copyToCooked (write (cooked k) k) k n

/-- `tty->write(tty)`, with what it calls. -/
def written (k n : Nat) : Call Unit := write (cooked k) k n

/-! ## What is ready has been announced -/

/-- What somebody may wait for: input, or room for output. -/
def Ttys.ready (s : Ttys) : Queue → Bool
  | .readQ _ => false
  | .writeQ n => !(s.queue (.writeQ n)).full
  | .secondary n => !(s.queue (.secondary n)).empty

/-- The queue of characters to be sent over a serial line, which the interrupt handler looks after. -/
def Queue.serial : Queue → Prop
  | .writeQ n => isASerial n = true
  | _ => False

/-- **Each queue that is ready is one of `R`, or has been woken**; those of `W` have been woken in any case. -/
structure Tells (R : Queue → Prop) (W : List Queue) (s : Ttys) : Prop where
  told : ∀ a, s.ready a = true → ¬ a.serial → R a ∨ a ∈ s.woken
  woken : ∀ a ∈ W, a ∈ s.woken

/-- A call that keeps what it tells. -/
def Keeps (m : Call α) : Prop := ∀ R W s, Tells R W s → m.Ends s (fun _ => True) fun _ s' => Tells R W s'

/-- A call that wakes `a` when there is need. -/
def Pays (a : Queue) (m : Call Unit) : Prop :=
  ∀ R W s, Tells (fun b => R b ∨ b = a) W s → m.Ends s (fun _ => True) fun _ s' => Tells R W s'

section
variable {R : Queue → Prop} {W : List Queue} {s : Ttys} {a : Queue}

theorem Tells.weaken {R' : Queue → Prop} (h : Tells R W s) (hR : ∀ b, R b → R' b) : Tells R' W s :=
  ⟨fun b hb hs => (h.told b hb hs).imp_left (hR b), h.woken⟩

/-- A queue that is announced, or that nobody waits for, may change. -/
theorem Tells.setQueue (h : Tells R W s) (q : TtyQueue) (ha : R a ∨ a ∈ W ∨ ∃ n, a = .readQ n) :
    Tells R W (s.setQueue a q) := by
  refine ⟨fun b hb hs => ?_, h.woken⟩
  by_cases hba : b = a
  · rcases ha with ha | ha | ⟨n, rfl⟩
    · exact .inl (hba ▸ ha)
    · exact .inr (hba ▸ h.woken a ha)
    · rw [hba] at hb
      exact absurd hb Bool.false_ne_true
  · refine h.told b ?_ hs
    have hqueue : (s.setQueue a q).queue b = s.queue b := if_neg hba
    rw [← hb]
    unfold Ttys.ready
    cases b <;> simp only [hqueue]

theorem Tells.wake (h : Tells (fun b => R b ∨ b = a) W s) : Tells R (a :: W) { s with woken := a :: s.woken } := by
  refine ⟨fun b hb hs => ?_, fun b hb => ?_⟩
  · rcases h.told b hb hs with (hR | rfl) | hw
    · exact .inl hR
    · exact .inr List.mem_cons_self
    · exact .inr (List.mem_cons_of_mem _ hw)
  · rcases List.mem_cons.mp hb with rfl | hb
    · exact List.mem_cons_self
    · exact List.mem_cons_of_mem _ (h.woken b hb)

theorem putch_tells (h : Tells R W s) (c : Byte) (ha : R a ∨ a ∈ W ∨ ∃ n, a = .readQ n) :
    (putch c a).Ends s (fun _ => True) fun _ s' => Tells R W s' :=
  .modify (h.setQueue _ ha)

theorem putchs_tells (h : Tells R W s) (l : List Byte) (ha : R a ∨ a ∈ W ∨ ∃ n, a = .readQ n) :
    (putchs a l).Ends s (fun _ => True) fun _ s' => Tells R W s' := by
  induction l generalizing s with
  | nil => exact .pure h
  | cons c l ih => exact .then_ (putch_tells h c ha) fun _ _ h => ih h

theorem getch_tells (h : Tells R W s) (ha : R a ∨ a ∈ W ∨ ∃ n, a = .readQ n) :
    (getch a).Ends s (fun _ => True) fun _ s' => Tells R W s' :=
  .bind (.reads (.bind (.modify (.pure (h.setQueue _ ha)))))

theorem wakeUp_tells (h : Tells (fun b => R b ∨ b = a) W s) :
    (wakeUp a).Ends s (fun _ => True) fun _ s' => Tells R (a :: W) s' :=
  .modify h.wake

theorem setStopped_tells (h : Tells R W s) (n : Nat) (v : Bool) :
    (setStopped n v).Ends s (fun _ => True) fun _ s' => Tells R W s' :=
  .modify ⟨h.told, h.woken⟩

end

theorem Tells.drop {R : Queue → Prop} {W : List Queue} {s : Ttys} {a : Queue} (h : Tells R (a :: W) s) : Tells R W s :=
  ⟨h.told, fun b hb => h.woken b (List.mem_cons_of_mem _ hb)⟩

/-! ### `copy_to_cooked` -/

section
variable {write cook : Nat → Call Unit}

theorem echoErase_keeps {n : Nat} (hw : Pays (.writeQ n) (write n)) (c : Byte) : Keeps (echoErase write n c) := by
  intro R W s h
  refine .bind (.reads ?_)
  split
  · have h' : Tells (fun b => R b ∨ b = .writeQ n) W s := h.weaken fun _ => .inl
    refine .then_ (putchs_tells h' _ (.inl (.inr rfl))) fun _ s₁ h₁ => ?_
    exact hw R W s₁ h₁
  · exact .pure h

theorem killLine_tells {n : Nat} (hw : Pays (.writeQ n) (write n)) {R : Queue → Prop} {W : List Queue} {s : Ttys}
    (h : Tells R W s) (hn : R (.secondary n)) (k : Nat) :
    (killLine write n k).Ends s (fun _ => True) fun _ s' => Tells R W s' := by
  induction k generalizing s with
  | zero => exact .halt trivial
  | succ k ih =>
      refine .bind (.reads ?_)
      split
      · exact .pure h
      · refine .bind (.reads ?_)
        refine .then_ (echoErase_keeps hw _ R W s h) fun _ s₁ h₁ => ?_
        exact .bind (.modify (ih (h₁.setQueue _ (.inl hn))))

theorem cookChar_tells {n : Nat} (hw : Pays (.writeQ n) (write n)) {R : Queue → Prop} {W : List Queue} {s : Ttys}
    (h : Tells R W s) (hn : R (.secondary n)) (k : Nat) (c : Byte) :
    (cookChar write n k c).Ends s (fun _ => True) fun _ s' => Tells R W s' := by
  -- `write` pays for a queue that has not changed, too
  have hwrite : ∀ s, Tells R W s → (write n).Ends s (fun _ => True) fun _ s' => Tells R W s' :=
    fun s h => hw R W s (h.weaken fun _ => .inl)
  refine .bind (.reads ?_)
  split
  · exact killLine_tells hw h hn k
  · split
    · refine .bind (.reads ?_)
      split
      · exact .pure h
      · refine .bind (.reads ?_)
        refine .then_ (echoErase_keeps hw _ R W s h) fun _ s₁ h₁ => ?_
        exact .modify (h₁.setQueue _ (.inl hn))
    · split
      · exact .then_ (setStopped_tells h n true) fun _ s₁ h₁ => hwrite s₁ h₁
      · split
        · exact .then_ (setStopped_tells h n false) fun _ s₁ h₁ => hwrite s₁ h₁
        · split
          · exact .pure h
          · refine .bind (.modify ?_)
            have h₁ : Tells R W (countLine n (s.termios n) c s) := h.setQueue _ (.inl hn)
            have h₁' : Tells (fun b => R b ∨ b = .writeQ n) W (countLine n (s.termios n) c s) := h₁.weaken fun _ => .inl
            refine .then_ (putchs_tells h₁' _ (.inl (.inr rfl))) fun _ s₂ h₂ => ?_
            refine .then_ (hw R W s₂ h₂) fun _ s₃ h₃ => ?_
            exact putch_tells h₃ c (.inl hn)

theorem cookLoop_tells {n : Nat} (hw : Pays (.writeQ n) (write n)) {R : Queue → Prop} {W : List Queue} {s : Ttys}
    (h : Tells R W s) (hn : R (.secondary n)) (k : Nat) :
    (cookLoop write n k).Ends s (fun _ => True) fun _ s' => Tells R W s' := by
  induction k generalizing s with
  | zero => exact .halt trivial
  | succ k ih =>
      refine .bind (.reads ?_)
      split
      · exact .pure h
      · refine .then_ (getch_tells h (.inr (.inr ⟨n, rfl⟩))) fun c s₁ h₁ => ?_
        refine .bind (.reads ?_)
        cases translate (s₁.termios n) c with
        | none => exact ih h₁
        | some c => exact .then_ (cookChar_tells hw h₁ hn k c) fun _ s₂ h₂ => ih h₂

theorem copyToCooked_keeps {n : Nat} (hw : Pays (.writeQ n) (write n)) (k : Nat) : Keeps (copyToCooked write k n) := by
  intro R W s h
  have h' : Tells (fun b => R b ∨ b = .secondary n) W s := h.weaken fun _ => .inl
  refine .then_ (cookLoop_tells hw h' (.inr rfl) k) fun _ s₁ h₁ => ?_
  exact (wakeUp_tells h₁).mono fun _ _ h₂ => h₂.drop

/-! ### `tty->write` -/

theorem ptyLoop_tells (hc : ∀ n, Keeps (cook n)) {R : Queue → Prop} {W : List Queue} {s : Ttys} {from' to' : Nat}
    (h : Tells R W s) (hn : R (.writeQ from')) (k : Nat) :
    (ptyLoop cook from' to' k).Ends s (fun _ => True) fun _ s' => Tells R W s' := by
  induction k generalizing s with
  | zero => exact .halt trivial
  | succ k ih =>
      refine .bind (.reads ?_)
      split
      · exact .pure h
      · refine .bind (.reads ?_)
        split
        · refine .bind (.reads ?_)
          split
          · exact .pure h
          · exact .then_ (hc to' R W s h) fun _ s₁ h₁ => ih h₁
        · refine .then_ (getch_tells h (.inl hn)) fun c s₁ h₁ => ?_
          refine .then_ (putch_tells h₁ c (.inr (.inr ⟨to', rfl⟩))) fun _ s₂ h₂ => ?_
          refine .bind (.reads ?_)
          split
          · exact .pure h₂
          · exact ih h₂

theorem ptyCopy_pays (hc : ∀ n, Keeps (cook n)) (k from' to' : Nat) :
    Pays (.writeQ from') (ptyCopy cook k from' to') := by
  intro R W s h
  refine .then_ (ptyLoop_tells hc h (.inr rfl) k) fun _ s₁ h₁ => ?_
  refine .then_ (hc to' _ W s₁ h₁) fun _ s₂ h₂ => ?_
  exact (wakeUp_tells h₂).mono fun _ _ h₃ => h₃.drop

theorem respond_keeps (hc : ∀ n, Keeps (cook n)) (n : Nat) : Keeps (respond cook n) := by
  intro R W s h
  exact .then_ (putchs_tells h RESPONSE (.inr (.inr ⟨n, rfl⟩))) fun _ s₁ h₁ => hc n R W s₁ h₁

theorem conLoop_tells (hc : ∀ n, Keeps (cook n)) {R : Queue → Prop} {W : List Queue} {s : Ttys} {n : Nat}
    (h : Tells R W s) (hn : .writeQ n ∈ W) (nr : Nat) :
    (conLoop cook n nr).Ends s (fun _ => True) fun _ s' => Tells R W s' := by
  induction nr generalizing s with
  | zero => exact .pure h
  | succ nr ih =>
      refine .bind (.reads ?_)
      split
      · exact .pure h
      · refine .then_ (getch_tells h (.inr (.inl hn))) fun c s₁ h₁ => ?_
        refine .bind (.reads (.bind (.modify ?_)))
        split
        · exact .then_ (respond_keeps hc n R W _ ⟨h₁.told, h₁.woken⟩) fun _ s₂ h₂ => ih h₂
        · exact ih ⟨h₁.told, h₁.woken⟩

theorem conWrite_pays (hc : ∀ n, Keeps (cook n)) (n : Nat) : Pays (.writeQ n) (conWrite cook n) := by
  intro R W s h
  refine .then_ (wakeUp_tells h) fun _ s₁ h₁ => ?_
  split
  · exact .pure h₁.drop
  · exact .bind (.reads ((conLoop_tells hc h₁ List.mem_cons_self _).mono fun _ _ h₂ => h₂.drop))

theorem write_pays (hc : ∀ n, Keeps (cook n)) (k n : Nat) : Pays (.writeQ n) (ChrDrv.write cook k n) := by
  unfold ChrDrv.write
  split
  · exact conWrite_pays hc n
  · split
    · rename_i hserial
      intro R W s h
      refine .pure ⟨fun b hb hs => (h.told b hb hs).imp_left fun hR => hR.resolve_right ?_, h.woken⟩
      rintro rfl
      exact hs hserial
    · split
      · exact ptyCopy_pays hc k n _
      · exact ptyCopy_pays hc k n _

end

/-- **`copy_to_cooked` announces what it has made ready.** -/
theorem cooked_keeps (k n : Nat) : Keeps (cooked k n) := by
  induction k generalizing n with
  | zero => exact fun _ _ _ _ => .halt trivial
  | succ k ih => exact copyToCooked_keeps (write_pays ih k n) k

/-- **`tty->write` announces what it has made ready**, and what its caller has. -/
theorem written_pays (k n : Nat) : Pays (.writeQ n) (written k n) := write_pays (cooked_keeps k) k n

end ChrDrv
end Linux095
