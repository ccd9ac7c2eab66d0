import Linux095.ChrDrv.Tty
import Mathlib.Logic.Relation

/-!
# `ChrDrv.Output` — output translation (`kernel/chr_drv/tty_io.c`)

Any number of processes write to any terminals. `tty_write` puts a newline into the queue in two rounds of its loop, the
carriage return first, and goes to sleep when the queue is full, which may be between the two. What it remembers of the
first round is in `cr_flag`, which is one variable for all calls and all terminals.

* `translated` — what is to become of a byte; `roundChar` — one round of the source's loop;
* `Step` — one step of one process, with all places where it may sleep;
* `output_translated` — **what a call puts into the queue is the translation of what it has taken**, in all runs in
  which `cr_flag`, where a call comes to a newline, tells of this very call;
* `newline_alone` — a run in which it tells of another.
-/

namespace Linux095
namespace ChrDrv
namespace Output

open Relation

/-- The flags in `c_oflag`. -/
structure Oflag where
  opost : Bool
  ocrnl : Bool
  onlret : Bool
  onlcr : Bool
  olcuc : Bool

/-- `toupper`. -/
def toupper (c : Byte) : Byte := if 97 ≤ c ∧ c ≤ 122 then c - 32 else c

/-- OCRNL and ONLRET. -/
def Oflag.mapped (t : Oflag) (c : Byte) : Byte :=
  if c = 13 ∧ t.ocrnl then 10 else if c = 10 ∧ t.onlret then 13 else c

/-- OLCUC. -/
def Oflag.upper (t : Oflag) (c : Byte) : Byte := if t.olcuc then toupper c else c

/-- A carriage return goes before `c`. -/
def Oflag.expands (t : Oflag) (c : Byte) : Bool := t.opost && t.onlcr && t.mapped c == 10

/-- What is put for `c` in the end. -/
def Oflag.final (t : Oflag) (c : Byte) : Byte := if t.opost then t.upper (t.mapped c) else c

/-- **What is to become of a byte.** -/
def translated (t : Oflag) (c : Byte) : List Byte := if t.expands c then [13, t.final c] else [t.final c]

/-- What a round of the loop in `tty_write` puts, and whether it goes on to the next byte; `cr_flag` is set if it does
not. -/
def roundChar (t : Oflag) (crFlag : Bool) (c : Byte) : Byte × Bool :=
  if t.opost then
    if t.mapped c = 10 ∧ !crFlag ∧ t.onlcr then (13, false) else (t.upper (t.mapped c), true)
  else (c, true)

/-! ## Processes -/

/-- A call of `tty_write`. `put` and `half` are not variables of the source: what the call has put into the queue, and
whether it has put the carriage return of the newline it has come to. -/
structure Writing where
  tty : Nat
  taken : List Byte
  rest : List Byte
  put : List Byte
  half : Bool

/-- After a round in which `d` has been put, and which goes on to the next byte or not. -/
def Writing.round (w : Writing) (d b : Byte) (rest : List Byte) : Bool → Writing
  | true => { w with taken := w.taken ++ [b], rest := rest, put := w.put ++ [d], half := false }
  | false => { w with put := w.put ++ [d], half := true }

/-- Where a process is. -/
inductive Proc where
  | idle
  /-- Before `sleep_if_full`. -/
  | top (w : Writing)
  /-- In its loop. -/
  | asleep (w : Writing)
  /-- Before the test of the inner loop. -/
  | inner (w : Writing)
  /-- In `get_fs_byte`, which sleeps if the page has to be brought in. -/
  | fetch (w : Writing)
  /-- Before `tty->write`, and then in `schedule`. -/
  | device (w : Writing)
  | returned (w : Writing)

/-- The call of a process. -/
def Proc.call : Proc → Option Writing
  | idle => none
  | top w | asleep w | inner w | fetch w | device w | returned w => some w

structure Config where
  crFlag : Bool
  writeQ : Nat → TtyQueue
  procs : Nat → Proc

namespace Config

def setProc (c : Config) (p : Nat) (q : Proc) : Config := { c with procs := fun x => if x = p then q else c.procs x }

def setQueue (c : Config) (n : Nat) (q : TtyQueue) : Config :=
  { c with writeQ := fun x => if x = n then q else c.writeQ x }

/-- One round of the inner loop, with the byte `b`. -/
def round (c : Config) (t : Oflag) (p : Nat) (w : Writing) (b : Byte) (rest : List Byte) : Config :=
  let r := roundChar t c.crFlag b
  { (c.setQueue w.tty ((c.writeQ w.tty).putch r.1)).setProc p (.inner (w.round r.1 b rest r.2)) with crFlag := !r.2 }

end Config

section

variable (oflag : Nat → Oflag)

/-- One step. A condition may be put on the bytes that are translated, and on the calls that a signal ends. -/
inductive Step (onByte : Config → Writing → Byte → Prop) (onSignal : Writing → Prop) : Config → Config → Prop
  | call {c : Config} (p tty : Nat) (buf : List Byte) (hp : c.procs p = .idle) :
      Step onByte onSignal c (c.setProc p (if buf = [] then .returned ⟨tty, [], buf, [], false⟩
        else .top ⟨tty, [], buf, [], false⟩))
  | pass {c : Config} (p : Nat) (w : Writing) (hp : c.procs p = .top w) (hfull : (c.writeQ w.tty).full = false) :
      Step onByte onSignal c (c.setProc p (.inner w))
  | sleep {c : Config} (p : Nat) (w : Writing) (hp : c.procs p = .top w) (hfull : (c.writeQ w.tty).full = true) :
      Step onByte onSignal c (c.setProc p (.asleep w))
  | wake {c : Config} (p : Nat) (w : Writing) (hp : c.procs p = .asleep w) (hleft : 128 ≤ (c.writeQ w.tty).left) :
      Step onByte onSignal c (c.setProc p (.inner w))
  | signal {c : Config} (p : Nat) (w : Writing) (hp : c.procs p = .top w ∨ c.procs p = .asleep w) (hok : onSignal w) :
      Step onByte onSignal c (c.setProc p (.returned w))
  | test {c : Config} (p : Nat) (w : Writing) (hp : c.procs p = .inner w) :
      Step onByte onSignal c (c.setProc p (if w.rest = [] ∨ (c.writeQ w.tty).full then .device w else .fetch w))
  | round {c : Config} (p : Nat) (w : Writing) (b : Byte) (rest : List Byte) (hp : c.procs p = .fetch w)
      (hrest : w.rest = b :: rest) (hok : onByte c w b) :
      Step onByte onSignal c (c.round (oflag w.tty) p w b rest)
  | written {c : Config} (p : Nat) (w : Writing) (hp : c.procs p = .device w) :
      Step onByte onSignal c (c.setProc p (if w.rest = [] then .returned w else .top w))
  | reuse {c : Config} (p : Nat) (w : Writing) (hp : c.procs p = .returned w) :
      Step onByte onSignal c (c.setProc p .idle)
  /-- The device takes characters out of a queue, and others put some in. -/
  | device {c : Config} (n : Nat) (q : TtyQueue) : Step onByte onSignal c (c.setQueue n q)

/-- `cr_flag` at a newline: this call has put its carriage return. -/
def Told (c : Config) (w : Writing) (b : Byte) : Prop := (oflag w.tty).expands b = true → c.crFlag = w.half

/-- A signal does not come between a carriage return and its newline. -/
def Whole (w : Writing) : Prop := w.half = false

def init : Config := ⟨false, fun _ => .init, fun _ => .idle⟩

/-- **What a call has put is the translation of what it has taken**, and, before it returns, perhaps the carriage return
of the newline that is next. -/
def Faithful (c : Config) : Prop :=
  ∀ p w, (c.procs p).call = some w →
    w.put = w.taken.flatMap (translated (oflag w.tty)) ∨
      c.procs p ≠ .returned w ∧ w.put = w.taken.flatMap (translated (oflag w.tty)) ++ [13] ∧
        ∃ b rest, w.rest = b :: rest ∧ (oflag w.tty).expands b = true

/-! ## The invariant -/

/-- What a call has put so far. -/
structure Good (w : Writing) : Prop where
  put : w.put = w.taken.flatMap (translated (oflag w.tty)) ++ if w.half then [13] else []
  next : w.half = true → ∃ b rest, w.rest = b :: rest ∧ (oflag w.tty).expands b = true

/-- All calls are good, and those that have returned are not in the middle of a newline. -/
structure Inv (c : Config) : Prop where
  good : ∀ p w, (c.procs p).call = some w → Good oflag w
  whole : ∀ p w, c.procs p = .returned w → w.half = false

theorem Inv.faithful {oflag : Nat → Oflag} {c : Config} (h : Inv oflag c) : Faithful oflag c := by
  intro p w hw
  obtain ⟨hput, hnext⟩ := h.good p w hw
  cases hhalf : w.half with
  | false =>
      rw [hhalf, if_neg Bool.false_ne_true, List.append_nil] at hput
      exact .inl hput
  | true =>
      rw [hhalf, if_pos rfl] at hput
      refine .inr ⟨fun hret => ?_, hput, hnext hhalf⟩
      rw [h.whole p w hret] at hhalf
      cases hhalf

end

section

variable {oflag : Nat → Oflag} {c c' : Config} {p : Nat} {w : Writing}

/-- A process goes on to `q`. -/
theorem Inv.setProc (h : Inv oflag c) {q : Proc} (hq : ∀ w, q.call = some w → Good oflag w)
    (hret : ∀ w, q = .returned w → w.half = false) : Inv oflag (c.setProc p q) := by
  refine ⟨fun x w hw => ?_, fun x w hw => ?_⟩ <;> dsimp only [Config.setProc] at hw <;> split at hw
  · exact hq w hw
  · exact h.good x w hw
  · exact hret w hw
  · exact h.whole x w hw

/-- A process goes on in the same call, which does not return. -/
theorem Inv.goOn (h : Inv oflag c) (hcall : (c.procs p).call = some w) {q : Proc} (hq : q.call = some w)
    (hret : ∀ w, q ≠ .returned w) : Inv oflag (c.setProc p q) := by
  refine h.setProc (fun w' hw' => ?_) fun w' hw' => absurd hw' (hret w')
  rw [← Option.some.inj (hq.symm.trans hw')]
  exact h.good p w hcall

/-- A call returns. -/
theorem Inv.return_ (h : Inv oflag c) (hcall : (c.procs p).call = some w) (hhalf : w.half = false) :
    Inv oflag (c.setProc p (.returned w)) := by
  refine h.setProc (fun w' hw' => ?_) fun w' hw' => ?_
  · rw [← Option.some.inj hw']
    exact h.good p w hcall
  · rw [← Proc.returned.inj hw']
    exact hhalf

/-- Only the processes count. -/
theorem Inv.congr (h : Inv oflag c) (hprocs : c'.procs = c.procs) : Inv oflag c' := by
  refine ⟨fun p w hw => ?_, fun p w hw => ?_⟩ <;> rw [hprocs] at hw
  · exact h.good p w hw
  · exact h.whole p w hw

/-- The first round for a byte that is expanded puts the carriage return, and the second the byte. -/
theorem roundChar_expands {t : Oflag} {b : Byte} (h : t.expands b = true) (crFlag : Bool) :
    roundChar t crFlag b = if crFlag then (t.final b, true) else (13, false) := by
  unfold Oflag.expands at h
  rw [Bool.and_eq_true, Bool.and_eq_true, beq_iff_eq] at h
  obtain ⟨⟨hpost, hnlcr⟩, hnl⟩ := h
  unfold roundChar Oflag.final
  rw [if_pos hpost, if_pos hpost]
  cases crFlag with
  | false => exact if_pos ⟨hnl, rfl, hnlcr⟩
  | true => exact if_neg fun hand => Bool.false_ne_true hand.2.1

/-- Any other byte is put in one round. -/
theorem roundChar_plain {t : Oflag} {b : Byte} (h : t.expands b = false) (crFlag : Bool) :
    roundChar t crFlag b = (t.final b, true) := by
  unfold roundChar Oflag.final
  split
  · next hpost =>
      refine if_neg fun ⟨hnl, _, hnlcr⟩ => ?_
      unfold Oflag.expands at h
      rw [hpost, hnlcr, hnl] at h
      cases h
  · rfl

theorem translated_expands {t : Oflag} {b : Byte} (h : t.expands b = true) : translated t b = [13, t.final b] :=
  if_pos h

theorem translated_plain {t : Oflag} {b : Byte} (h : t.expands b = false) : translated t b = [t.final b] :=
  if_neg (Bool.eq_false_iff.1 h)

/-- One round of the loop, where `cr_flag` tells of this call. -/
theorem Good.round (h : Good oflag w) {b : Byte} {rest : List Byte} (hrest : w.rest = b :: rest)
    (htold : Told oflag c w b) :
    Good oflag (w.round (roundChar (oflag w.tty) c.crFlag b).1 b rest (roundChar (oflag w.tty) c.crFlag b).2) := by
  obtain ⟨hput, hnext⟩ := h
  cases hexp : (oflag w.tty).expands b with
  | true =>
      rw [roundChar_expands hexp, htold hexp]
      cases hhalf : w.half with
      | false =>
          rw [hhalf, if_neg Bool.false_ne_true, List.append_nil] at hput
          refine ⟨?_, fun _ => ⟨b, rest, hrest, hexp⟩⟩
          exact congrArg (· ++ [13]) hput
      | true =>
          rw [hhalf, if_pos rfl] at hput
          refine ⟨?_, fun hfalse => absurd hfalse Bool.false_ne_true⟩
          have hwhole : w.put ++ [(oflag w.tty).final b] =
              (w.taken ++ [b]).flatMap (translated (oflag w.tty)) := by
            rw [hput, List.flatMap_append, List.flatMap_singleton, translated_expands hexp, List.append_assoc]
            rfl
          exact hwhole.trans (List.append_nil _).symm
  | false =>
      have hhalf : w.half = false := by
        cases hhalf : w.half with
        | false => rfl
        | true =>
            obtain ⟨b', rest', hrest', hexp'⟩ := hnext hhalf
            rw [hrest] at hrest'
            rw [← (List.cons.inj hrest').1, hexp] at hexp'
            cases hexp'
      rw [hhalf, if_neg Bool.false_ne_true, List.append_nil] at hput
      rw [roundChar_plain hexp]
      refine ⟨?_, fun hfalse => absurd hfalse Bool.false_ne_true⟩
      have hwhole : w.put ++ [(oflag w.tty).final b] = (w.taken ++ [b]).flatMap (translated (oflag w.tty)) := by
        rw [hput, List.flatMap_append, List.flatMap_singleton, translated_plain hexp]
      exact hwhole.trans (List.append_nil _).symm

theorem Inv.round (h : Inv oflag c) {b : Byte} {rest : List Byte} (hp : c.procs p = .fetch w)
    (hrest : w.rest = b :: rest) (htold : Told oflag c w b) : Inv oflag (c.round (oflag w.tty) p w b rest) := by
  have hgood : Good oflag w := h.good p w (by rw [hp]; rfl)
  have hqueue : ∀ q, Inv oflag (c.setQueue w.tty q) := fun q => h.congr rfl
  have hproc : Inv oflag ((c.setQueue w.tty ((c.writeQ w.tty).putch (roundChar (oflag w.tty) c.crFlag b).1)).setProc p
      (.inner (w.round (roundChar (oflag w.tty) c.crFlag b).1 b rest (roundChar (oflag w.tty) c.crFlag b).2))) := by
    refine (hqueue _).setProc (fun w' hw' => ?_) fun w' hw' => nomatch hw'
    rw [← Option.some.inj hw']
    exact hgood.round hrest htold
  exact hproc.congr rfl

theorem inv_step (h : Inv oflag c) (hstep : Step oflag (Told oflag) Whole c c') : Inv oflag c' := by
  cases hstep with
  | call p tty buf hp =>
      have hgood : Good oflag ⟨tty, [], buf, [], false⟩ := ⟨rfl, fun hfalse => nomatch hfalse⟩
      refine h.setProc (fun w hw => ?_) fun w hw => ?_ <;> split at hw
      · rw [← Option.some.inj hw]; exact hgood
      · rw [← Option.some.inj hw]; exact hgood
      · rw [← Proc.returned.inj hw]
      · cases hw
  | pass p w hp hfull => exact h.goOn (by rw [hp]; rfl) rfl fun _ => nofun
  | sleep p w hp hfull => exact h.goOn (by rw [hp]; rfl) rfl fun _ => nofun
  | wake p w hp hleft => exact h.goOn (by rw [hp]; rfl) rfl fun _ => nofun
  | signal p w hp hok =>
      have hcall : (c.procs p).call = some w := by rcases hp with hp | hp <;> rw [hp] <;> rfl
      exact h.return_ hcall hok
  | test p w hp =>
      split
      · exact h.goOn (by rw [hp]; rfl) rfl fun _ => nofun
      · exact h.goOn (by rw [hp]; rfl) rfl fun _ => nofun
  | round p w b rest hp hrest hok => exact h.round hp hrest hok
  | written p w hp =>
      have hcall : (c.procs p).call = some w := by rw [hp]; rfl
      split
      · next hrest =>
          refine h.return_ hcall ?_
          cases hhalf : w.half with
          | false => rfl
          | true =>
              obtain ⟨b, rest, hcons, -⟩ := (h.good p w hcall).next hhalf
              rw [hrest] at hcons
              cases hcons
      · exact h.goOn hcall rfl fun _ => nofun
  | reuse p w hp => exact h.setProc (fun w' hw' => nomatch hw') fun w' hw' => nomatch hw'
  | device n q => exact h.congr rfl

end

/-- **What a call puts is the translation of what it has taken**, if `cr_flag` tells of the call that comes to a
newline, and no call ends within one. -/
theorem output_translated (oflag : Nat → Oflag) (c : Config)
    (h : ReflTransGen (Step oflag (Told oflag) Whole) init c) : Faithful oflag c := by
  have hinv : Inv oflag c := by
    induction h with
    | refl => exact ⟨fun _ _ hw => (nomatch hw), fun _ _ hw => (nomatch hw)⟩
    | tail _ hstep ih => exact inv_step ih hstep
  exact hinv.faithful

/-- The flags of a console. -/
def CON_OFLAG : Oflag := ⟨true, false, false, true, false⟩

/-- A queue with room for one character. -/
def almostFull : TtyQueue := { TtyQueue.init with head := ⟨1022, by decide⟩ }

/-- A call that writes a newline by itself. -/
theorem output_translated_newline :
    ∃ c, Faithful (fun _ => CON_OFLAG) c ∧ c.procs 0 = .returned ⟨0, [10], [], [13, 10], false⟩ := by
  have hrun : ReflTransGen (Step (fun _ => CON_OFLAG) (Told fun _ => CON_OFLAG) Whole) init _ :=
    ((((((((ReflTransGen.refl
      ).tail (.call 0 0 [10] rfl)
      ).tail (.pass 0 _ rfl rfl)
      ).tail (.test 0 _ rfl)
      ).tail (.round 0 _ 10 [] rfl rfl fun _ => rfl)
      ).tail (.test 0 _ rfl)
      ).tail (.round 0 _ 10 [] rfl rfl fun _ => rfl)
      ).tail (.test 0 _ rfl)
      ).tail (.written 0 _ rfl)
  exact ⟨_, output_translated _ _ hrun, rfl⟩

/-- **The newline of another call is put without its carriage return**: the queue of the first is full after its own. -/
theorem newline_alone : ¬ ∀ (oflag : Nat → Oflag) (c : Config),
    ReflTransGen (Step oflag (fun _ _ _ => True) fun _ => True) init c → Faithful oflag c := by
  intro h
  have hrun : ReflTransGen (Step (fun _ => CON_OFLAG) (fun _ _ _ => True) fun _ => True) init _ :=
    ((((((((((((((ReflTransGen.refl
      ).tail (.device 0 almostFull)
      ).tail (.call 0 0 [10] rfl)
      ).tail (.pass 0 _ rfl rfl)
      ).tail (.test 0 _ rfl)
      ).tail (.round 0 _ 10 [] rfl rfl trivial)
      ).tail (.test 0 _ rfl)
      ).tail (.written 0 _ rfl)
      ).tail (.sleep 0 _ rfl rfl)
      ).tail (.call 1 1 [10] rfl)
      ).tail (.pass 1 _ rfl rfl)
      ).tail (.test 1 _ rfl)
      ).tail (.round 1 _ 10 [] rfl rfl trivial)
      ).tail (.test 1 _ rfl)
      ).tail (.written 1 _ rfl)
  rcases h _ _ hrun 1 ⟨1, [10], [], [10], false⟩ rfl with hput | ⟨hret, -⟩
  · exact absurd hput (by decide)
  · exact hret rfl

end Output
end ChrDrv
end Linux095
