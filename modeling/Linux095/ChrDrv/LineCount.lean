import Linux095.ChrDrv.LineDisc

/-!
# `ChrDrv.LineCount` — the line count of a terminal (`secondary->data`)

`copy_to_cooked` counts a line when it takes its terminator, and `tty_read` counts it back when it hands the terminator
over. Nobody else looks at the counter, so whatever else adds or removes terminators leaves it stale: a flush of the
input, another EOF character, and a `tty->write` that comes back to `copy_to_cooked` while the call that waits for it is
about to erase a character, or to put one it has counted.

* `After.sound` — what a call relies on when `tty->write` comes back;
* `CountOk` — the steps that leave the terminators alone;
* `Counted`, `counted_step` — the counter is right, up to what has been counted and not yet put;
* `line_count` — **so it is in all runs of such steps**, and a canonical reader sleeps and wakes as it should;
* `line_count_stale` — a run with a flush.
-/

namespace Linux095
namespace ChrDrv
namespace LineDisc

/-- A call can go on as if `tty->write` had done nothing: a character that is to go is still there, one that is to come
has room, and it is a terminator if and only if it has been counted. -/
def After.sound (l : Line) : After → Bool
  | .loop => true
  | .dec _ => !l.atStart
  | .put c counted => !l.secondary.full && counted == ends l.termios c

/-- The character to come has been counted. -/
def After.counted : After → Bool
  | .put _ counted => counted
  | _ => false

def Frame.counted : Frame → Bool
  | .writing a _ => a.counted
  | _ => false

/-- The terminators that have been counted and not yet put. -/
def Config.pending (s : Config) : Nat :=
  match s.active with
  | none => 0
  | some ⟨top, outer⟩ => top.counted.toNat + outer.countP After.counted

/-- The terminators in `secondary`, if the termios were `t`. -/
def Line.terminatorsUnder (l : Line) (t : Termios) : Nat := l.secondary.list.countP (ends t)

/-- **The steps that do not make the counter stale**: the input is flushed only when no line is complete, new termios
leave the number of terminators as it is, also those of ESC c, and where `tty->write` has come back to `copy_to_cooked`,
that has not touched what the call that waited relies on. -/
def CountOk (s : Config) : Event → Bool
  | .run =>
      match s.active with
      | some ⟨.writing a true, _⟩ => a.sound s.line
      | _ => true
  | .drain =>
      s.line.device != .console || !s.line.vc.resets s.line.writeQ.getch.1 ||
        s.line.terminatorsUnder DEF_TERMIOS == s.line.terminators
  | .flushInput => s.line.terminators == 0
  | .setTermios t => s.line.terminatorsUnder t == s.line.terminators
  | _ => true

/-! ## The invariant -/

/-- **The counter is right**, and a call that has not been disturbed can go on. -/
structure Counted (s : Config) : Prop where
  count : s.line.secondary.data = BitVec.ofNat 32 (s.line.terminators + s.pending)
  sound : ∀ a outer, s.active = some ⟨.writing a false, outer⟩ → a.sound s.line = true

section
variable {s s' : Config} {outer : List After} {f : Frame}

/-- A call relies on `secondary` and the termios only. -/
theorem sound_congr {l l' : Line} (hq : l'.secondary = l.secondary) (ht : l'.termios = l.termios) (a : After) :
    a.sound l' = a.sound l := by
  cases a with
  | loop => rfl
  | dec kill =>
      show (!l'.atStart) = (!l.atStart)
      unfold Line.atStart
      rw [hq, ht]
  | put c counted =>
      show (!l'.secondary.full && counted == ends l'.termios c) = (!l.secondary.full && counted == ends l.termios c)
      rw [hq, ht]

/-- Only `secondary`, the termios and the calls count. -/
theorem Counted.congr (h : Counted s) (hq : s'.line.secondary = s.line.secondary)
    (ht : s'.line.termios = s.line.termios) (ha : s'.active = s.active) : Counted s' := by
  constructor
  · unfold Line.terminators Config.pending
    rw [hq, ht, ha]
    exact h.count
  · intro a outer hact
    rw [sound_congr hq ht]
    exact h.sound a outer (ha.symm.trans hact)

/-- The innermost call goes on to `f`. -/
theorem counted_goTo
    (hcount : s.line.secondary.data =
      BitVec.ofNat 32 (s.line.terminators + (f.counted.toNat + outer.countP After.counted)))
    (hsound : ∀ a, f = .writing a false → a.sound s.line = true) : Counted (s.goTo outer f) := by
  refine ⟨hcount, fun a o hact => ?_⟩
  injection hact with hact
  injection hact with hf ho
  exact hsound a hf

/-- … to a place where nothing of it is pending. -/
theorem counted_goTo_loop
    (hcount : s.line.secondary.data = BitVec.ofNat 32 (s.line.terminators + outer.countP After.counted))
    (hf : f = .loop ∨ f = .kill) : Counted (s.goTo outer f) := by
  apply counted_goTo
  · rcases hf with rfl | rfl <;> simpa [Frame.counted] using hcount
  · rintro a rfl
    rcases hf with hf | hf <;> cases hf

theorem pending_of (h : s.active = some ⟨f, outer⟩) : s.pending = f.counted.toNat + outer.countP After.counted := by
  unfold Config.pending
  rw [h]

/-! ## The queue -/

/-- `DEC` takes off what is no terminator. -/
theorem dec_terminators (l : Line) (h : l.atStart = false) :
    { l with secondary := l.secondary.dec }.terminators = l.terminators := by
  obtain ⟨hempty, hlast⟩ := Bool.or_eq_false_iff.1 h
  unfold Line.terminators
  rw [TtyQueue.list_dec hempty, List.countP_append, List.countP_singleton, hlast]
  rfl

theorem putch_terminators (l : Line) (c : Byte) (h : l.secondary.full = false) :
    { l with secondary := l.secondary.putch c }.terminators = l.terminators + (ends l.termios c).toNat := by
  unfold Line.terminators
  rw [TtyQueue.list_putch c h, List.countP_append, List.countP_singleton]
  cases ends l.termios c <;> rfl

/-- `data` is no part of what is in the queue. -/
theorem list_data (q : TtyQueue) (d : BitVec 32) : { q with data := d }.list = q.list := rfl

theorem ofNat_succ_sub (k : Nat) : BitVec.ofNat 32 (k + 1) - 1 = BitVec.ofNat 32 k := by
  rw [BitVec.ofNat_add]
  exact BitVec.add_sub_cancel _ _

/-- What a pass of `tty_read` leaves is counted as before. -/
theorem readLoop_count (t : Termios) (nr : Nat) {q : TtyQueue} (hempty : q.empty = false)
    (hdata : q.data = BitVec.ofNat 32 (q.list.countP (ends t))) :
    (readLoop t nr q).2.data = BitVec.ofNat 32 ((readLoop t nr q).2.list.countP (ends t)) := by
  induction nr generalizing q with
  | zero => exact hdata
  | succ nr ih =>
      -- the queue after GETCH and `data--`
      have hnext : ∀ q', q' = (if ends t q.getch.1 then { q.getch.2 with data := q.data - 1 } else q.getch.2) →
          q'.data = BitVec.ofNat 32 (q'.list.countP (ends t)) := by
        rintro q' rfl
        rw [TtyQueue.list_getch hempty, List.countP_cons] at hdata
        cases hends : ends t q.getch.1 with
        | true =>
            rw [hends, if_pos rfl] at hdata
            rw [if_pos rfl]
            show q.data - 1 = _
            rw [hdata, list_data]
            exact ofNat_succ_sub _
        | false =>
            rw [hends, if_neg Bool.false_ne_true, Nat.add_zero] at hdata
            rw [if_neg Bool.false_ne_true]
            exact hdata
      unfold readLoop
      dsimp only
      generalize hq' : (if ends t q.getch.1 then { q.getch.2 with data := q.data - 1 } else q.getch.2) = q'
      have hdata' := hnext q' hq'.symm
      split
      · exact hdata'
      · split
        · exact hdata'
        · next hgo =>
            have hne : q'.empty = false := by
              simp only [Bool.or_eq_true, not_or, Bool.not_eq_true] at hgo
              exact hgo.2
            exact ih hne hdata'

/-! ## One step -/

/-- A character is to go: it is no terminator. -/
theorem eraseChar_counted {kill : Bool}
    (hcount : s.line.secondary.data = BitVec.ofNat 32 (s.line.terminators + outer.countP After.counted))
    (hstart : s.line.atStart = false) : Counted (s.eraseChar outer kill) := by
  unfold Config.eraseChar
  split
  · apply counted_goTo
    · show s.line.secondary.data = BitVec.ofNat 32 (s.line.terminators + (0 + outer.countP After.counted))
      rw [Nat.zero_add]
      exact hcount
    · intro a ha
      injection ha with ha
      subst ha
      show (!s.line.atStart) = true
      rw [hstart]
      rfl
  · apply counted_goTo_loop
    · have hterm : s.dec.line.terminators = s.line.terminators := dec_terminators s.line hstart
      rw [hterm]
      exact hcount
    · cases kill
      · exact .inl rfl
      · exact .inr rfl

/-- A character is taken. -/
theorem cookChar_counted (c : Byte) (hfull : s.line.secondary.full = false)
    (hcount : s.line.secondary.data = BitVec.ofNat 32 (s.line.terminators + outer.countP After.counted)) :
    Counted (s.cookChar outer c) := by
  have hloop : Counted (s.goTo outer .loop) := counted_goTo_loop hcount (.inl rfl)
  have hwait : s.line.secondary.data =
      BitVec.ofNat 32 (s.line.terminators + (0 + outer.countP After.counted)) := by
    rw [Nat.zero_add]
    exact hcount
  unfold Config.cookChar
  dsimp only
  split
  · exact counted_goTo_loop hcount (.inr rfl)
  · split
    · split
      · exact hloop
      · next hstart => exact eraseChar_counted hcount (Bool.not_eq_true _ ▸ hstart)
    · split
      · apply counted_goTo
        · exact hwait
        · rintro a ⟨⟩
          rfl
      · split
        · apply counted_goTo
          · exact hwait
          · rintro a ⟨⟩
            rfl
        · split
          · exact hloop
          · -- the terminator is counted here, and put when `tty->write` has come back
            apply counted_goTo
            · show (if ends s.line.termios c then s.line.secondary.data + 1 else s.line.secondary.data) =
                BitVec.ofNat 32 (s.line.terminators + ((ends s.line.termios c).toNat + outer.countP After.counted))
              rw [hcount]
              cases ends s.line.termios c with
              | false => rw [if_neg Bool.false_ne_true, Bool.toNat_false, Nat.zero_add]
              | true =>
                  rw [if_pos rfl, Bool.toNat_true, Nat.add_comm 1, ← Nat.add_assoc, BitVec.ofNat_add _ 1]
                  rfl
            · rintro a ⟨⟩
              show (!s.line.secondary.full && ends s.line.termios c == ends s.line.termios c) = true
              rw [hfull, beq_self_eq_true]
              rfl

/-- One turn of the loop. -/
theorem cookTurn_counted
    (hcount : s.line.secondary.data = BitVec.ofNat 32 (s.line.terminators + outer.countP After.counted)) :
    Counted (s.cookTurn outer) := by
  unfold Config.cookTurn
  split
  · cases outer with
    | nil =>
        exact ⟨hcount, fun a o hact => nomatch hact⟩
    | cons a outer =>
        apply counted_goTo
        · rw [List.countP_cons] at hcount
          show s.line.secondary.data = BitVec.ofNat 32 (s.line.terminators + (a.counted.toNat + _))
          rw [hcount]
          congr 2
          rw [Nat.add_comm]
          cases a.counted <;> rfl
        · rintro b ⟨⟩
  · next hgo =>
      have hfull : s.line.secondary.full = false := by
        rw [Bool.or_eq_true, not_or] at hgo
        exact Bool.not_eq_true _ ▸ hgo.2
      split
      · exact counted_goTo_loop hcount (.inl rfl)
      · exact cookChar_counted _ hfull hcount

/-- `tty->write` comes back. -/
theorem written_counted {a : After}
    (hcount : s.line.secondary.data =
      BitVec.ofNat 32 (s.line.terminators + (a.counted.toNat + outer.countP After.counted)))
    (hsound : a.sound s.line = true) : Counted (s.written outer a) := by
  cases a with
  | loop =>
      apply counted_goTo_loop
      · simpa [After.counted] using hcount
      · exact .inl rfl
  | dec kill =>
      have hstart : s.line.atStart = false := Bool.not_eq_true' _ ▸ hsound
      have hterm : s.dec.line.terminators = s.line.terminators := dec_terminators s.line hstart
      apply counted_goTo_loop
      · rw [hterm]
        show s.line.secondary.data = _
        rw [hcount]
        show BitVec.ofNat 32 (s.line.terminators + (0 + _)) = _
        rw [Nat.zero_add]
      · cases kill
        · exact .inl rfl
        · exact .inr rfl
  | put c counted =>
      obtain ⟨hfull, hends⟩ := Bool.and_eq_true_iff.1 hsound
      have hterm := putch_terminators s.line c (Bool.not_eq_true' _ ▸ hfull)
      apply counted_goTo_loop
      · show s.line.secondary.data = BitVec.ofNat 32 ({ s.line with secondary := _ }.terminators + _)
        rw [hterm, ← beq_iff_eq.1 hends, Nat.add_assoc]
        exact hcount
      · exact .inl rfl

/-- `copy_to_cooked` is called. -/
theorem call_counted (h : Counted s) (hs : s.call = some s') : Counted s' := by
  have hcount := h.count
  unfold Config.call at hs
  split at hs
  · next hact =>
      cases hs
      unfold Config.pending at hcount
      rw [hact] at hcount
      exact counted_goTo_loop hcount (.inl rfl)
  · next a nested outer hact =>
      cases hs
      rw [pending_of hact] at hcount
      apply counted_goTo_loop
      · rw [List.countP_cons, hcount]
        show BitVec.ofNat 32 (s.line.terminators + (a.counted.toNat + _)) = _
        rw [Nat.add_comm a.counted.toNat]
        cases a.counted <;> rfl
      · exact .inl rfl
  · cases hs

/-- The innermost call goes on. -/
theorem run_counted (h : Counted s) (hok : CountOk s .run = true) (hs : s.run = some s') : Counted s' := by
  obtain ⟨⟨top, outer⟩, hact, rfl⟩ := Option.map_eq_some_iff.1 hs
  have hcount := h.count
  rw [pending_of hact] at hcount
  unfold CountOk at hok
  rw [hact] at hok
  cases top with
  | loop =>
      apply cookTurn_counted
      rw [hcount]
      exact congrArg (fun k => BitVec.ofNat 32 (s.line.terminators + k)) (Nat.zero_add _)
  | kill =>
      have hcount' : s.line.secondary.data = BitVec.ofNat 32 (s.line.terminators + outer.countP After.counted) := by
        rw [hcount]
        exact congrArg (fun k => BitVec.ofNat 32 (s.line.terminators + k)) (Nat.zero_add _)
      show Counted (s.killTurn outer)
      unfold Config.killTurn
      split
      · exact counted_goTo_loop hcount' (.inl rfl)
      · next hstart => exact eraseChar_counted hcount' (Bool.not_eq_true _ ▸ hstart)
  | writing a nested =>
      apply written_counted hcount
      cases nested with
      | false => exact h.sound a outer hact
      | true => exact hok

/-- The termios change. -/
theorem termios_counted {t : Termios} (h : Counted s) (ht : (s.line.terminatorsUnder t == s.line.terminators) = true)
    (hq : s'.line.secondary = s.line.secondary) (hline : s'.line.termios = t) (hpending : s'.pending = s.pending)
    (hnested : ∀ a outer, s'.active ≠ some ⟨.writing a false, outer⟩) : Counted s' := by
  refine ⟨?_, fun a outer hact => absurd hact (hnested a outer)⟩
  have hterm : s'.line.terminators = s.line.terminators := by
    rw [← beq_iff_eq.1 ht]
    unfold Line.terminators Line.terminatorsUnder
    rw [hline, hq]
  rw [hterm, hpending, hq]
  exact h.count

theorem pending_markNested (s : Config) : s.markNested.pending = s.pending := by
  unfold Config.pending Config.markNested
  cases hact : s.active with
  | none => rfl
  | some act =>
      obtain ⟨top, outer⟩ := act
      cases top <;> rfl

theorem markNested_nested (s : Config) (a : After) (outer : List After) :
    s.markNested.active ≠ some ⟨.writing a false, outer⟩ := by
  intro hact
  obtain ⟨⟨top, o⟩, -, heq⟩ := Option.map_eq_some_iff.1 hact
  cases top <;> cases heq

/-- A character goes out. -/
theorem drain_counted (h : Counted s) (hok : CountOk s .drain = true) (hs : s.drain = some s') : Counted s' := by
  have hout : Counted s.takeOut := h.congr rfl rfl rfl
  unfold Config.drain at hs
  unfold CountOk at hok
  split at hs
  · next hdevice =>
      split at hs
      · have hfeed : Counted (s.takeOut.feed s.line.writeQ.getch.1) := hout.congr rfl rfl rfl
        unfold Config.draw at hs
        split at hs
        · next hresets =>
            cases hs
            have hresets' : s.line.vc.resets s.line.writeQ.getch.1 = true := hresets
            rw [hdevice, hresets'] at hok
            exact termios_counted hfeed hok rfl rfl (pending_markNested _) (markNested_nested _)
        · split at hs
          · have hanswer : Counted (s.takeOut.feed s.line.writeQ.getch.1).answer := hfeed.congr rfl rfl rfl
            exact call_counted hanswer hs
          · cases hs
            exact hfeed
      · cases hs
  · split at hs
    · cases hs
      exact hout
    · cases hs
  · split at hs
    · cases hs
      exact hout
    · cases hs

theorem pending_of_idle (h : s.active.isSome = false) : s.pending = 0 := by
  unfold Config.pending
  rw [Option.isSome_eq_false_iff.1 h |> Option.isNone_iff_eq_none.1]

/-- While no call is at work, only the terminators count. -/
theorem counted_idle (hact : s.active.isSome = false)
    (hcount : s.line.secondary.data = BitVec.ofNat 32 s.line.terminators) : Counted s := by
  refine ⟨?_, fun a outer hact' => ?_⟩
  · rw [pending_of_idle hact]
    exact hcount
  · rw [hact'] at hact
    cases hact

theorem Counted.idle (h : Counted s) (hact : s.active.isSome = false) :
    s.line.secondary.data = BitVec.ofNat 32 s.line.terminators := by
  have hcount := h.count
  rw [pending_of_idle hact] at hcount
  exact hcount

/-- One pass of `tty_read`. -/
theorem read_counted {nr : Nat} (h : Counted s) (hs : s.read nr = some s') : Counted s' := by
  obtain ⟨hguard, rfl⟩ := of_guarded hs
  simp only [Bool.or_eq_false_iff] at hguard
  obtain ⟨⟨hact, -⟩, hsleeps⟩ := hguard
  have hempty : s.line.secondary.empty = false := (Bool.or_eq_false_iff.1 hsleeps).1
  exact counted_idle hact (readLoop_count s.line.termios nr hempty (h.idle hact))

/-- **Each of these steps keeps the counter right.** -/
theorem counted_step {e : Event} (h : Counted s) (hok : CountOk s e = true) (hs : step s e = some s') :
    Counted s' := by
  cases e with
  | call => exact call_counted h hs
  | run => exact run_counted h hok hs
  | drain => exact drain_counted h hok hs
  | read nr => exact read_counted h hs
  | input c =>
      obtain ⟨-, rfl⟩ := of_guarded hs
      exact h.congr rfl rfl rfl
  | flushInput =>
      obtain ⟨hact, rfl⟩ := of_guarded hs
      have hidle := h.idle hact
      have hterm : s.line.terminators = 0 := beq_iff_eq.1 hok
      have hact' : s.flushInput.active.isSome = false := hact
      apply counted_idle hact'
      show s.line.secondary.data = BitVec.ofNat 32 (s.line.secondary.flush.list.countP (ends s.line.termios))
      rw [hidle, hterm, TtyQueue.list_flush]
      rfl
  | setTermios t =>
      obtain ⟨hact, rfl⟩ := of_guarded hs
      refine termios_counted h hok rfl rfl rfl fun a outer hact' => ?_
      have hact'' : s.active = some ⟨.writing a false, outer⟩ := hact'
      rw [hact''] at hact
      cases hact
  | tcxonc arg =>
      obtain ⟨-, rfl⟩ := of_guarded hs
      cases arg <;> exact h.congr rfl rfl rfl
  | flushOutput | write c | fault | fetched c =>
      obtain ⟨-, rfl⟩ := of_guarded hs
      exact h.congr rfl rfl rfl

end

/-! ## Runs -/

/-- There are not more terminators than places. -/
theorem terminators_lt (l : Line) : l.terminators < 2 ^ 32 := by
  have hle : l.terminators ≤ l.secondary.list.length := List.countP_le_length
  have hlen : l.secondary.list.length + l.secondary.left = 1023 := TtyQueue.length_list
  omega

theorem counted_init (device : Device) (t : Termios) : Counted (init device t) :=
  counted_idle rfl rfl

/-- **The line count is right in all runs of such steps.** While a call is at work, `data` counts the terminators in
`secondary` and those that a call has counted and is about to put; else it is their number, and so a canonical reader
does not sleep while a line is complete, and goes on only if one is, or if `read_q` is FULL. -/
theorem line_count {device : Device} {t : Termios} {s : Config} (h : Reach CountOk (init device t) s) :
    s.line.secondary.data = BitVec.ofNat 32 (s.line.terminators + s.pending) ∧
    (s.active = none →
      s.line.secondary.data.toNat = s.line.terminators ∧
      (s.line.termios.icanon = true → s.line.terminators ≠ 0 → s.line.sleeps = false) ∧
      (s.line.termios.icanon = true → s.line.sleeps = false → s.line.terminators ≠ 0 ∨ s.line.readQ.full = true)) := by
  have hinv : Counted s := h.inv (counted_init device t) fun _ _ _ => counted_step
  refine ⟨hinv.count, fun hact => ?_⟩
  have hactive : s.active.isSome = false := by rw [hact]; rfl
  have hdata : s.line.secondary.data.toNat = s.line.terminators := by
    rw [hinv.idle hactive, BitVec.toNat_ofNat]
    exact Nat.mod_eq_of_lt (terminators_lt s.line)
  refine ⟨hdata, fun hcanon hterm => ?_, fun hcanon hsleeps => ?_⟩
  · unfold Line.sleeps
    have hempty : s.line.secondary.empty = false := by
      cases hempty : s.line.secondary.empty with
      | false => rfl
      | true =>
          unfold Line.terminators at hterm
          rw [TtyQueue.list_of_empty hempty] at hterm
          exact absurd rfl hterm
    have hne : (s.line.secondary.data == 0) = false := by
      apply beq_false_of_ne
      intro h0
      rw [h0] at hdata
      exact hterm hdata.symm
    rw [hempty, hne, Bool.and_false]
    rfl
  · obtain ⟨-, htest⟩ := Bool.or_eq_false_iff.1 hsleeps
    cases hfull : s.line.readQ.full with
    | true => exact .inr rfl
    | false =>
        left
        rw [hcanon, hfull, Bool.not_false, Bool.and_self, Bool.true_and] at htest
        intro hterm
        rw [hterm] at hdata
        have h0 : s.line.secondary.data = 0 := BitVec.eq_of_toNat_eq hdata
        rw [h0] at htest
        cases htest

/-- A run in which nothing is flushed: a line is typed and read. -/
theorem line_count_typed :
    ∃ s, runs CountOk (init .console DEF_TERMIOS)
        [.input 97, .input 10, .call, .run, .drain, .run, .run, .drain, .drain, .run, .run, .read 1] = some s ∧
      s.returned = [[97]] ∧ s.line.secondary.data.toNat = s.line.terminators := by
  have hret : (runs CountOk (init .console DEF_TERMIOS)
      [.input 97, .input 10, .call, .run, .drain, .run, .run, .drain, .drain, .run, .run, .read 1]).map
        (fun s => (s.returned, s.active.isSome)) = some ([[97]], false) := by decide +kernel
  obtain ⟨s, hs, hret⟩ := Option.map_eq_some_iff.1 hret
  obtain ⟨hreturned, hactive⟩ := Prod.mk.inj hret
  exact ⟨s, hs, hreturned, ((line_count (reach_runs hs)).2 (Option.isNone_iff_eq_none.1
    (Option.isSome_eq_false_iff.1 hactive))).1⟩

/-- **A flush leaves the counter stale**: a line is complete when the input is flushed, and is counted for ever. -/
theorem line_count_stale :
    ¬ ∀ device t s, Reach (fun _ _ => true) (init device t) s → s.active = none →
      s.line.secondary.data.toNat = s.line.terminators := by
  intro hall
  have hret : (runs (fun _ _ => true) (init .console DEF_TERMIOS)
      [.input 10, .call, .run, .drain, .drain, .run, .run, .flushInput]).map
        (fun s => (s.line.secondary.data.toNat, s.line.terminators, s.active.isSome)) = some (1, 0, false) := by
    decide +kernel
  obtain ⟨s, hs, hret⟩ := Option.map_eq_some_iff.1 hret
  injection hret with hdata hret
  injection hret with hterm hactive
  have heq := hall .console DEF_TERMIOS s (reach_runs hs)
    (Option.isNone_iff_eq_none.1 (Option.isSome_eq_false_iff.1 hactive))
  rw [hdata, hterm] at heq
  cases heq

end LineDisc
end ChrDrv
end Linux095
