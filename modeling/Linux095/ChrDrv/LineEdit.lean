import Linux095.ChrDrv.LineCount
import Mathlib.Data.List.DropRight

/-!
# `ChrDrv.LineEdit` — canonical line editing

What a line editor should do is said by a fold over the typed characters, which knows neither queues nor calls. The
terminal edits in the queue that `tty_read` reads from, and finds the start of a line by its last character.

* `Editor`, `output` — the line editor, and the lines that it hands out;
* `Pieces` — reads that take the lines piece by piece, none of them from more than one line;
* `Steady` — the termios stay, nothing is flushed and no queue fills; `InTurn` — no character is taken while a call that
  waits for `tty->write` has still to put or to erase another;
* `canonical_reads` — **what is read are pieces of the lines that the editor has finished**, in their order;
* `canonical_overtaken` — a run in which the answer to ESC Z overtakes the Z.
-/

namespace Linux095
namespace ChrDrv
namespace LineDisc

/-! ## The line editor -/

/-- The lines that are finished, with what has ended them, and the one that is not. -/
structure Editor where
  done : List (List Byte)
  cur : List Byte

/-- A character that is not for the reader. -/
def ignored (t : Termios) (c : Byte) : Bool :=
  (t.ixon && (isChar t.stop c || isChar t.start c)) ||
    (t.isig && (isChar t.intr c || isChar t.quit c || isChar t.susp c))

/-- A character is typed. -/
def Editor.type (t : Termios) (e : Editor) (c : Byte) : Editor :=
  match translate t c with
  | none => e
  | some c =>
      if isChar t.kill c then { e with cur := [] }
      else if isChar t.erase c then { e with cur := e.cur.dropLast }
      else if ignored t c then e
      else if ends t c then ⟨e.done ++ [e.cur ++ [c]], []⟩
      else { e with cur := e.cur ++ [c] }

def edited (t : Termios) (typed : List Byte) : Editor := typed.foldl (Editor.type t) ⟨[], []⟩

/-- What the reader gets of a line: the newline, but not the EOF character. -/
def deliver (t : Termios) (l : List Byte) : List Byte := l.filter (!isChar t.eof ·)

/-- **The output of the line editor**, line by line. -/
def output (t : Termios) (typed : List Byte) : List (List Byte) := (edited t typed).done.map (deliver t)

/-! ## Reads -/

/-- `Pieces lines reads rest`: each read takes a piece of the first line that is left, and a line that is used up is
left behind. -/
inductive Pieces {α : Type} : List (List α) → List (List α) → List (List α) → Prop
  | start (lines : List (List α)) : Pieces lines [] lines
  | piece {lines reads rest : List (List α)} {l : List α} (r : List α) (h : Pieces lines reads ((r ++ l) :: rest)) :
      Pieces lines (reads ++ [r]) (l :: rest)
  | line {lines reads rest : List (List α)} (h : Pieces lines reads ([] :: rest)) : Pieces lines reads rest

namespace Pieces
variable {α : Type} {lines reads rest : List (List α)}

/-- What is read, and what is left, are the lines. -/
theorem flatten (h : Pieces lines reads rest) : reads.flatten ++ rest.flatten = lines.flatten := by
  induction h with
  | start => rfl
  | piece r h ih =>
      rw [← ih]
      simp
  | line h ih => exact ih

theorem append (h : Pieces lines reads rest) (more : List (List α)) : Pieces (lines ++ more) reads (rest ++ more) := by
  induction h with
  | start => exact .start _
  | piece r h ih => exact .piece r ih
  | line h ih => exact .line ih

end Pieces

/-! ## The runs -/

/-- No queue is FULL, or has been. -/
def Config.neverFull (s : Config) : Bool :=
  !s.overrun && !s.line.readQ.full && !s.line.writeQ.full && !s.line.secondary.full

/-- The termios stay, nothing is flushed, and no queue fills. -/
def Steady (s : Config) (e : Event) : Bool :=
  (match step s e with
    | none => true
    | some s' => s'.neverFull) &&
  match e with
  | .flushInput | .setTermios _ => false
  | .drain => s.line.device != .console || !s.line.vc.resets s.line.writeQ.getch.1
  | _ => true

/-- The next character in `read_q` is put, or erases. -/
def Line.takes (l : Line) : Bool :=
  match translate l.termios l.readQ.getch.1 with
  | none => false
  | some c => isChar l.termios.kill c || isChar l.termios.erase c || !ignored l.termios c

/-- The call has still to put a character, or to erase. -/
def After.busy : After → Bool
  | .loop => false
  | _ => true

def Frame.busy : Frame → Bool
  | .loop => false
  | .kill => true
  | .writing a _ => a.busy

/-- **No character overtakes another**: while a call that waits for `tty->write` has still something to do, an inner one
takes no character that is put, or that erases. -/
def InTurn (s : Config) : Event → Bool
  | .run =>
      match s.active with
      | some ⟨.loop, outer⟩ => s.line.readQ.empty || !s.line.takes || !outer.any After.busy
      | _ => true
  | _ => true

/-! ## The invariant -/

/-- What a call is still to make of the queue. -/
def After.finish (t : Termios) : After → List Byte → List Byte
  | .loop, q => q
  | .dec false, q => q.dropLast
  | .dec true, q => q.rdropWhile (!ends t ·)
  | .put c _, q => q ++ [c]

def Frame.finish (t : Termios) : Frame → List Byte → List Byte
  | .loop, q => q
  | .kill, q => q.rdropWhile (!ends t ·)
  | .writing a _, q => a.finish t q

/-- … and those that wait for it. -/
def finishAll (t : Termios) (outer : List After) (q : List Byte) : List Byte := outer.foldl (fun q a => a.finish t q) q

/-- A line, with what has ended it. -/
def IsLine (t : Termios) (l : List Byte) : Prop :=
  ∃ body c, l = body ++ [c] ∧ ends t c = true ∧ ∀ x ∈ body, ends t x = false

/-- **The queue is what the editor makes of the characters taken so far**, less what has been read. -/
def Text (t : Termios) (s : Config) (q : List Byte) : Prop :=
  ∃ (taken : List Byte) (rest : List (List Byte)), s.typed = taken ++ s.line.readQ.list ∧
    Pieces (output t taken) s.returned (rest.map (deliver t)) ∧
    (∀ l ∈ rest, IsLine t l) ∧ q = rest.flatten ++ (edited t taken).cur

/-- The innermost call is at `f`. -/
structure At (t : Termios) (s : Config) (f : Frame) (outer : List After) : Prop where
  termios : s.line.termios = t
  busy : f.busy.toNat + outer.countP After.busy ≤ 1
  top : ∀ a nested, f = .writing a nested → a.sound s.line = true
  waiting : ∀ a ∈ outer, a.sound s.line = true
  text : Text t s (finishAll t outer (f.finish t s.line.secondary.list))

/-- **The invariant**: with no call at work, it is as at the top of the loop. -/
def Kept (t : Termios) (s : Config) : Prop :=
  match s.active with
  | none => At t s .loop []
  | some ⟨f, outer⟩ => At t s f outer

section
variable {t : Termios}

/-! ## The editor -/

theorem edited_snoc (l : List Byte) (c : Byte) : edited t (l ++ [c]) = (edited t l).type t c :=
  List.foldl_concat _ _ _ _

theorem type_none {c : Byte} (h : translate t c = none) (e : Editor) : e.type t c = e := by
  unfold Editor.type
  rw [h]

theorem type_some {r c : Byte} (h : translate t r = some c) (e : Editor) :
    e.type t r =
      if isChar t.kill c then { e with cur := [] }
      else if isChar t.erase c then { e with cur := e.cur.dropLast }
      else if ignored t c then e
      else if ends t c then ⟨e.done ++ [e.cur ++ [c]], []⟩
      else { e with cur := e.cur ++ [c] } := by
  unfold Editor.type
  rw [h]

/-- Lines that are finished stay so. -/
theorem type_done (e : Editor) (c : Byte) : ∃ more, (e.type t c).done = e.done ++ more := by
  unfold Editor.type
  split
  · exact ⟨[], (List.append_nil _).symm⟩
  · split
    · exact ⟨[], (List.append_nil _).symm⟩
    · split
      · exact ⟨[], (List.append_nil _).symm⟩
      · split
        · exact ⟨[], (List.append_nil _).symm⟩
        · split
          · exact ⟨_, rfl⟩
          · exact ⟨[], (List.append_nil _).symm⟩

theorem output_append (l l' : List Byte) : ∃ more, output t (l ++ l') = output t l ++ more := by
  induction l' using List.reverseRecOn with
  | nil => exact ⟨[], by rw [List.append_nil, List.append_nil]⟩
  | append_singleton l' c ih =>
      obtain ⟨more, hmore⟩ := ih
      obtain ⟨more', hmore'⟩ := type_done (t := t) (edited t (l ++ l')) c
      refine ⟨more ++ more'.map (deliver t), ?_⟩
      unfold output at hmore ⊢
      rw [← List.append_assoc, edited_snoc, hmore', List.map_append, hmore, List.append_assoc]

/-- The unfinished line has no terminator. -/
theorem edited_plain (l : List Byte) : ∀ x ∈ (edited t l).cur, ends t x = false := by
  induction l using List.reverseRecOn with
  | nil => exact fun x hx => absurd hx List.not_mem_nil
  | append_singleton l c ih =>
      rw [edited_snoc]
      unfold Editor.type
      split
      · exact ih
      · split
        · exact fun x hx => absurd hx List.not_mem_nil
        · split
          · exact fun x hx => ih x (List.mem_of_mem_dropLast hx)
          · split
            · exact ih
            · split
              · exact fun x hx => absurd hx List.not_mem_nil
              · next c _ _ _ _ hends =>
                  intro x hx
                  rcases List.mem_append.1 hx with hx | hx
                  · exact ih x hx
                  · rw [List.mem_singleton.1 hx]
                    exact Bool.not_eq_true _ ▸ hends

/-! ## The start of a line -/

/-- What comes after the last terminator can be killed. -/
theorem killed_append {base cur : List Byte} (hcur : ∀ x ∈ cur, ends t x = false) :
    (base ++ cur).rdropWhile (!ends t ·) = base.rdropWhile (!ends t ·) := by
  induction cur using List.reverseRecOn with
  | nil => rw [List.append_nil]
  | append_singleton cur x ih =>
      have hx : (!ends t x) = true := by
        rw [hcur x (List.mem_append_right _ (List.mem_singleton_self x))]
        rfl
      rw [← List.append_assoc, List.rdropWhile_concat_pos (!ends t ·) _ x hx]
      exact ih fun y hy => hcur y (List.mem_append_left _ hy)

theorem killed_line {l : List Byte} (base : List Byte) (hl : IsLine t l) :
    (base ++ l).rdropWhile (!ends t ·) = base ++ l := by
  obtain ⟨body, c, rfl, hc, -⟩ := hl
  rw [← List.append_assoc]
  apply List.rdropWhile_concat_neg
  rw [hc]
  exact Bool.false_ne_true

/-- Finished lines cannot be killed. -/
theorem killed_lines {rest : List (List Byte)} (h : ∀ l ∈ rest, IsLine t l) :
    rest.flatten.rdropWhile (!ends t ·) = rest.flatten := by
  induction rest using List.reverseRecOn with
  | nil => exact List.rdropWhile_nil _
  | append_singleton rest l _ =>
      rw [List.flatten_append, List.flatten_singleton]
      exact killed_line _ (h l (List.mem_append_right _ (List.mem_singleton_self l)))

/-- At the start of a line there is nothing to kill. -/
theorem killed_atStart {l : Line} (h : l.atStart = true) :
    l.secondary.list.rdropWhile (!ends l.termios ·) = l.secondary.list := by
  cases hempty : l.secondary.empty with
  | true =>
      rw [TtyQueue.list_of_empty hempty]
      exact List.rdropWhile_nil _
  | false =>
      unfold Line.atStart at h
      rw [hempty, Bool.false_or] at h
      rw [TtyQueue.list_dec hempty]
      apply List.rdropWhile_concat_neg
      rw [h]
      exact Bool.false_ne_true

/-- Elsewhere there is a character to erase. -/
theorem list_erase {l : Line} (h : l.atStart = false) :
    l.secondary.list = l.secondary.dec.list ++ [l.secondary.last] ∧ ends l.termios l.secondary.last = false := by
  obtain ⟨hempty, hlast⟩ := Bool.or_eq_false_iff.1 h
  exact ⟨TtyQueue.list_dec hempty, hlast⟩

theorem killed_erase {l : Line} (h : l.atStart = false) :
    l.secondary.list.rdropWhile (!ends l.termios ·) = l.secondary.dec.list.rdropWhile (!ends l.termios ·) := by
  obtain ⟨hlist, hlast⟩ := list_erase h
  rw [hlist]
  apply List.rdropWhile_concat_pos
  rw [hlast]
  rfl

theorem dropLast_erase {l : Line} (h : l.atStart = false) : l.secondary.list.dropLast = l.secondary.dec.list := by
  rw [(list_erase h).1]
  exact List.dropLast_concat

/-- The terminal finds the start of the line where the editor has it. -/
theorem atStart_iff {l : Line} {base cur : List Byte} (hlist : l.secondary.list = base ++ cur)
    (hbase : base.rdropWhile (!ends l.termios ·) = base) (hcur : ∀ x ∈ cur, ends l.termios x = false) :
    l.atStart = true ↔ cur = [] := by
  constructor
  · intro h
    have hkilled := killed_atStart h
    rw [hlist, killed_append hcur, hbase] at hkilled
    exact List.append_right_eq_self.1 hkilled.symm
  · rintro rfl
    rw [List.append_nil] at hlist
    cases hstart : l.atStart with
    | true => rfl
    | false =>
        have hkilled := killed_erase hstart
        rw [hlist, hbase, ← hlist, (list_erase hstart).1] at hkilled
        have hle := (List.rdropWhile_prefix (!ends l.termios ·) (l := l.secondary.dec.list)).length_le
        rw [← hkilled, List.length_append, List.length_singleton] at hle
        omega

/-! ## Taking a character -/

variable {s s' : Config} {outer : List After}

theorem finishAll_idle (q : List Byte) (h : outer.countP After.busy = 0) : finishAll t outer q = q := by
  induction outer generalizing q with
  | nil => rfl
  | cons a outer ih =>
      rw [List.countP_eq_zero] at h
      have ha : a = .loop := by
        cases a with
        | loop => rfl
        | dec kill => exact absurd rfl (h _ List.mem_cons_self)
        | put c counted => exact absurd rfl (h _ List.mem_cons_self)
      subst ha
      exact ih q (List.countP_eq_zero.2 fun b hb => h b (List.mem_cons_of_mem _ hb))

/-- **A character is taken**: what the editor makes of it is what is to become of the queue. -/
theorem Text.take {q q' : List Byte} (h : Text t s q) (hempty : s.line.readQ.empty = false)
    (hq : ∀ (e : Editor) (base : List Byte), base.rdropWhile (!ends t ·) = base → (∀ x ∈ e.cur, ends t x = false) →
      q = base ++ e.cur → ∃ more, (e.type t s.line.readQ.getch.1).done = e.done ++ more ∧
        (∀ l ∈ more, IsLine t l) ∧ q' = base ++ more.flatten ++ (e.type t s.line.readQ.getch.1).cur) :
    Text t s.takeIn q' := by
  obtain ⟨taken, rest, htyped, hpieces, hlines, htext⟩ := h
  obtain ⟨more, hdone, hmore, hq'⟩ :=
    hq (edited t taken) rest.flatten (killed_lines hlines) (edited_plain taken) htext
  refine ⟨taken ++ [s.line.readQ.getch.1], rest ++ more, ?_, ?_, fun l hl => ?_, ?_⟩
  · rw [List.append_assoc]
    show s.typed = taken ++ s.line.readQ.getch.1 :: s.line.readQ.getch.2.list
    rw [← TtyQueue.list_getch hempty]
    exact htyped
  · have hout : output t (taken ++ [s.line.readQ.getch.1]) = output t taken ++ more.map (deliver t) := by
      unfold output
      rw [edited_snoc, hdone, List.map_append]
    rw [hout, List.map_append]
    exact hpieces.append _
  · rcases List.mem_append.1 hl with hl | hl
    · exact hlines l hl
    · exact hmore l hl
  · rw [edited_snoc, List.flatten_append]
    exact hq'

/-- A character that the editor does nothing about. -/
theorem Text.skip {q : List Byte} (h : Text t s q) (hempty : s.line.readQ.empty = false)
    (hskip : ∀ e : Editor, e.type t s.line.readQ.getch.1 = e) : Text t s.takeIn q := by
  apply h.take hempty
  intro e base _ _ hq
  refine ⟨[], ?_, fun l hl => absurd hl List.not_mem_nil, ?_⟩
  · rw [hskip, List.append_nil]
  · rw [hskip, List.flatten_nil, List.append_nil]
    exact hq

theorem At.kept {f : Frame} (h : At t s f outer) : Kept t (s.goTo outer f) :=
  ⟨h.termios, h.busy, h.top, h.waiting, h.text⟩

/-- With nothing to wait for, nothing is relied on. -/
theorem idle_sound (l : Line) (h : outer.countP After.busy = 0) : ∀ a ∈ outer, a.sound l = true := by
  intro a ha
  have hbusy := List.countP_eq_zero.1 h a ha
  cases a with
  | loop => rfl
  | dec kill => exact absurd rfl hbusy
  | put c counted => exact absurd rfl hbusy

/-- A character that the editor does nothing about is taken; `tty->write` may follow. -/
theorem skip_kept {f : Frame} (h : At t s .loop outer) (hempty : s.line.readQ.empty = false)
    (hskip : ∀ e : Editor, e.type t s.line.readQ.getch.1 = e) (hf : f = .loop ∨ f = .writing .loop false) (v : Bool) :
    Kept t ((s.takeIn.setStopped v).goTo outer f) := by
  have htext : Text t s.takeIn (finishAll t outer s.line.secondary.list) := h.text.skip hempty hskip
  apply At.kept
  refine ⟨h.termios, ?_, fun a nested ha => ?_, h.waiting, ?_⟩
  · rcases hf with rfl | rfl <;> exact h.busy
  · rcases hf with rfl | rfl
    · cases ha
    · cases ha
      rfl
  · rcases hf with rfl | rfl <;> exact htext

/-- ERASE, of a character that is there. -/
theorem eraseChar_kept {kill : Bool} (ht : s.line.termios = t) (hidle : outer.countP After.busy = 0)
    (hstart : s.line.atStart = false)
    (htext : Text t s ((if kill then Frame.kill else Frame.loop).finish t s.line.secondary.dec.list)) :
    Kept t (s.eraseChar outer kill) := by
  subst ht
  unfold Config.eraseChar
  split
  · apply At.kept
    refine ⟨rfl, ?_, fun a nested ha => ?_, idle_sound _ hidle, ?_⟩
    · rw [hidle]
      exact Nat.le_refl 1
    · cases ha
      show (!s.line.atStart) = true
      rw [hstart]
      rfl
    · rw [finishAll_idle _ hidle]
      show Text s.line.termios s ((After.dec kill).finish s.line.termios s.line.secondary.list)
      cases kill with
      | false =>
          show Text s.line.termios s s.line.secondary.list.dropLast
          rw [dropLast_erase hstart]
          exact htext
      | true =>
          show Text s.line.termios s (s.line.secondary.list.rdropWhile (!ends s.line.termios ·))
          rw [killed_erase hstart]
          exact htext
  · apply At.kept
    refine ⟨rfl, ?_, fun a nested ha => ?_, idle_sound _ hidle, ?_⟩
    · rw [hidle]
      cases kill
      · exact Nat.zero_le 1
      · exact Nat.le_refl 1
    · cases kill <;> cases ha
    · rw [finishAll_idle _ hidle]
      exact htext

/-- **A character is taken**, as the editor would. -/
theorem cookChar_kept (hcanon : t.icanon = true) (h : At t s .loop outer) (hempty : s.line.readQ.empty = false)
    (hfull : s.line.secondary.full = false) {c : Byte} (htr : translate t s.line.readQ.getch.1 = some c)
    (hturn : (isChar t.kill c || isChar t.erase c || !ignored t c) = true → outer.countP After.busy = 0) :
    Kept t (s.takeIn.cookChar outer c) := by
  obtain ⟨ht, hbusy, -, hwaiting, htext⟩ := h
  subst ht
  have htype := type_some htr
  -- a character that is put or that erases: no call that waits has anything to do
  have htake : outer.countP After.busy = 0 → Text s.line.termios s s.line.secondary.list := fun hidle => by
    have htext' : Text s.line.termios s (finishAll s.line.termios outer s.line.secondary.list) := htext
    rw [finishAll_idle _ hidle] at htext'
    exact htext'
  unfold Config.cookChar
  dsimp only
  have htermios : s.takeIn.line.termios = s.line.termios := rfl
  rw [htermios, hcanon, Bool.true_and, Bool.true_and]
  split
  · next hkill =>
      have hidle := hturn (by rw [hkill]; rfl)
      apply At.kept
      refine ⟨rfl, ?_, fun a nested ha => (nomatch ha), idle_sound _ hidle, ?_⟩
      · rw [hidle]
        exact Nat.le_refl 1
      · rw [finishAll_idle _ hidle]
        refine (htake hidle).take hempty fun e base hbase hcur hq =>
          ⟨[], ?_, fun l hl => (absurd hl List.not_mem_nil), ?_⟩
        · rw [htype, if_pos hkill, List.append_nil]
        · show s.line.secondary.list.rdropWhile _ = _
          rw [htype, if_pos hkill, hq, killed_append hcur, hbase]
          simp
  · next hkill =>
      split
      · next herase =>
          have hidle := hturn (by rw [herase]; simp)
          split
          · next hstart =>
              apply At.kept
              refine ⟨rfl, ?_, fun a nested ha => (nomatch ha), idle_sound _ hidle, ?_⟩
              · rw [hidle]
                exact Nat.zero_le 1
              · rw [finishAll_idle _ hidle]
                refine (htake hidle).take hempty fun e base hbase hcur hq =>
                  ⟨[], ?_, fun l hl => (absurd hl List.not_mem_nil), ?_⟩
                · rw [htype, if_neg hkill, if_pos herase, List.append_nil]
                · have hnil : e.cur = [] := (atStart_iff hq hbase hcur).1 hstart
                  rw [htype, if_neg hkill, if_pos herase]
                  show s.line.secondary.list = _
                  rw [hq, hnil]
                  simp
          · next hstart =>
              have hstart' : s.line.atStart = false := Bool.not_eq_true _ ▸ hstart
              refine eraseChar_kept rfl hidle hstart' ?_
              show Text s.line.termios s.takeIn s.line.secondary.dec.list
              refine (htake hidle).take hempty fun e base hbase hcur hq =>
                ⟨[], ?_, fun l hl => (absurd hl List.not_mem_nil), ?_⟩
              · rw [htype, if_neg hkill, if_pos herase, List.append_nil]
              · have hne : e.cur ≠ [] := fun hnil => hstart ((atStart_iff hq hbase hcur).2 hnil)
                rw [htype, if_neg hkill, if_pos herase, ← dropLast_erase hstart', hq,
                  List.dropLast_append_of_ne_nil hne]
                simp
      · next herase =>
          have hskip : ignored s.line.termios c = true →
              ∀ (f : Frame) (v : Bool), f = .loop ∨ f = .writing .loop false →
                Kept s.line.termios ((s.takeIn.setStopped v).goTo outer f) := by
            intro hign f v hf
            have hpass : ∀ e : Editor, e.type s.line.termios s.line.readQ.getch.1 = e := by
              intro e
              rw [htype, if_neg hkill, if_neg herase, if_pos hign]
            exact skip_kept ⟨rfl, hbusy, fun a nested ha => (nomatch ha), hwaiting, htext⟩ hempty hpass hf v
          split
          · next hstop =>
              refine hskip ?_ _ true (.inr rfl)
              obtain ⟨hixon, hstop⟩ := Bool.and_eq_true_iff.1 hstop
              simp [ignored, hixon, hstop]
          · next hstop =>
              split
              · next hstart =>
                  refine hskip ?_ _ false (.inr rfl)
                  obtain ⟨hixon, hstart⟩ := Bool.and_eq_true_iff.1 hstart
                  simp [ignored, hixon, hstart]
              · next hstart =>
                  split
                  · next hsig =>
                      refine hskip ?_ _ s.line.stopped (.inl rfl)
                      unfold ignored
                      rw [hsig, Bool.or_true]
                  · next hsig =>
                      have hign : ignored s.line.termios c = false := by
                        rw [Bool.not_eq_true] at hstop hstart hsig
                        unfold ignored
                        rw [Bool.and_or_distrib_left, hstop, hstart, hsig]
                        rfl
                      have hign' : ¬ ignored s.line.termios c = true := by
                        rw [hign]
                        exact Bool.false_ne_true
                      have hidle := hturn (by rw [hign]; exact Bool.or_true _)
                      apply At.kept
                      refine ⟨rfl, ?_, fun a nested ha => ?_, idle_sound _ hidle, ?_⟩
                      · rw [hidle]
                        exact Nat.le_refl 1
                      · cases ha
                        show (!s.line.secondary.full && ends s.line.termios c == ends s.line.termios c) = true
                        rw [hfull, beq_self_eq_true]
                        rfl
                      · rw [finishAll_idle _ hidle]
                        show Text s.line.termios s.takeIn (s.line.secondary.list ++ [c])
                        refine (htake hidle).take hempty fun e base hbase hcur hq => ?_
                        rw [htype, if_neg hkill, if_neg herase, if_neg hign', hq]
                        cases hends : ends s.line.termios c with
                        | true =>
                            refine ⟨[e.cur ++ [c]], rfl, fun l hl => ?_, ?_⟩
                            · rw [List.mem_singleton.1 hl]
                              exact ⟨e.cur, c, rfl, hends, hcur⟩
                            · simp
                        | false =>
                            refine ⟨[], (List.append_nil _).symm, fun l hl => (absurd hl List.not_mem_nil), ?_⟩
                            simp

/-- One turn of the loop. -/
theorem cookTurn_kept (hcanon : t.icanon = true) (h : At t s .loop outer)
    (hturn : (s.line.readQ.empty || !s.line.takes || !outer.any After.busy) = true) : Kept t (s.cookTurn outer) := by
  unfold Config.cookTurn
  split
  · cases outer with
    | nil => exact ⟨h.termios, h.busy, h.top, h.waiting, h.text⟩
    | cons a outer =>
        apply At.kept
        have hbusy := h.busy
        rw [List.countP_cons] at hbusy
        refine ⟨h.termios, ?_, fun b nested hb => ?_, fun b hb => h.waiting b (List.mem_cons_of_mem _ hb), h.text⟩
        · change 0 + (outer.countP After.busy + if a.busy = true then 1 else 0) ≤ 1 at hbusy
          show a.busy.toNat + outer.countP After.busy ≤ 1
          cases hab : a.busy with
          | false =>
              rw [hab, if_neg Bool.false_ne_true] at hbusy
              rw [Bool.toNat_false]
              omega
          | true =>
              rw [hab, if_pos rfl] at hbusy
              rw [Bool.toNat_true]
              omega
        · cases hb
          exact h.waiting a List.mem_cons_self
  · next hgo =>
      rw [Bool.or_eq_true, not_or] at hgo
      have hempty : s.line.readQ.empty = false := Bool.not_eq_true _ ▸ hgo.1
      have hfull : s.line.secondary.full = false := Bool.not_eq_true _ ▸ hgo.2
      have ht := h.termios
      subst ht
      cases htr : translate s.line.termios s.line.readQ.getch.1 with
      | none => exact skip_kept h hempty (type_none htr) (.inl rfl) s.line.stopped
      | some c =>
          refine cookChar_kept hcanon h hempty hfull htr fun htakes => ?_
          have htakes' : s.line.takes = true := by
            unfold Line.takes
            rw [htr]
            exact htakes
          rw [hempty, htakes'] at hturn
          have hany : outer.any After.busy = false := Bool.not_eq_true' _ ▸ hturn
          rw [List.countP_eq_zero]
          exact List.any_eq_false.1 hany

/-! ## The other pieces of a call -/

/-- A call that has still something to do is the only one. -/
theorem At.idle {f : Frame} (h : At t s f outer) (hf : f.busy = true) : outer.countP After.busy = 0 := by
  have hbusy := h.busy
  rw [hf, Bool.toNat_true] at hbusy
  omega

/-- One turn of the loop of KILL. -/
theorem killTurn_kept (h : At t s .kill outer) : Kept t (s.killTurn outer) := by
  have hidle := h.idle rfl
  have ht := h.termios
  have htext := h.text
  subst ht
  rw [finishAll_idle _ hidle] at htext
  unfold Config.killTurn
  split
  · next hstart =>
      apply At.kept
      refine ⟨rfl, ?_, fun a nested ha => (nomatch ha), idle_sound _ hidle, ?_⟩
      · rw [hidle]
        exact Nat.zero_le 1
      · rw [finishAll_idle _ hidle]
        show Text s.line.termios s s.line.secondary.list
        rw [← killed_atStart hstart]
        exact htext
  · next hstart =>
      have hstart' : s.line.atStart = false := Bool.not_eq_true _ ▸ hstart
      refine eraseChar_kept rfl hidle hstart' ?_
      show Text s.line.termios s (s.line.secondary.dec.list.rdropWhile (!ends s.line.termios ·))
      rw [← killed_erase hstart']
      exact htext

/-- `tty->write` comes back. -/
theorem written_kept {a : After} {nested : Bool} (h : At t s (.writing a nested) outer) :
    Kept t (s.written outer a) := by
  have hsound := h.top a nested rfl
  have htext := h.text
  have ht := h.termios
  subst ht
  cases a with
  | loop => exact ⟨rfl, h.busy, fun a nested ha => (nomatch ha), h.waiting, htext⟩
  | dec kill =>
      have hidle := h.idle rfl
      have hstart : s.line.atStart = false := Bool.not_eq_true' _ ▸ hsound
      rw [finishAll_idle _ hidle] at htext
      apply At.kept
      refine ⟨rfl, ?_, fun a nested ha => ?_, idle_sound _ hidle, ?_⟩
      · rw [hidle]
        cases kill
        · exact Nat.zero_le 1
        · exact Nat.le_refl 1
      · cases kill <;> cases ha
      · rw [finishAll_idle _ hidle]
        cases kill with
        | false =>
            show Text s.line.termios s s.line.secondary.dec.list
            rw [← dropLast_erase hstart]
            exact htext
        | true =>
            show Text s.line.termios s (s.line.secondary.dec.list.rdropWhile (!ends s.line.termios ·))
            rw [← killed_erase hstart]
            exact htext
  | put c counted =>
      have hidle := h.idle rfl
      have hfull : s.line.secondary.full = false := Bool.not_eq_true' _ ▸ (Bool.and_eq_true_iff.1 hsound).1
      rw [finishAll_idle _ hidle] at htext
      apply At.kept
      refine ⟨rfl, ?_, fun a nested ha => (nomatch ha), idle_sound _ hidle, ?_⟩
      · rw [hidle]
        exact Nat.zero_le 1
      · rw [finishAll_idle _ hidle]
        show Text s.line.termios s (s.line.secondary.putch c).list
        rw [TtyQueue.list_putch c hfull]
        exact htext

theorem Kept.at {f : Frame} (h : Kept t s) (hact : s.active = some ⟨f, outer⟩) : At t s f outer := by
  unfold Kept at h
  rw [hact] at h
  exact h

theorem Kept.idle (h : Kept t s) (hact : s.active = none) : At t s .loop [] := by
  unfold Kept at h
  rw [hact] at h
  exact h

/-- The innermost call goes on. -/
theorem run_kept (hcanon : t.icanon = true) (h : Kept t s) (hok : InTurn s .run = true) (hs : s.run = some s') :
    Kept t s' := by
  obtain ⟨⟨top, outer⟩, hact, rfl⟩ := Option.map_eq_some_iff.1 hs
  have hat := h.at hact
  cases top with
  | loop =>
      unfold InTurn at hok
      rw [hact] at hok
      exact cookTurn_kept hcanon hat hok
  | kill => exact killTurn_kept hat
  | writing a nested => exact written_kept hat

/-- `copy_to_cooked` is called. -/
theorem call_kept (h : Kept t s) (hs : s.call = some s') : Kept t s' := by
  unfold Config.call at hs
  split at hs
  · next hact =>
      cases hs
      exact (h.idle hact).kept
  · next a nested outer hact =>
      cases hs
      have hat := h.at hact
      apply At.kept
      refine ⟨hat.termios, ?_, fun b n hb => (nomatch hb), fun b hb => ?_, hat.text⟩
      · have hbusy := hat.busy
        rw [List.countP_cons]
        change a.busy.toNat + outer.countP After.busy ≤ 1 at hbusy
        show 0 + (outer.countP After.busy + if a.busy = true then 1 else 0) ≤ 1
        cases hab : a.busy with
        | false =>
            rw [hab, Bool.toNat_false] at hbusy
            rw [if_neg Bool.false_ne_true]
            omega
        | true =>
            rw [hab, Bool.toNat_true] at hbusy
            rw [if_pos rfl]
            omega
      · rcases List.mem_cons.1 hb with rfl | hb
        · exact hat.top b nested rfl
        · exact hat.waiting b hb
  · cases hs

/-! ## Everything else -/

/-- What neither edits nor reads. -/
theorem Kept.congr (h : Kept t s) (hq : s'.line.secondary = s.line.secondary)
    (ht : s'.line.termios = s.line.termios) (ha : s'.active = s.active)
    (htext : ∀ q, Text t s q → Text t s' q) : Kept t s' := by
  have hat : ∀ f outer, At t s f outer → At t s' f outer := by
    intro f outer hat
    refine ⟨ht.trans hat.termios, hat.busy, fun a nested hf => ?_, fun a ha => ?_, ?_⟩
    · rw [sound_congr hq ht]
      exact hat.top a nested hf
    · rw [sound_congr hq ht]
      exact hat.waiting a ha
    · rw [hq]
      exact htext _ hat.text
  unfold Kept at h ⊢
  rw [ha]
  cases hact : s.active with
  | none =>
      rw [hact] at h
      exact hat _ _ h
  | some act =>
      rw [hact] at h
      exact hat _ _ h

/-- A character comes in. -/
theorem Text.input {q : List Byte} (h : Text t s q) (l : List Byte) (htyped : s'.typed = s.typed ++ l)
    (hlist : s'.line.readQ.list = s.line.readQ.list ++ l) (hret : s'.returned = s.returned) : Text t s' q := by
  obtain ⟨taken, rest, hbefore, hpieces, hlines, htext⟩ := h
  refine ⟨taken, rest, ?_, ?_, hlines, htext⟩
  · rw [htyped, hlist, hbefore, List.append_assoc]
  · rw [hret]
    exact hpieces

theorem answer_list (h : s.answer.overrun = false) : s.answer.line.readQ.list = s.line.readQ.list ++ RESPONSE := by
  obtain ⟨-, hroom⟩ := Bool.or_eq_false_iff.1 h
  exact TtyQueue.list_putchs RESPONSE hroom

/-- A character goes out. -/
theorem drain_kept (h : Kept t s) (hs : s.drain = some s') (hover : s'.overrun = false)
    (hok : (s.line.device != .console || !s.line.vc.resets s.line.writeQ.getch.1) = true) : Kept t s' := by
  have hout : Kept t s.takeOut := h.congr rfl rfl rfl fun _ htext => htext
  unfold Config.drain at hs
  split at hs
  · next hdevice =>
      split at hs
      · have hfeed : Kept t (s.takeOut.feed s.line.writeQ.getch.1) := hout.congr rfl rfl rfl fun _ htext => htext
        unfold Config.draw at hs
        split at hs
        · next hresets =>
            have hresets' : s.line.vc.resets s.line.writeQ.getch.1 = true := hresets
            rw [hdevice, hresets'] at hok
            cases hok
        · split at hs
          · -- the answer comes in as if it had been typed
            have hanswer : (s.takeOut.feed s.line.writeQ.getch.1).answer.overrun = false := by
              rw [← call_overrun hs]
              exact hover
            have hkept : Kept t (s.takeOut.feed s.line.writeQ.getch.1).answer :=
              hfeed.congr rfl rfl rfl fun q htext => htext.input RESPONSE rfl (answer_list hanswer) rfl
            exact call_kept hkept hs
          · cases hs
            exact hfeed
      · cases hs
  · split at hs
    · cases hs
      exact hout
    · cases hs
  · split at hs
    · cases hs
      exact hout
    · cases hs

/-! ## One pass of `tty_read` -/

/-- **A pass over a line that is finished**: it takes up to `nr` characters of it, and nothing that follows. -/
theorem readLoop_line (hcanon : t.icanon = true) {l more : List Byte} (nr : Nat) (hnr : nr ≠ 0) {q : TtyQueue}
    (hlist : q.list = l ++ more) (hl : IsLine t l) :
    (readLoop t nr q).1 = deliver t (l.take nr) ∧ (readLoop t nr q).2.list = l.drop nr ++ more := by
  induction nr generalizing q l with
  | zero => exact absurd rfl hnr
  | succ nr ih =>
      obtain ⟨x, l', rfl⟩ : ∃ x l', l = x :: l' := by
        obtain ⟨body, c, rfl, -⟩ := hl
        cases body with
        | nil => exact ⟨c, [], rfl⟩
        | cons x body => exact ⟨x, body ++ [c], rfl⟩
      have hempty : q.empty = false := by
        rw [← Bool.not_eq_true, TtyQueue.empty_iff, hlist]
        exact List.cons_ne_nil _ _
      obtain ⟨hx, hnext⟩ : q.getch.1 = x ∧ q.getch.2.list = l' ++ more := by
        rw [TtyQueue.list_getch hempty] at hlist
        exact List.cons.inj hlist
      unfold readLoop
      dsimp only
      generalize hq' : (if ends t q.getch.1 then { q.getch.2 with data := q.data - 1 } else q.getch.2) = q'
      have hlist' : q'.list = l' ++ more := by
        rw [← hq']
        split <;> exact hnext
      rw [hx, hcanon, Bool.and_true, Bool.and_true]
      obtain ⟨body, c, hbody, hc, hplain⟩ := hl
      cases body with
      | nil =>
          -- the terminator: EOF is dropped, a newline ends the pass
          obtain ⟨rfl, rfl⟩ := List.cons.inj hbody
          rw [List.take_succ_cons, List.drop_succ_cons, List.take_nil, List.drop_nil]
          cases heof : isChar t.eof x with
          | true =>
              rw [if_pos rfl]
              refine ⟨?_, hlist'⟩
              simp [deliver, heof]
          | false =>
              have hnl : (x == 10) = true := by
                unfold ends at hc
                rw [heof, Bool.or_false] at hc
                exact hc
              rw [if_neg Bool.false_ne_true, hnl, Bool.or_true, Bool.true_or, if_pos rfl]
              refine ⟨?_, hlist'⟩
              simp [deliver, heof]
      | cons y body =>
          have hbody' : x :: l' = y :: (body ++ [c]) := hbody
          obtain ⟨rfl, rfl⟩ := List.cons.inj hbody'
          obtain ⟨hnl, heof⟩ := Bool.or_eq_false_iff.1 (hplain x List.mem_cons_self)
          have hline : IsLine t (body ++ [c]) := ⟨body, c, rfl, hc, fun z hz => hplain z (List.mem_cons_of_mem _ hz)⟩
          have hne : q'.empty = false := by
            rw [← Bool.not_eq_true, TtyQueue.empty_iff, hlist']
            simp
          have hdeliver : ∀ k, deliver t (List.take (k + 1) (x :: (body ++ [c]))) =
              x :: deliver t (List.take k (body ++ [c])) := by
            intro k
            simp [deliver, heof]
          rw [heof, if_neg Bool.false_ne_true, hnl, hne, Bool.or_false, Bool.or_false, hdeliver, List.drop_succ_cons]
          split
          · next h0 =>
              rw [beq_iff_eq.1 h0]
              exact ⟨rfl, hlist'⟩
          · next h0 =>
              obtain ⟨hfst, hsnd⟩ := ih (fun hz => h0 (beq_iff_eq.2 hz)) hlist' hline
              exact ⟨congrArg _ hfst, hsnd⟩

/-- **One pass takes a piece of the first line.** -/
theorem read_kept {nr : Nat} (hcanon : t.icanon = true) (h : Kept t s) (hcount : Counted s)
    (hfull : s.line.readQ.full = false) (hs : s.read nr = some s') : Kept t s' := by
  obtain ⟨hguard, rfl⟩ := of_guarded hs
  simp only [Bool.or_eq_false_iff] at hguard
  obtain ⟨⟨hact, hnr⟩, hsleeps⟩ := hguard
  have hnone : s.active = none := Option.isNone_iff_eq_none.1 (Option.isSome_eq_false_iff.1 hact)
  have hat := h.idle hnone
  have ht := hat.termios
  subst ht
  obtain ⟨taken, rest, htyped, hpieces, hlines, hlist⟩ := hat.text
  have hlist' : s.line.secondary.list = rest.flatten ++ (edited s.line.termios taken).cur := hlist
  -- the counter tells that a line is finished
  obtain ⟨l, rest, rfl⟩ : ∃ l rest', rest = l :: rest' := by
    cases rest with
    | cons l rest => exact ⟨l, rest, rfl⟩
    | nil =>
        have hterm : s.line.terminators = 0 := by
          unfold Line.terminators
          rw [List.countP_eq_zero, hlist']
          intro x hx
          rw [edited_plain taken x hx]
          exact Bool.false_ne_true
        have hdata := hcount.idle hact
        unfold Line.sleeps at hsleeps
        rw [hdata, hterm, hcanon, hfull] at hsleeps
        exact absurd (Bool.or_eq_false_iff.1 hsleeps).2 (by decide)
  have hl := hlines l List.mem_cons_self
  have hnr' : nr ≠ 0 := fun h0 => Bool.false_ne_true (hnr.symm.trans (beq_iff_eq.2 h0))
  rw [List.flatten_cons, List.append_assoc] at hlist'
  obtain ⟨hfst, hsnd⟩ := readLoop_line hcanon nr hnr' hlist' hl
  -- the piece that is read
  have hpiece : Pieces (output s.line.termios taken)
      (s.returned ++ [(readLoop s.line.termios nr s.line.secondary).1])
      (deliver s.line.termios (l.drop nr) :: rest.map (deliver s.line.termios)) := by
    rw [hfst]
    apply Pieces.piece
    have hwhole : deliver s.line.termios (l.take nr) ++ deliver s.line.termios (l.drop nr) =
        deliver s.line.termios l := by
      unfold deliver
      rw [← List.filter_append, List.take_append_drop]
    rw [hwhole]
    exact hpieces
  have htext : Text s.line.termios
      { s with
        line := { s.line with secondary := (readLoop s.line.termios nr s.line.secondary).2 }
        returned := s.returned ++ [(readLoop s.line.termios nr s.line.secondary).1] }
      (readLoop s.line.termios nr s.line.secondary).2.list := by
    by_cases hend : l.drop nr = []
    · refine ⟨taken, rest, htyped, ?_, fun l' hl' => hlines l' (List.mem_cons_of_mem _ hl'), ?_⟩
      · rw [hend] at hpiece
        exact hpiece.line
      · rw [hsnd, hend, List.nil_append]
    · refine ⟨taken, l.drop nr :: rest, htyped, hpiece, fun l' hl' => ?_, ?_⟩
      · rcases List.mem_cons.1 hl' with rfl | hl'
        · obtain ⟨body, c, rfl, hc, hplain⟩ := hl
          refine ⟨body.drop nr, c, ?_, hc, fun x hx => hplain x (List.mem_of_mem_drop hx)⟩
          apply List.drop_append_of_le_length
          by_contra hlt
          apply hend
          apply List.drop_eq_nil_of_le
          rw [List.length_append, List.length_singleton]
          omega
        · exact hlines l' (List.mem_cons_of_mem _ hl')
      · rw [hsnd, List.flatten_cons, List.append_assoc]
  unfold Kept
  dsimp only
  rw [hnone]
  exact ⟨rfl, Nat.zero_le 1, fun a nested hf => (nomatch hf), fun a ha => (nomatch ha), htext⟩

/-! ## One step -/

theorem steady_room {e : Event} (h : Steady s e = true) (hs : step s e = some s') : s'.neverFull = true := by
  unfold Steady at h
  rw [hs] at h
  exact (Bool.and_eq_true_iff.1 h).1

/-- Such a step does not make the counter stale. -/
theorem steady_count {e : Event} (h : Kept t s) (hsteady : Steady s e = true) : CountOk s e = true := by
  obtain ⟨-, hok⟩ := Bool.and_eq_true_iff.1 hsteady
  cases e with
  | run =>
      unfold CountOk
      cases hact : s.active with
      | none => rfl
      | some act =>
          obtain ⟨top, outer⟩ := act
          cases top with
          | loop => rfl
          | kill => rfl
          | writing a nested =>
              cases nested with
              | false => rfl
              | true => exact (h.at hact).top a true rfl
  | drain =>
      have hok' : (s.line.device != .console || !s.line.vc.resets s.line.writeQ.getch.1) = true := hok
      unfold CountOk
      rw [hok']
      rfl
  | flushInput | setTermios _ => cases hok
  | _ => rfl

/-- **Each step keeps what has been typed, queued and read together.** -/
theorem step_kept {e : Event} (hcanon : t.icanon = true) (h : Kept t s) (hcount : Counted s)
    (hroom : s.neverFull = true) (hsteady : Steady s e = true) (hturn : InTurn s e = true)
    (hs : step s e = some s') : Kept t s' := by
  obtain ⟨-, hok⟩ := Bool.and_eq_true_iff.1 hsteady
  have hroom' := steady_room hsteady hs
  simp only [Config.neverFull, Bool.and_eq_true, Bool.not_eq_true'] at hroom hroom'
  obtain ⟨⟨⟨-, hfull⟩, -⟩, -⟩ := hroom
  obtain ⟨⟨⟨hover, -⟩, -⟩, -⟩ := hroom'
  cases e with
  | run => exact run_kept hcanon h hturn hs
  | call => exact call_kept h hs
  | drain => exact drain_kept h hs hover hok
  | read nr => exact read_kept hcanon h hcount hfull hs
  | input c =>
      obtain ⟨-, rfl⟩ := of_guarded hs
      refine h.congr rfl rfl rfl fun q htext => ?_
      exact htext.input [c] rfl (TtyQueue.list_putch c hfull) rfl
  | flushInput | setTermios _ => cases hok
  | tcxonc arg =>
      obtain ⟨-, rfl⟩ := of_guarded hs
      cases arg <;> exact h.congr rfl rfl rfl fun q htext => htext
  | flushOutput | write c | fault | fetched c =>
      obtain ⟨-, rfl⟩ := of_guarded hs
      exact h.congr rfl rfl rfl fun q htext => htext

end

/-! ## Runs -/

/-- The steps of the theorem. -/
def SteadyInTurn (s : Config) (e : Event) : Bool := Steady s e && InTurn s e

theorem kept_init (device : Device) (t : Termios) : Kept t (init device t) :=
  ⟨rfl, Nat.zero_le 1, fun _ _ hf => (nomatch hf), fun _ ha => (nomatch ha),
    [], [], rfl, .start [], fun _ hl => (nomatch hl), rfl⟩

/-- **Canonical reads**: the bytes that are read are pieces of the lines that the line editor has finished, in their
order, and no read takes from more than one line. The termios stay as they are, no queue fills, and no character
overtakes another. -/
theorem canonical_reads {device : Device} {t : Termios} {s : Config} (hcanon : t.icanon = true)
    (h : Reach SteadyInTurn (init device t) s) :
    (∃ rest, Pieces (output t s.typed) s.returned rest) ∧ s.returned.flatten <+: (output t s.typed).flatten := by
  have hinv : Kept t s ∧ Counted s ∧ s.neverFull = true := by
    apply h.inv (I := fun s => Kept t s ∧ Counted s ∧ s.neverFull = true)
    · exact ⟨kept_init device t, counted_init device t, rfl⟩
    · rintro s s' e ⟨hkept, hcount, hroom⟩ hok hs
      obtain ⟨hsteady, hturn⟩ := Bool.and_eq_true_iff.1 hok
      exact ⟨step_kept hcanon hkept hcount hroom hsteady hturn hs,
        counted_step hcount (steady_count hkept hsteady) hs, steady_room hsteady hs⟩
  obtain ⟨rest, hpieces⟩ : ∃ rest, Pieces (output t s.typed) s.returned rest := by
    have htext : ∃ q, Text t s q := by
      have hkept := hinv.1
      unfold Kept at hkept
      cases hact : s.active with
      | none =>
          rw [hact] at hkept
          exact ⟨_, At.text hkept⟩
      | some act =>
          rw [hact] at hkept
          exact ⟨_, At.text hkept⟩
    obtain ⟨q, taken, rest, htyped, hpieces, -⟩ := htext
    -- what has been typed and not taken yet can only add lines
    obtain ⟨more, hmore⟩ := output_append (t := t) taken s.line.readQ.list
    rw [htyped, hmore]
    exact ⟨_, hpieces.append more⟩
  exact ⟨⟨rest, hpieces⟩, rest.flatten, hpieces.flatten⟩

/-- A line is typed, with a slip, and read in two pieces. -/
def typedEvents : List Event :=
  [.input 97, .input 98, .input 127, .input 99, .input 10, .call] ++ List.replicate 11 .run ++ [.read 1, .read 10]

theorem canonical_reads_typed :
    ∃ s, runs SteadyInTurn (init .serial DEF_TERMIOS) typedEvents = some s ∧ s.returned = [[97], [99, 10]] ∧
      [97, 99, 10] <+: (output DEF_TERMIOS s.typed).flatten := by
  have hret : (runs SteadyInTurn (init .serial DEF_TERMIOS) typedEvents).map (fun s => s.returned) =
      some [[97], [99, 10]] := by decide +kernel
  obtain ⟨s, hs, hreturned⟩ := Option.map_eq_some_iff.1 hret
  have hprefix := (canonical_reads rfl (reach_runs hs)).2
  rw [hreturned] at hprefix
  exact ⟨s, hs, hreturned, hprefix⟩

/-- ESC Z and a newline are typed at a console that echoes them as they are, and each is cooked as it comes. -/
def overtakenEvents : List Event :=
  [.input 27, .call, .run, .drain, .run, .run, .input 90, .call, .run, .drain] ++
    (List.replicate 7 [.run, .drain, .run]).flatten ++ [.run, .run, .run] ++
    [.input 10, .call, .run, .drain, .drain, .run, .run, .read 20]

/-- **The answer to ESC Z overtakes the Z**: `secondary` gets it while the Z is being echoed. -/
theorem canonical_overtaken :
    ¬ ∀ device t s, t.icanon = true → Reach Steady (init device t) s →
      s.returned.flatten <+: (output t s.typed).flatten := by
  intro hall
  have hret : (runs Steady (init .console { DEF_TERMIOS with echoctl := false }) overtakenEvents).map
      (fun s => (s.returned.flatten.take 2, (output { DEF_TERMIOS with echoctl := false } s.typed).flatten.take 2)) =
        some ([27, 27], [27, 90]) := by decide +kernel
  obtain ⟨s, hs, hret⟩ := Option.map_eq_some_iff.1 hret
  obtain ⟨hread, hout⟩ := Prod.mk.inj hret
  obtain ⟨more, hmore⟩ := hall .console { DEF_TERMIOS with echoctl := false } s rfl (reach_runs hs)
  rw [← hmore, List.take_append_of_le_length] at hout
  · rw [hread] at hout
    exact absurd hout (by decide)
  · have hlen : (s.returned.flatten.take 2).length = 2 := congrArg List.length hread
    rw [List.length_take] at hlen
    omega

end LineDisc
end ChrDrv
end Linux095
