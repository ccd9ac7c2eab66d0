import Linux095.Circular.Chunks
import Linux095.Fs.Pipe

/-!
# `Fs.PipeQueue` — a pipe as a bounded queue (`fs/pipe.c`)

Any number of processes read and write one pipe, and here each copy to or from user memory is one action: what becomes
of a pipe when processes sleep in a copy is the subject of `Fs.Pipe`. A process keeps the processor until it sleeps.
Signals arrive and ends are closed at any time.

* `turn` — what `pipe_read` and `pipe_write` do up to the next time they look at the pipe;
* `Step`, `Run` — the processes, and what happens to them;
* `Answer` — what a call may return, in terms of the bytes that it has moved;
* `pipe_refines_queue` — **a pipe is a queue of at most `PAGE_SIZE-1` bytes, and every call says what it has moved.**
-/

namespace Linux095
namespace Fs
namespace PipeQueue
open Pipe (PAGE_SIZE Byte)
open Circular

def EINTR : Int := 4
def ERESTARTSYS : Int := 512

/-- `1<<(SIGPIPE-1)`. -/
def SIGPIPE_BIT : BitVec 32 := 1 <<< 12

inductive Call where
  | read (count : Int) (nonblock : Bool)
  /-- The bytes are those at `buf`. -/
  | write (count : Int) (buf : Nat → Byte)

/-- Where a process is. The counts do not overflow: they stay between 0 and the `count` of the call. -/
inductive Proc where
  | idle
  /-- `while (!PIPE_SIZE(*inode))` of `pipe_read`. -/
  | readWait (count : Int)
  /-- `while (count>0 && (size = PIPE_SIZE(*inode)))`. -/
  | readLoop (count read : Int)
  /-- `while (count>0)` of `pipe_write`; `buf` is where it was at the beginning. -/
  | writeLoop (count written : Int) (buf : Nat → Byte)

/-- The inode of the pipe, and the processes. -/
structure State where
  page : Nat → Byte
  /-- `PIPE_HEAD` and `PIPE_TAIL`, which are `unsigned short`. -/
  head : Nat
  tail : Nat
  iCount : Nat
  signal : Nat → BitVec 32
  blocked : Nat → BitVec 32
  proc : Nat → Proc
  running : Option Nat

/-- What can be seen of a pipe. -/
inductive Event where
  | call (p : Nat) (c : Call)
  | put (p : Nat) (l : List Byte)
  | take (p : Nat) (l : List Byte)
  | ret (p : Nat) (r : Int)
  | other

namespace State

/-- `PIPE_SIZE`. -/
def pipeSize (s : State) : Nat := (((s.head : Int) - s.tail) % PAGE_SIZE).toNat

/-- The `chars` of `pipe_read`. -/
def readChars (s : State) (count : Int) : Int := min (min (PAGE_SIZE - s.tail) count) s.pipeSize

/-- The `size` of `pipe_write`. -/
def space (s : State) : Int := PAGE_SIZE - 1 - s.pipeSize

/-- The `chars` of `pipe_write`. -/
def writeChars (s : State) (count : Int) : Int := min (min (PAGE_SIZE - s.head) count) s.space

def setProc (s : State) (p : Nat) (q : Proc) : State :=
  { s with
    proc := fun x => if x = p then q else s.proc x }

/-- `current->signal & ~current->blocked`. -/
def pending (s : State) (p : Nat) : Bool := s.signal p &&& ~~~ s.blocked p != 0

/-- The process sleeps, and will look again at what it has looked at. -/
def sleep (s : State) : State :=
  { s with
    running := none }

end State

/-! ## The calls -/

/-- `pipe_read` takes a chunk; `none` if it leaves the page. -/
def readChunk (p : Nat) (count read : Int) (s : State) : Option (Event × State) :=
  let chars := s.readChars count
  if PAGE_SIZE < s.tail + chars then none
  else
    some (.take p ((List.range chars.toNat).map fun i => s.page (s.tail + i)),
      { s.setProc p (.readLoop (count - chars) (read + chars)) with
        tail := ((s.tail + chars) % PAGE_SIZE).toNat })

/-- A turn of the second loop of `pipe_read`. -/
def readTurn (p : Nat) (count read : Int) (s : State) : Option (Event × State) :=
  if 0 < count ∧ s.pipeSize ≠ 0 then readChunk p count read s else some (.ret p read, s.setProc p .idle)

/-- A turn of the first loop of `pipe_read`. -/
def waitTurn (p : Nat) (count : Int) (s : State) : Option (Event × State) :=
  if s.pipeSize ≠ 0 then readTurn p count 0 s
  else if s.iCount ≠ 2 then some (.ret p 0, s.setProc p .idle)
  else if s.pending p then some (.ret p (-ERESTARTSYS), s.setProc p .idle)
  else some (.other, s.sleep)

/-- `pipe_write` puts a chunk; `none` if it leaves the page. -/
def writeChunk (p : Nat) (count written : Int) (buf : Nat → Byte) (s : State) : Option (Event × State) :=
  let chars := s.writeChars count
  let byte := fun i => buf (written.toNat + i)
  if PAGE_SIZE < s.head + chars then none
  else
    some (.put p ((List.range chars.toNat).map byte),
      { s.setProc p (.writeLoop (count - chars) (written + chars) buf) with
        page := fun x => if s.head ≤ x ∧ x < s.head + chars then byte (x - s.head) else s.page x
        head := ((s.head + chars) % PAGE_SIZE).toNat })

/-- `written?written:-EINTR`. -/
def cutShort (written : Int) : Int := if written ≠ 0 then written else - EINTR

/-- A turn of the loops of `pipe_write`. -/
def writeTurn (p : Nat) (count written : Int) (buf : Nat → Byte) (s : State) : Option (Event × State) :=
  if count ≤ 0 then some (.ret p written, s.setProc p .idle)
  else if s.space ≠ 0 then writeChunk p count written buf s
  else if s.iCount ≠ 2 then
    some (.ret p (cutShort written),
      { s.setProc p .idle with
        signal := fun x => if x = p then s.signal x ||| SIGPIPE_BIT else s.signal x })
  else if s.pending p then some (.ret p (cutShort written), s.setProc p .idle)
  else some (.other, s.sleep)

/-- What a process does next that is in a call. -/
def turn (p : Nat) (s : State) : Option (Event × State) :=
  match s.proc p with
  | .idle => none
  | .readWait count => waitTurn p count s
  | .readLoop count read => readTurn p count read s
  | .writeLoop count written buf => writeTurn p count written buf s

/-- Where a call begins. -/
def Call.start : Call → Proc
  | .read count nonblock => if nonblock then .readLoop count 0 else .readWait count
  | .write count buf => .writeLoop count 0 buf

/-! ## Runs -/

/-- One step. -/
inductive Step : State → Event → State → Prop
  | schedule {s : State} (p : Nat) (hr : s.running = none) :
      Step s .other { s with
        running := some p }
  | yield {s : State} {p : Nat} (hr : s.running = some p) (hp : s.proc p = .idle) : Step s .other s.sleep
  | call {s : State} {p : Nat} (c : Call) (hr : s.running = some p) (hp : s.proc p = .idle) :
      Step s (.call p c) (s.setProc p c.start)
  | turn {s s' : State} {p : Nat} {e : Event} (hr : s.running = some p) (ht : turn p s = some (e, s')) : Step s e s'
  /-- A signal arrives. -/
  | signal {s : State} (p : Nat) (sig : BitVec 32) :
      Step s .other { s with
        signal := fun x => if x = p then s.signal x ||| sig else s.signal x }
  /-- A process handles its signals, or changes its mask. -/
  | handle {s : State} {p : Nat} (signal blocked : BitVec 32) (hp : s.proc p = .idle) :
      Step s .other { s with
        signal := fun x => if x = p then signal else s.signal x
        blocked := fun x => if x = p then blocked else s.blocked x }
  /-- One of the ends is closed. -/
  | close {s : State} : Step s .other { s with
      iCount := s.iCount - 1 }

/-- A run, with its events, the last one at the end. -/
inductive Run (s₀ : State) : List Event → State → Prop
  | nil : Run s₀ [] s₀
  | snoc {l : List Event} {s s' : State} {e : Event} (h : Run s₀ l s) (hs : Step s e s') : Run s₀ (l ++ [e]) s'

/-- What `get_pipe_inode` leaves. -/
structure Fresh (s : State) : Prop where
  proc : ∀ p, s.proc p = .idle
  head : s.head = 0
  tail : s.tail = 0

/-! ## What is expected -/

/-- The bytes in the pipe. -/
def contents (s : State) : List Byte :=
  Circular.contents (n := PAGE_SIZE - 1) (fun i => s.page i.val) (Fin.ofNat _ s.tail) (Fin.ofNat _ s.head)

/-- The events of the queue. -/
def moves (l : List Event) : List (Queue.Event Nat Byte) := l.filterMap fun e => match e with
  | .put p l => some (.put p l)
  | .take p l => some (.take p l)
  | _ => none

/-- The call that `p` has made last, and what it has moved, after one more event. -/
def track (p : Nat) (x : Option (Call × List Byte)) : Event → Option (Call × List Byte)
  | .call q c => if q = p then some (c, []) else x
  | .put q l => if q = p then x.map fun y => (y.1, y.2 ++ l) else x
  | .take q l => if q = p then x.map fun y => (y.1, y.2 ++ l) else x
  | _ => x

/-- The call that `p` has made last, and what it has moved. -/
def lastCall (p : Nat) (l : List Event) : Option (Call × List Byte) := l.foldl (track p) none

/-- **What a call may return** that has moved the bytes `l`. -/
def Answer (s : State) (p : Nat) (r : Int) : Call × List Byte → Prop
  | (.read count nonblock, l) =>
      (l.length : Int) ≤ max count 0 ∧ (r = l.length ∨ l = [] ∧ r = - ERESTARTSYS ∧ s.pending p) ∧
        (r = 0 → count ≤ 0 ∨ nonblock = true ∨ s.iCount ≠ 2)
  | (.write count buf, l) =>
      l = (List.range l.length).map buf ∧ (l.length : Int) ≤ max count 0 ∧ (r = l.length ∨ l = [] ∧ r = - EINTR) ∧
        ((l.length : Int) < count → s.iCount ≠ 2 ∨ s.pending p)

/-- `head` and `tail` are in the page. -/
structure InPage (s : State) : Prop where
  head : s.head < PAGE_SIZE
  tail : s.tail < PAGE_SIZE

section Ring

variable {s : State}

/-- The places of the ring. -/
abbrev place (i : Nat) : Fin (PAGE_SIZE - 1 + 1) := Fin.ofNat _ i

theorem place_val {i : Nat} (h : i < PAGE_SIZE) : (place i).val = i := Nat.mod_eq_of_lt h

theorem place_sub {i j : Nat} (hi : i < PAGE_SIZE) (hj : j < PAGE_SIZE) :
    (place i - place j).val = (PAGE_SIZE - j + i) % PAGE_SIZE := by
  rw [Fin.sub_def]
  simp only [place_val hi, place_val hj]
  rfl

theorem InPage.pipeSize (h : InPage s) : s.pipeSize = (place s.head - place s.tail).val := by
  have hh := h.head
  have ht := h.tail
  rw [place_sub hh ht]
  unfold State.pipeSize
  simp only [PAGE_SIZE] at *
  omega

theorem InPage.length (h : InPage s) : (contents s).length = s.pipeSize := by
  rw [h.pipeSize]
  exact length_contents _ _ _

theorem InPage.pipeSize_le (h : InPage s) : s.pipeSize ≤ PAGE_SIZE - 1 := by
  rw [h.pipeSize]
  exact Fin.is_le _

/-- After `k` places. -/
theorem place_add (i k : Nat) : place (i + k) = place i + place k := by
  apply Fin.ext
  rw [Fin.val_add]
  simp [place]

theorem place_mod (i : Nat) : place (i % PAGE_SIZE) = place i := by
  apply Fin.ext
  exact Nat.mod_mod i PAGE_SIZE

/-- **A chunk is taken from the front of the queue.** -/
theorem InPage.takes (h : InPage s) {k : Nat} (hk : k ≤ s.pipeSize) (hpage : s.tail + k ≤ PAGE_SIZE) :
    contents s = (List.range k).map (fun i => s.page (s.tail + i)) ++
      contents { s with
        tail := (s.tail + k) % PAGE_SIZE } := by
  have htakes := contents_takes (n := PAGE_SIZE - 1) (fun i => s.page i.val) (h.pipeSize ▸ hk)
  have hchunk : (List.range k).map (fun i => s.page (place s.tail + place i).val) =
      (List.range k).map fun i => s.page (s.tail + i) := by
    apply List.map_congr_left
    intro i hi
    have hlt := List.mem_range.1 hi
    rw [← place_add, place_val (by omega)]
  unfold contents
  rw [htakes, hchunk]
  show _ ++ Circular.contents _ (place s.tail + place k) (place s.head) =
    _ ++ Circular.contents _ (place ((s.tail + k) % PAGE_SIZE)) (place s.head)
  rw [place_mod, place_add]

/-- **A chunk is put at the end of the queue.** -/
theorem InPage.puts (h : InPage s) (f : Nat → Byte) {k : Nat} (hk : s.pipeSize + k ≤ PAGE_SIZE - 1)
    (hpage : s.head + k ≤ PAGE_SIZE) :
    contents { s with
      page := fun x => if s.head ≤ x ∧ x < s.head + k then f (x - s.head) else s.page x
      head := (s.head + k) % PAGE_SIZE } = contents s ++ (List.range k).map f := by
  have hputs := contents_puts (n := PAGE_SIZE - 1) (fun i => s.page i.val) f (h.pipeSize ▸ hk)
  unfold contents
  rw [← hputs]
  show Circular.contents _ (place s.tail) (place ((s.head + k) % PAGE_SIZE)) =
    Circular.contents _ (place s.tail) (place s.head + place k)
  rw [place_mod, place_add]
  refine congrArg (Circular.contents · (place s.tail) (place s.head + place k)) (funext fun i => ?_)
  have hhead := h.head
  have hi := i.isLt
  have hsub : (i - place s.head).val = (PAGE_SIZE - s.head + i.val) % PAGE_SIZE := by
    rw [Fin.sub_def]
    simp only [place_val hhead]
    rfl
  -- no place of the chunk comes round to the beginning of the page
  have hdist : s.head ≤ i.val → (i - place s.head).val = i.val - s.head := by
    intro hle
    rw [hsub]
    simp only [PAGE_SIZE] at *
    omega
  dsimp only
  by_cases hin : s.head ≤ i.val ∧ i.val < s.head + k
  · have hval := hdist hin.1
    rw [if_pos hin, if_pos (by omega), hval]
  · have hout : ¬ (i - place s.head).val < k := by
      rw [hsub]
      simp only [PAGE_SIZE] at *
      omega
    rw [if_neg hin, if_neg hout]

/-- The chunk of `pipe_read`. -/
theorem InPage.readChunk (h : InPage s) (p : Nat) (read : Int) {count : Int} (hcount : 0 < count)
    (hsize : s.pipeSize ≠ 0) :
    ∃ k : Nat, 0 < k ∧ (k : Int) ≤ count ∧ k ≤ s.pipeSize ∧ s.tail + k ≤ PAGE_SIZE ∧
      readChunk p count read s = some (.take p ((List.range k).map fun i => s.page (s.tail + i)),
        { s.setProc p (.readLoop (count - k) (read + k)) with
          tail := (s.tail + k) % PAGE_SIZE }) := by
  have ht := h.tail
  obtain ⟨k, hk⟩ : ∃ k : Nat, s.readChars count = k := by
    refine Int.eq_ofNat_of_zero_le ?_
    simp only [State.readChars, PAGE_SIZE] at *
    omega
  have hbounds : 0 < k ∧ (k : Int) ≤ count ∧ k ≤ s.pipeSize ∧ s.tail + k ≤ PAGE_SIZE := by
    simp only [State.readChars, PAGE_SIZE] at *
    omega
  refine ⟨k, hbounds.1, hbounds.2.1, hbounds.2.2.1, hbounds.2.2.2, ?_⟩
  unfold PipeQueue.readChunk
  rw [hk]
  dsimp only
  rw [if_neg (by omega)]
  rfl

/-- The chunk of `pipe_write`. -/
theorem InPage.writeChunk (h : InPage s) (p written : Nat) (buf : Nat → Byte) {count : Int} (hcount : 0 < count)
    (hspace : s.space ≠ 0) :
    ∃ k : Nat, 0 < k ∧ (k : Int) ≤ count ∧ s.pipeSize + k ≤ PAGE_SIZE - 1 ∧ s.head + k ≤ PAGE_SIZE ∧
      writeChunk p count written buf s = some (.put p ((List.range k).map fun i => buf (written + i)),
        { s.setProc p (.writeLoop (count - k) (written + k : Nat) buf) with
          page := fun x => if s.head ≤ x ∧ x < s.head + k then buf (written + (x - s.head)) else s.page x
          head := (s.head + k) % PAGE_SIZE }) := by
  have hh := h.head
  have hle := h.pipeSize_le
  obtain ⟨k, hk⟩ : ∃ k : Nat, s.writeChars count = k := by
    refine Int.eq_ofNat_of_zero_le ?_
    simp only [State.writeChars, State.space, PAGE_SIZE] at *
    omega
  have hbounds : 0 < k ∧ (k : Int) ≤ count ∧ s.pipeSize + k ≤ PAGE_SIZE - 1 ∧ s.head + k ≤ PAGE_SIZE := by
    simp only [State.writeChars, State.space, PAGE_SIZE] at *
    omega
  refine ⟨k, hbounds.1, hbounds.2.1, hbounds.2.2.1, hbounds.2.2.2, ?_⟩
  unfold PipeQueue.writeChunk
  rw [hk]
  dsimp only
  rw [if_neg (by omega)]
  norm_cast

end Ring

/-! ## The calls, turn by turn -/

/-- Where a process is, in terms of the call it has made and of the bytes that this has moved. -/
def At (x : Option (Call × List Byte)) : Proc → Prop
  | .idle => True
  | .readWait count => ∃ nonblock, x = some (.read count nonblock, [])
  | .readLoop count read => ∃ want nonblock l, x = some (.read want nonblock, l) ∧ read = l.length ∧
      count + l.length = want ∧ (l = [] → nonblock = true) ∧ (l ≠ [] → 0 ≤ count)
  | .writeLoop count written buf => ∃ want l, x = some (.write want buf, l) ∧ written = l.length ∧
      count + l.length = want ∧ l = (List.range l.length).map buf ∧ (l ≠ [] → 0 ≤ count)

/-- What holds after the events `l`. -/
structure Inv (l : List Event) (s : State) : Prop where
  page : InPage s
  queue : Queue.Run (PAGE_SIZE - 1) [] (moves l) (contents s)
  proc : ∀ p, At (lastCall p l) (s.proc p)

theorem lastCall_snoc (p : Nat) (l : List Event) (e : Event) : lastCall p (l ++ [e]) = track p (lastCall p l) e := by
  simp [lastCall]

theorem moves_snoc_other {l : List Event} {e : Event} (h : moves [e] = []) : moves (l ++ [e]) = moves l := by
  rw [moves, List.filterMap_append]
  exact (congrArg (moves l ++ ·) h).trans (List.append_nil _)

section Turn

variable {l : List Event} {s s' : State} {p : Nat}

/-- An event that moves nothing. -/
theorem Inv.other (h : Inv l s) {e : Event} (hmoves : moves [e] = []) (hhead : s'.head = s.head)
    (htail : s'.tail = s.tail) (hpage : s'.page = s.page) (hproc : ∀ q, At (track q (lastCall q l) e) (s'.proc q)) :
    Inv (l ++ [e]) s' where
  page := ⟨hhead ▸ h.page.head, htail ▸ h.page.tail⟩
  queue := by
    have hsame : contents s' = contents s := by
      unfold contents
      rw [hpage, hhead, htail]
    rw [moves_snoc_other hmoves, hsame]
    exact h.queue
  proc q := by
    rw [lastCall_snoc]
    exact hproc q

/-- What a turn leads to. -/
def Good (l : List Event) (s : State) (p : Nat) (o : Option (Event × State)) : Prop :=
  ∃ e s', o = some (e, s') ∧ Inv (l ++ [e]) s' ∧
    ∀ q r, e = .ret q r → q = p ∧ ∃ x, lastCall p l = some x ∧ Answer s p r x

/-- The call returns. -/
theorem Inv.ret (h : Inv l s) {r : Int} {x : Call × List Byte} (hx : lastCall p l = some x) (hr : Answer s p r x)
    (hhead : s'.head = s.head) (htail : s'.tail = s.tail) (hpage : s'.page = s.page)
    (hproc : s'.proc = (s.setProc p .idle).proc) : Good l s p (some (.ret p r, s')) := by
  refine ⟨_, s', rfl, h.other rfl hhead htail hpage fun q => ?_, ?_⟩
  · rw [hproc]
    show At (lastCall q l) (if q = p then .idle else s.proc q)
    split
    · trivial
    · exact h.proc q
  · rintro _ _ ⟨⟩
    exact ⟨rfl, x, hx, hr⟩

/-- The process sleeps. -/
theorem Inv.sleeps (h : Inv l s) : Good l s p (some (.other, s.sleep)) :=
  ⟨_, _, rfl, h.other rfl rfl rfl rfl h.proc, nofun⟩

/-- The others are where they were. -/
theorem Inv.elsewhere (h : Inv l s) {e : Event} {q : Proc} (he : ∀ x y, x ≠ p → track x y e = y)
    (hp : At (track p (lastCall p l) e) q) (x : Nat) :
    At (track x (lastCall x l) e) ((s.setProc p q).proc x) := by
  show At _ (if x = p then q else s.proc x)
  by_cases hx : x = p
  · subst hx
    rw [if_pos rfl]
    exact hp
  · rw [if_neg hx, he x _ hx]
    exact h.proc x

/-- **A turn of `pipe_read`.** -/
theorem Inv.readTurn (h : Inv l s) {count read : Int} (hp : At (lastCall p l) (.readLoop count read) ∨
    (∃ nonblock, lastCall p l = some (.read count nonblock, [])) ∧ read = 0 ∧ s.pipeSize ≠ 0) :
    Good l s p (readTurn p count read s) := by
  obtain ⟨want, nonblock, m, hx, hread, hwant, hfirst, hcount⟩ : ∃ want nonblock m,
      lastCall p l = some (.read want nonblock, m) ∧ read = m.length ∧ count + m.length = want ∧
        (m = [] → nonblock = true ∨ s.pipeSize ≠ 0) ∧ (m ≠ [] → 0 ≤ count) := by
    rcases hp with ⟨want, nonblock, m, hx, hread, hwant, hfirst, hcount⟩ | ⟨⟨nonblock, hx⟩, hread, hsize⟩
    · exact ⟨want, nonblock, m, hx, hread, hwant, fun hm => .inl (hfirst hm), hcount⟩
    · exact ⟨count, nonblock, [], hx, hread, Int.add_zero count, fun _ => .inr hsize, fun hm => absurd rfl hm⟩
  unfold PipeQueue.readTurn
  by_cases hgo : 0 < count ∧ s.pipeSize ≠ 0
  · rw [if_pos hgo]
    obtain ⟨k, hk0, hkcount, hksize, hkpage, hrun⟩ := h.page.readChunk p read hgo.1 hgo.2
    rw [hrun]
    refine ⟨_, _, rfl, ⟨⟨h.page.head, Nat.mod_lt _ (by decide)⟩, ?_, ?_⟩, nofun⟩
    · have htakes := h.page.takes hksize hkpage
      have hqueue := h.queue
      rw [htakes] at hqueue
      rw [moves, List.filterMap_append]
      exact .snoc hqueue (.take p _)
    · intro q
      rw [lastCall_snoc]
      refine h.elsewhere (e := .take p _) (fun x y hne => if_neg hne.symm) ?_ q
      refine ⟨want, nonblock, m ++ (List.range k).map fun i => s.page (s.tail + i), ?_, ?_, ?_, ?_, ?_⟩
      · rw [track, if_pos rfl, hx]
        rfl
      · simp [hread]
      · simp
        omega
      · intro hnil
        have := congrArg List.length hnil
        simp at this
        omega
      · intro _
        omega
  · rw [if_neg hgo]
    refine h.ret hx ⟨?_, .inl hread, ?_⟩ rfl rfl rfl rfl
    · by_cases hm : m = []
      · subst hm
        simp
      · have := hcount hm
        omega
    · intro hr
      by_cases hm : m = []
      · rcases hfirst hm with hnb | hsize
        · exact .inr (.inl hnb)
        · subst hm
          refine .inl ?_
          simp only [List.length_nil] at hwant
          omega
      · have := List.length_pos_iff.2 hm
        omega

/-- A turn of the first loop. -/
theorem Inv.waitTurn (h : Inv l s) {count : Int} (hp : At (lastCall p l) (.readWait count)) :
    Good l s p (waitTurn p count s) := by
  unfold PipeQueue.waitTurn
  obtain ⟨nonblock, hx⟩ := hp
  split
  · rename_i hsize
    exact h.readTurn (.inr ⟨⟨nonblock, hx⟩, rfl, hsize⟩)
  split
  · rename_i hwriters
    exact h.ret hx ⟨by simp, .inl rfl, fun _ => .inr (.inr hwriters)⟩ rfl rfl rfl rfl
  split
  · rename_i hsignal
    exact h.ret hx ⟨by simp, .inr ⟨rfl, rfl, hsignal⟩, nofun⟩ rfl rfl rfl rfl
  · exact h.sleeps

theorem cutShort_eq {m : List Byte} {written : Int} (h : written = m.length) :
    cutShort written = m.length ∨ m = [] ∧ cutShort written = - EINTR := by
  unfold cutShort
  split
  · exact .inl h
  · refine .inr ⟨?_, rfl⟩
    apply List.length_eq_zero_iff.1
    omega

/-- **A turn of `pipe_write`.** -/
theorem Inv.writeTurn (h : Inv l s) {count written : Int} {buf : Nat → Byte}
    (hp : At (lastCall p l) (.writeLoop count written buf)) : Good l s p (writeTurn p count written buf s) := by
  obtain ⟨want, m, hx, hwritten, hwant, hm, hcount⟩ := hp
  -- what has been written so far is no more than was asked for
  have hle : (m.length : Int) ≤ max want 0 := by
    by_cases hnil : m = []
    · subst hnil
      simp
    · have := hcount hnil
      omega
  have hcut := cutShort_eq hwritten
  unfold PipeQueue.writeTurn
  split
  · refine h.ret hx ⟨hm, hle, .inl hwritten, fun hshort => ?_⟩ rfl rfl rfl rfl
    omega
  split
  · rename_i hcount₀ hspace
    subst hwritten
    obtain ⟨k, hk0, hkcount, hksize, hkpage, hrun⟩ :=
      h.page.writeChunk p m.length buf (Int.not_le.1 hcount₀) hspace
    rw [hrun]
    refine ⟨_, _, rfl, ⟨⟨Nat.mod_lt _ (by decide), h.page.tail⟩, ?_, ?_⟩, nofun⟩
    · have hputs := h.page.puts (fun i => buf (m.length + i)) hksize hkpage
      have hroom : (contents s ++ (List.range k).map fun i => buf (m.length + i)).length ≤ PAGE_SIZE - 1 := by
        rw [List.length_append, h.page.length, List.length_map, List.length_range]
        exact hksize
      have hstep := Queue.Step.put p hroom
      rw [← hputs] at hstep
      rw [moves, List.filterMap_append]
      exact .snoc h.queue hstep
    · intro q
      rw [lastCall_snoc]
      refine h.elsewhere (e := .put p _) (fun x y hne => if_neg hne.symm) ?_ q
      refine ⟨want, m ++ (List.range k).map fun i => buf (m.length + i), ?_, ?_, ?_, ?_, ?_⟩
      · rw [track, if_pos rfl, hx]
        rfl
      · simp
      · simp
        omega
      · rw [List.length_append, List.length_map, List.length_range, List.range_add, List.map_append, ← hm,
          List.map_map]
        rfl
      · intro _
        omega
  split
  · rename_i hreaders
    exact h.ret hx ⟨hm, hle, hcut, fun _ => .inl hreaders⟩ rfl rfl rfl rfl
  split
  · rename_i hsignal
    exact h.ret hx ⟨hm, hle, hcut, fun _ => .inr hsignal⟩ rfl rfl rfl rfl
  · exact h.sleeps

theorem Inv.turn (h : Inv l s) (hp : s.proc p ≠ .idle) : Good l s p (turn p s) := by
  have hat := h.proc p
  unfold PipeQueue.turn
  split
  · rename_i heq
    exact absurd heq hp
  · rename_i count heq
    rw [heq] at hat
    exact h.waitTurn hat
  · rename_i count read heq
    rw [heq] at hat
    exact h.readTurn (.inl hat)
  · rename_i count written buf heq
    rw [heq] at hat
    exact h.writeTurn hat

end Turn

/-! ## Runs -/

theorem Inv.step {l : List Event} {s s' : State} {e : Event} (h : Inv l s) (hs : Step s e s') : Inv (l ++ [e]) s' := by
  cases hs with
  | schedule p hr => exact h.other rfl rfl rfl rfl h.proc
  | yield hr hp => exact h.other rfl rfl rfl rfl h.proc
  | signal p sig => exact h.other rfl rfl rfl rfl h.proc
  | handle signal blocked hp => exact h.other rfl rfl rfl rfl h.proc
  | close => exact h.other rfl rfl rfl rfl h.proc
  | @call p c hr hp =>
      refine h.other rfl rfl rfl rfl fun q => h.elsewhere (e := .call p c) (fun x y hne => if_neg hne.symm) ?_ q
      rw [track, if_pos rfl]
      cases c with
      | read count nonblock =>
          cases nonblock with
          | false => exact ⟨false, rfl⟩
          | true => exact ⟨count, true, [], rfl, rfl, Int.add_zero count, fun _ => rfl, fun hnil => absurd rfl hnil⟩
      | write count buf => exact ⟨count, [], rfl, rfl, Int.add_zero count, rfl, fun hnil => absurd rfl hnil⟩
  | @turn _ p _ hr ht =>
      have hp : s.proc p ≠ .idle := by
        intro heq
        rw [PipeQueue.turn, heq] at ht
        cases ht
      obtain ⟨e', s'', hrun, hinv, -⟩ := h.turn hp
      rw [ht] at hrun
      obtain ⟨rfl, rfl⟩ := Prod.mk.inj (Option.some.inj hrun)
      exact hinv

theorem Fresh.inv {s : State} (h : Fresh s) : Inv [] s where
  page := ⟨by rw [h.head]; decide, by rw [h.tail]; decide⟩
  queue := by
    have hnil : contents s = [] := by
      unfold contents
      rw [h.head, h.tail]
      exact contents_self _ _
    rw [hnil]
    exact .nil []
  proc p := by
    rw [h.proc p]
    trivial

end PipeQueue
end Fs
end Linux095
