import Linux095.Fs.Types

/-!
# `Fs.Pipe` — pipes (`fs/pipe.c`)

Any number of processes read and write one pipe. A process keeps the processor until it sleeps: for want of
bytes or of space, or at any byte copied to or from user memory, which may fault. Both `pipe_read` and
`pipe_write` advance `PIPE_TAIL` or `PIPE_HEAD` by a whole chunk before they copy the bytes of it.

* `Step` — one step of one process, or of the scheduler;
* `Stream` — what a pipe is for: the bytes delivered are those accepted, each once and in order;
* `Clear` — the chunk about to be taken has no slot that another process is still copying;
* `stream_of_clear` — in every run whose chunks are clear, `Stream` holds throughout;
* `early_read` — without that it does not.
-/

namespace Linux095
namespace Fs
namespace Pipe

def PAGE_SIZE : Nat := 4096

abbrev Byte := BitVec 8

/-- What a process is doing. In a copy, `size` is the source's variable: the next slot of the page; `pos` counts
    the bytes of the pipe and `held` is the byte that `put_fs_byte` has been called with, both for the sake of
    the specification. -/
inductive Proc where
  /-- Not in the pipe. -/
  | idle
  /-- `while (!PIPE_SIZE(*inode))` of `pipe_read`. -/
  | readWait (count : Nat)
  /-- `while (count>0 && (size = PIPE_SIZE(*inode)))`. -/
  | readLoop (count read : Nat)
  /-- `while (chars-->0) put_fs_byte(..)`. -/
  | readCopy (chars size count read pos : Nat) (held : Option (Nat × Byte))
  /-- `while (count>0)` of `pipe_write`, with the bytes still to write. -/
  | writeLoop (data : List Byte) (written : Nat)
  /-- `while (chars-->0) .. = get_fs_byte(..)`, with the bytes of the chunk still to store. -/
  | writeCopy (chars : List Byte) (size : Nat) (data : List Byte) (written pos : Nat)

/-- The pipe, its processes and the one that has the processor. `accepted` is what `pipe_write` has taken
    chunks for, `taken` the number of bytes `pipe_read` has, and `delivered` what has reached user memory. -/
structure Config where
  page : Nat → Byte
  head : Nat
  tail : Nat
  procs : Nat → Proc
  running : Option Nat
  accepted : List Byte
  taken : Nat
  delivered : List (Nat × Byte)

namespace Config

/-- `PIPE_SIZE`. -/
def pipeSize (c : Config) : Nat := (c.head + PAGE_SIZE - c.tail) % PAGE_SIZE

/-- The `chars` of `pipe_read`. -/
def readChars (c : Config) (count : Nat) : Nat := min (min (PAGE_SIZE - c.tail) count) c.pipeSize

/-- The `size` of `pipe_write`: the space left. -/
def space (c : Config) : Nat := PAGE_SIZE - 1 - c.pipeSize

/-- The `chars` of `pipe_write`. -/
def writeChars (c : Config) (count : Nat) : Nat := min (min (PAGE_SIZE - c.head) count) c.space

def setProc (c : Config) (p : Nat) (q : Proc) : Config :=
  { c with procs := fun x => if x = p then q else c.procs x }

/-- `pipe_read` takes a chunk. -/
def readTake (c : Config) (p count read : Nat) : Config :=
  let chars := c.readChars count
  { c.setProc p (.readCopy chars c.tail (count - chars) (read + chars) c.taken none) with
    tail := (c.tail + chars) % PAGE_SIZE, taken := c.taken + chars }

/-- `pipe_write` takes a chunk. -/
def writeTake (c : Config) (p : Nat) (data : List Byte) (written : Nat) : Config :=
  let chars := c.writeChars data.length
  { c.setProc p (.writeCopy (data.take chars) c.head (data.drop chars) (written + chars) c.accepted.length) with
    head := (c.head + chars) % PAGE_SIZE, accepted := c.accepted ++ data.take chars }

end Config

/-- One step. A process that waits is woken and tests its condition again; signals and the number of
    processes that have the pipe open are not part of the state, so a process that finds nothing to do may
    also return. -/
inductive Step : Config → Config → Prop
  | schedule {c : Config} (p : Nat) (hr : c.running = none) : Step c { c with running := some p }
  | yield {c : Config} {p : Nat} (hr : c.running = some p) (hp : c.procs p = .idle) :
      Step c { c with running := none }
  | read {c : Config} {p : Nat} (count : Nat) (nonblock : Bool) (hr : c.running = some p) (hp : c.procs p = .idle) :
      Step c (c.setProc p (if nonblock then .readLoop count 0 else .readWait count))
  | readReturn {c : Config} {p count : Nat} (hr : c.running = some p) (hp : c.procs p = .readWait count)
      (hsize : c.pipeSize = 0) : Step c (c.setProc p .idle)
  | readSleep {c : Config} {p count : Nat} (hr : c.running = some p) (hp : c.procs p = .readWait count)
      (hsize : c.pipeSize = 0) : Step c { c with running := none }
  | readReady {c : Config} {p count : Nat} (hr : c.running = some p) (hp : c.procs p = .readWait count)
      (hsize : c.pipeSize ≠ 0) : Step c (c.setProc p (.readLoop count 0))
  | readTake {c : Config} {p count read : Nat} (hr : c.running = some p) (hp : c.procs p = .readLoop count read)
      (hcount : 0 < count) (hsize : c.pipeSize ≠ 0) : Step c (c.readTake p count read)
  | readDone {c : Config} {p count read : Nat} (hr : c.running = some p) (hp : c.procs p = .readLoop count read)
      (hdone : count = 0 ∨ c.pipeSize = 0) : Step c (c.setProc p .idle)
  | fetch {c : Config} {p chars size count read pos : Nat} (hr : c.running = some p)
      (hp : c.procs p = .readCopy (chars + 1) size count read pos none) :
      Step c (c.setProc p (.readCopy chars (size + 1) count read (pos + 1) (some (pos, c.page size))))
  | readFault {c : Config} {p chars size count read pos : Nat} {x : Nat × Byte} (hr : c.running = some p)
      (hp : c.procs p = .readCopy chars size count read pos (some x)) : Step c { c with running := none }
  | put {c : Config} {p chars size count read pos : Nat} {x : Nat × Byte} (hr : c.running = some p)
      (hp : c.procs p = .readCopy chars size count read pos (some x)) :
      Step c { c.setProc p (.readCopy chars size count read pos none) with delivered := c.delivered ++ [x] }
  | readNext {c : Config} {p size count read pos : Nat} (hr : c.running = some p)
      (hp : c.procs p = .readCopy 0 size count read pos none) : Step c (c.setProc p (.readLoop count read))
  | write {c : Config} {p : Nat} (data : List Byte) (hr : c.running = some p) (hp : c.procs p = .idle) :
      Step c (c.setProc p (.writeLoop data 0))
  | writeReturn {c : Config} {p written : Nat} {data : List Byte} (hr : c.running = some p)
      (hp : c.procs p = .writeLoop data written) (hdone : data = [] ∨ c.space = 0) : Step c (c.setProc p .idle)
  | writeSleep {c : Config} {p written : Nat} {data : List Byte} (hr : c.running = some p)
      (hp : c.procs p = .writeLoop data written) (hdata : data ≠ []) (hspace : c.space = 0) :
      Step c { c with running := none }
  | writeTake {c : Config} {p written : Nat} {data : List Byte} (hr : c.running = some p)
      (hp : c.procs p = .writeLoop data written) (hdata : data ≠ []) (hspace : c.space ≠ 0) :
      Step c (c.writeTake p data written)
  | writeFault {c : Config} {p size written pos : Nat} {b : Byte} {chars data : List Byte} (hr : c.running = some p)
      (hp : c.procs p = .writeCopy (b :: chars) size data written pos) : Step c { c with running := none }
  | store {c : Config} {p size written pos : Nat} {b : Byte} {chars data : List Byte} (hr : c.running = some p)
      (hp : c.procs p = .writeCopy (b :: chars) size data written pos) :
      Step c { c.setProc p (.writeCopy chars (size + 1) data written (pos + 1)) with
        page := fun x => if x = size then b else c.page x }
  | writeNext {c : Config} {p size written pos : Nat} {data : List Byte} (hr : c.running = some p)
      (hp : c.procs p = .writeCopy [] size data written pos) : Step c (c.setProc p (.writeLoop data written))

/-- A pipe that nobody has used yet. -/
structure Fresh (c : Config) : Prop where
  procs : ∀ p, c.procs p = .idle
  head : c.head = 0
  tail : c.tail = 0
  accepted : c.accepted = []
  taken : c.taken = 0
  delivered : c.delivered = []

/-! ## What it is for -/

/-- Byte `i` of the pipe is accepted, and the process still has to store it. -/
def Proc.Storing (i : Nat) : Proc → Prop
  | writeCopy chars _ _ _ pos => pos ≤ i ∧ i < pos + chars.length
  | _ => False

/-- Byte `i` of the pipe is taken, and the process still has to fetch it from the page. -/
def Proc.Fetching (i : Nat) : Proc → Prop
  | readCopy chars _ _ _ pos _ => pos ≤ i ∧ i < pos + chars
  | _ => False

/-- The process holds the byte `x.2`, number `x.1` of the pipe. -/
def Proc.Holding (x : Nat × Byte) : Proc → Prop
  | readCopy _ _ _ _ _ held => held = some x
  | _ => False

/-- The slot of the page is one the process still has to store. -/
def Proc.StoresSlot (s : Nat) : Proc → Prop
  | writeCopy chars size _ _ _ => size ≤ s ∧ s < size + chars.length
  | _ => False

/-- The slot of the page is one the process still has to fetch. -/
def Proc.FetchesSlot (s : Nat) : Proc → Prop
  | readCopy chars size _ _ _ _ => size ≤ s ∧ s < size + chars
  | _ => False

/-- **The condition.** A process about to take a chunk takes no slot that is still being copied: `pipe_read`
    none that a writer has still to store, `pipe_write` none that a reader has still to fetch. -/
def Clear (c : Config) : Prop :=
  ∀ p ∈ c.running, match c.procs p with
    | .readLoop count _ => ∀ q s, c.tail ≤ s → s < c.tail + c.readChars count → ¬ (c.procs q).StoresSlot s
    | .writeLoop data _ => ∀ q s, c.head ≤ s → s < c.head + c.writeChars data.length → ¬ (c.procs q).FetchesSlot s
    | _ => True

/-- A run of which every step starts from a clear state. -/
def ClearRun : Config → Config → Prop := Relation.ReflTransGen fun c c' => Clear c ∧ Step c c'

/-! ## The stream and the ring

The chunks that are being copied, as relations between processes and numbers in the stream. -/

private theorem mod_ne {i j n : Nat} (h : i < j) (hn : j < i + n) : i % n ≠ j % n := by
  intro he
  have hdvd : n ∣ j - i := (Nat.modEq_iff_dvd' h.le).mp he
  exact absurd (Nat.le_of_dvd (by omega) hdvd) (by omega)

/-- The page holds the stream where nobody is still storing it, and everything taken is accounted for once. -/
structure Ring (page : Nat → Byte) (accepted : List Byte) (taken : Nat) (delivered : List (Nat × Byte))
    (S F : Nat → Nat → Prop) (H : Nat → Nat × Byte → Prop) : Prop where
  le : taken ≤ accepted.length
  window : accepted.length < taken + PAGE_SIZE
  storing : ∀ p i, S p i → taken ≤ i ∧ i < accepted.length
  fetching : ∀ p i, F p i → i < taken
  holding : ∀ p x, H p x → x.1 < taken ∧ accepted[x.1]? = some x.2
  page : ∀ i < accepted.length, (taken ≤ i ∨ ∃ p, F p i) → (∀ q, ¬ S q i) →
    accepted[i]? = some (page (i % PAGE_SIZE))
  apart : ∀ p q i j, F p i → S q j → i % PAGE_SIZE ≠ j % PAGE_SIZE
  oneStoring : ∀ p q i, S p i → S q i → p = q
  oneFetching : ∀ p q i, F p i → F q i → p = q
  oneHolding : ∀ p q i b b', H p (i, b) → H q (i, b') → p = q ∧ b = b'
  fetchOrHold : ∀ p q i b, F p i → ¬ H q (i, b)
  same : ∀ x ∈ delivered, x.1 < taken ∧ accepted[x.1]? = some x.2
  once : (delivered.map (·.1)).Nodup
  gone : ∀ x ∈ delivered, ∀ p, ¬ F p x.1 ∧ ∀ b, ¬ H p (x.1, b)
  all : ∀ i < taken, (∃ b, (i, b) ∈ delivered) ∨ ∃ p, F p i ∨ ∃ b, H p (i, b)

namespace Ring
variable {page : Nat → Byte} {accepted : List Byte} {taken : Nat} {delivered : List (Nat × Byte)}
  {S F S' F' : Nat → Nat → Prop} {H H' : Nat → Nat × Byte → Prop} {p : Nat}

/-- A reader takes `n` bytes that are all stored. -/
theorem takeRead (h : Ring page accepted taken delivered S F H) {n : Nat} (hn : taken + n ≤ accepted.length)
    (hstored : ∀ q i, S q i → taken + n ≤ i)
    (hF : ∀ q i, F' q i ↔ F q i ∨ (q = p ∧ taken ≤ i ∧ i < taken + n)) :
    Ring page accepted (taken + n) delivered S F' H where
  le := hn
  window := by
    have := h.window
    omega
  storing q i hi := ⟨hstored q i hi, (h.storing q i hi).2⟩
  fetching q i hi := by
    rcases (hF q i).mp hi with hi | ⟨-, -, hi⟩
    · have := h.fetching q i hi
      omega
    · exact hi
  holding q x hx := ⟨by have := (h.holding q x hx).1; omega, (h.holding q x hx).2⟩
  page i hi hsome hnone := by
    refine h.page i hi ?_ hnone
    rcases hsome with hi | ⟨q, hq⟩
    · exact .inl (by omega)
    · rcases (hF q i).mp hq with hq | ⟨-, hq, -⟩
      · exact .inr ⟨q, hq⟩
      · exact .inl hq
  apart q r i j hi hj := by
    rcases (hF q i).mp hi with hi | ⟨-, hlo, hhi⟩
    · exact h.apart q r i j hi hj
    · have hj1 := hstored r j hj
      have hj2 := (h.storing r j hj).2
      have := h.window
      exact mod_ne (by omega) (by omega)
  oneStoring := h.oneStoring
  oneFetching q r i hi hj := by
    rcases (hF q i).mp hi with hi | ⟨rfl, hlo, -⟩
    · rcases (hF r i).mp hj with hj | ⟨-, hlo, -⟩
      · exact h.oneFetching q r i hi hj
      · exact absurd (h.fetching q i hi) (by omega)
    · rcases (hF r i).mp hj with hj | ⟨rfl, -, -⟩
      · exact absurd (h.fetching r i hj) (by omega)
      · rfl
  oneHolding := h.oneHolding
  fetchOrHold q r i b hi hr := by
    rcases (hF q i).mp hi with hi | ⟨-, hlo, -⟩
    · exact h.fetchOrHold q r i b hi hr
    · exact absurd (h.holding r _ hr).1 (by dsimp only; omega)
  same x hx := ⟨by have := (h.same x hx).1; omega, (h.same x hx).2⟩
  once := h.once
  gone x hx q := by
    refine ⟨fun hq => ?_, (h.gone x hx q).2⟩
    rcases (hF q x.1).mp hq with hq | ⟨-, hlo, -⟩
    · exact (h.gone x hx q).1 hq
    · exact absurd (h.same x hx).1 (by omega)
  all i hi := by
    by_cases hlt : i < taken
    · rcases h.all i hlt with hb | ⟨q, hq⟩
      · exact .inl hb
      · exact .inr ⟨q, hq.imp (fun hq => (hF q i).mpr (.inl hq)) id⟩
    · exact .inr ⟨p, .inl ((hF p i).mpr (.inr ⟨rfl, by omega, hi⟩))⟩

/-- A reader fetches a byte from its slot. -/
theorem fetch (h : Ring page accepted taken delivered S F H) {i : Nat} (hi : F p i)
    (hF : ∀ q j, F' q j ↔ F q j ∧ ¬ (q = p ∧ j = i))
    (hH : ∀ q x, H' q x ↔ H q x ∨ (q = p ∧ x = (i, page (i % PAGE_SIZE)))) :
    Ring page accepted taken delivered S F' H' := by
  have hlt := h.fetching p i hi
  have hbyte : accepted[i]? = some (page (i % PAGE_SIZE)) := by
    have := h.le
    exact h.page i (by omega) (.inr ⟨p, hi⟩) fun q hq => absurd (h.storing q i hq).1 (by omega)
  refine { h with fetching := ?_, holding := ?_, page := ?_, apart := ?_, oneFetching := ?_, oneHolding := ?_,
                  fetchOrHold := ?_, gone := ?_, all := ?_ }
  · exact fun q j hj => h.fetching q j ((hF q j).mp hj).1
  · intro q x hx
    rcases (hH q x).mp hx with hx | ⟨-, rfl⟩
    · exact h.holding q x hx
    · exact ⟨hlt, hbyte⟩
  · intro j hj hsome hnone
    exact h.page j hj (hsome.imp id fun ⟨q, hq⟩ => ⟨q, ((hF q j).mp hq).1⟩) hnone
  · exact fun q r j k hj hk => h.apart q r j k ((hF q j).mp hj).1 hk
  · exact fun q r j hq hr => h.oneFetching q r j ((hF q j).mp hq).1 ((hF r j).mp hr).1
  · intro q r j b b' hq hr
    rcases (hH q _).mp hq with hq | ⟨rfl, hq⟩
    · rcases (hH r _).mp hr with hr | ⟨rfl, hr⟩
      · exact h.oneHolding q r j b b' hq hr
      · cases hr
        exact absurd hq (h.fetchOrHold r q i b hi)
    · cases hq
      rcases (hH r _).mp hr with hr | ⟨rfl, hr⟩
      · exact absurd hr (h.fetchOrHold q r i b' hi)
      · cases hr
        exact ⟨rfl, rfl⟩
  · intro q r j b hq hr
    obtain ⟨hq, hne⟩ := (hF q j).mp hq
    rcases (hH r _).mp hr with hr | ⟨rfl, hr⟩
    · exact h.fetchOrHold q r j b hq hr
    · cases hr
      exact hne ⟨h.oneFetching q r i hq hi, rfl⟩
  · intro x hx q
    refine ⟨fun hq => (h.gone x hx q).1 ((hF q _).mp hq).1, fun b hq => ?_⟩
    rcases (hH q _).mp hq with hq | ⟨-, hq⟩
    · exact (h.gone x hx q).2 b hq
    · obtain ⟨rfl, -⟩ := Prod.mk.inj hq
      exact (h.gone x hx p).1 hi
  · intro j hj
    rcases h.all j hj with hb | ⟨q, hq | ⟨b, hq⟩⟩
    · exact .inl hb
    · by_cases he : q = p ∧ j = i
      · obtain ⟨rfl, rfl⟩ := he
        exact .inr ⟨q, .inr ⟨_, (hH q _).mpr (.inr ⟨rfl, rfl⟩)⟩⟩
      · exact .inr ⟨q, .inl ((hF q j).mpr ⟨hq, he⟩)⟩
    · exact .inr ⟨q, .inr ⟨b, (hH q _).mpr (.inl hq)⟩⟩

/-- A reader delivers the byte it holds. -/
theorem put (h : Ring page accepted taken delivered S F H) {x : Nat × Byte} (hx : H p x)
    (hH : ∀ q y, H' q y ↔ H q y ∧ ¬ (q = p ∧ y = x)) :
    Ring page accepted taken (delivered ++ [x]) S F H' := by
  obtain ⟨i, b⟩ := x
  have hheld : ∀ q b', ¬ H' q (i, b') := by
    intro q b' hq
    obtain ⟨hq, hne⟩ := (hH q _).mp hq
    obtain ⟨rfl, rfl⟩ := h.oneHolding q p i b' b hq hx
    exact hne ⟨rfl, rfl⟩
  refine { h with holding := ?_, oneHolding := ?_, fetchOrHold := ?_, same := ?_, once := ?_, gone := ?_, all := ?_ }
  · exact fun q y hy => h.holding q y ((hH q y).mp hy).1
  · exact fun q r j b b' hq hr => h.oneHolding q r j b b' ((hH q _).mp hq).1 ((hH r _).mp hr).1
  · exact fun q r j b hq hr => h.fetchOrHold q r j b hq ((hH r _).mp hr).1
  · intro y hy
    rcases List.mem_append.mp hy with hy | hy
    · exact h.same y hy
    · obtain rfl := List.mem_singleton.mp hy
      exact h.holding p _ hx
  · rw [List.map_append, List.map_singleton]
    refine h.once.append (List.nodup_singleton _) ?_
    intro j hj hji
    obtain rfl := List.mem_singleton.mp hji
    obtain ⟨y, hy, rfl⟩ := List.mem_map.mp hj
    exact (h.gone y hy p).2 b hx
  · intro y hy q
    rcases List.mem_append.mp hy with hy | hy
    · exact ⟨(h.gone y hy q).1, fun b' hq => (h.gone y hy q).2 b' ((hH q _).mp hq).1⟩
    · obtain rfl := List.mem_singleton.mp hy
      exact ⟨fun hq => h.fetchOrHold q p i b hq hx, hheld q⟩
  · intro j hj
    rcases h.all j hj with ⟨b', hb⟩ | ⟨q, hq | ⟨b', hq⟩⟩
    · exact .inl ⟨b', List.mem_append_left _ hb⟩
    · exact .inr ⟨q, .inl hq⟩
    · by_cases he : q = p ∧ (j, b') = (i, b)
      · obtain ⟨-, he⟩ := he
        exact .inl ⟨b', he ▸ List.mem_append_right _ (List.mem_singleton.mpr rfl)⟩
      · exact .inr ⟨q, .inr ⟨b', (hH q _).mpr ⟨hq, he⟩⟩⟩

/-- A writer takes a chunk, none of whose slots is still to be fetched. -/
theorem takeWrite (h : Ring page accepted taken delivered S F H) {l : List Byte}
    (hwindow : accepted.length + l.length < taken + PAGE_SIZE)
    (hapart : ∀ q i j, F q i → accepted.length ≤ j → j < accepted.length + l.length → i % PAGE_SIZE ≠ j % PAGE_SIZE)
    (hS : ∀ q i, S' q i ↔ S q i ∨ (q = p ∧ accepted.length ≤ i ∧ i < accepted.length + l.length)) :
    Ring page (accepted ++ l) taken delivered S' F H := by
  have hle := h.le
  have hkeep : ∀ (i : Nat) (b : Byte), accepted[i]? = some b → (accepted ++ l)[i]? = some b := by
    intro i b hi
    rw [List.getElem?_append_left (List.getElem?_eq_some_iff.mp hi).1, hi]
  refine { h with le := ?_, window := ?_, storing := ?_, holding := ?_, page := ?_, apart := ?_, oneStoring := ?_,
                  same := ?_ }
  · rw [List.length_append]
    omega
  · rw [List.length_append]
    exact hwindow
  · intro q i hi
    rw [List.length_append]
    rcases (hS q i).mp hi with hi | ⟨-, hlo, hhi⟩
    · have := h.storing q i hi
      omega
    · omega
  · exact fun q x hx => ⟨(h.holding q x hx).1, hkeep _ _ (h.holding q x hx).2⟩
  · intro i hi hsome hnone
    by_cases hlt : i < accepted.length
    · exact hkeep _ _ (h.page i hlt hsome fun q hq => hnone q ((hS q i).mpr (.inl hq)))
    · rw [List.length_append] at hi
      exact absurd ((hS p i).mpr (.inr ⟨rfl, by omega, hi⟩)) (hnone p)
  · intro q r i j hi hj
    rcases (hS r j).mp hj with hj | ⟨-, hlo, hhi⟩
    · exact h.apart q r i j hi hj
    · exact hapart q i j hi hlo hhi
  · intro q r i hi hj
    rcases (hS q i).mp hi with hi | ⟨rfl, hlo, -⟩
    · rcases (hS r i).mp hj with hj | ⟨-, hlo, -⟩
      · exact h.oneStoring q r i hi hj
      · exact absurd (h.storing q i hi).2 (by omega)
    · rcases (hS r i).mp hj with hj | ⟨rfl, -, -⟩
      · exact absurd (h.storing r i hj).2 (by omega)
      · rfl
  · exact fun x hx => ⟨(h.same x hx).1, hkeep _ _ (h.same x hx).2⟩

/-- A writer stores a byte. -/
theorem store (h : Ring page accepted taken delivered S F H) {i : Nat} {b : Byte} (hi : S p i)
    (hb : accepted[i]? = some b) (hS : ∀ q j, S' q j ↔ S q j ∧ ¬ (q = p ∧ j = i)) :
    Ring (fun x => if x = i % PAGE_SIZE then b else page x) accepted taken delivered S' F H := by
  have hin := h.storing p i hi
  refine { h with storing := ?_, page := ?_, apart := ?_, oneStoring := ?_ }
  · exact fun q j hj => h.storing q j ((hS q j).mp hj).1
  · intro j hj hsome hnone
    by_cases he : j % PAGE_SIZE = i % PAGE_SIZE
    · rw [if_pos he]
      rcases hsome with htaken | ⟨q, hq⟩
      · -- both are in the window, so they are the same byte
        have := h.window
        rcases Nat.lt_trichotomy i j with hlt | rfl | hlt
        · exact absurd he.symm (mod_ne hlt (by omega))
        · exact hb
        · exact absurd he (mod_ne hlt (by omega))
      · exact absurd he (h.apart q p j i hq hi)
    · rw [if_neg he]
      refine h.page j hj hsome fun q hq => hnone q ((hS q j).mpr ⟨hq, ?_⟩)
      rintro ⟨-, rfl⟩
      exact he rfl
  · exact fun q r j k hj hk => h.apart q r j k hj ((hS r k).mp hk).1
  · exact fun q r j hq hr => h.oneStoring q r j ((hS q j).mp hq).1 ((hS r j).mp hr).1

end Ring

/-! ## The invariant -/

/-- What a process in a copy knows: where its chunk is in the stream, and in the page. -/
def Proc.Ok (accepted : List Byte) : Proc → Prop
  | readCopy chars size _ _ pos held =>
      (0 < chars → size = pos % PAGE_SIZE ∧ size + chars ≤ PAGE_SIZE) ∧ ∀ x ∈ held, x.1 < pos
  | writeCopy chars size _ _ pos =>
      (chars ≠ [] → size = pos % PAGE_SIZE ∧ size + chars.length ≤ PAGE_SIZE) ∧
        ∀ k (b : Byte), chars[k]? = some b → accepted[pos + k]? = some b
  | _ => True

structure Inv (c : Config) : Prop where
  ring : Ring c.page c.accepted c.taken c.delivered (fun p i => (c.procs p).Storing i)
    (fun p i => (c.procs p).Fetching i) fun p x => (c.procs p).Holding x
  head : c.head = c.accepted.length % PAGE_SIZE
  tail : c.tail = c.taken % PAGE_SIZE
  proc : ∀ p, (c.procs p).Ok c.accepted

/-- A process that is not copying. -/
structure Proc.Quiet (q : Proc) : Prop where
  storing : ∀ i, ¬ q.Storing i
  fetching : ∀ i, ¬ q.Fetching i
  holding : ∀ x, ¬ q.Holding x
  ok : ∀ accepted, q.Ok accepted

theorem Proc.quiet_idle : Proc.idle.Quiet := ⟨fun _ => id, fun _ => id, fun _ => id, fun _ => trivial⟩
theorem Proc.quiet_readWait (count : Nat) : (Proc.readWait count).Quiet :=
  ⟨fun _ => id, fun _ => id, fun _ => id, fun _ => trivial⟩
theorem Proc.quiet_readLoop (count read : Nat) : (Proc.readLoop count read).Quiet :=
  ⟨fun _ => id, fun _ => id, fun _ => id, fun _ => trivial⟩
theorem Proc.quiet_writeLoop (data : List Byte) (written : Nat) : (Proc.writeLoop data written).Quiet :=
  ⟨fun _ => id, fun _ => id, fun _ => id, fun _ => trivial⟩

theorem Proc.quiet_readCopy (size count read pos : Nat) : (Proc.readCopy 0 size count read pos none).Quiet where
  storing _ := id
  fetching _ h := by
    obtain ⟨hlo, hhi⟩ := h
    omega
  holding _ h := by cases h
  ok _ := ⟨by omega, by simp⟩

theorem Proc.quiet_writeCopy (size written pos : Nat) (data : List Byte) :
    (Proc.writeCopy [] size data written pos).Quiet where
  storing _ h := by
    obtain ⟨hlo, hhi⟩ := h
    rw [List.length_nil] at hhi
    omega
  fetching _ := id
  holding _ := id
  ok _ := ⟨by simp, by simp⟩

/-- What only the processes' own variables and the processor change. -/
theorem Inv.of_procs {c c' : Config} (h : Inv c) (hpage : c'.page = c.page) (hhead : c'.head = c.head)
    (htail : c'.tail = c.tail) (haccepted : c'.accepted = c.accepted) (htaken : c'.taken = c.taken)
    (hdelivered : c'.delivered = c.delivered)
    (hprocs : ∀ p, c'.procs p = c.procs p ∨ (c.procs p).Quiet ∧ (c'.procs p).Quiet) : Inv c' := by
  have hS : (fun p i => (c'.procs p).Storing i) = fun p i => (c.procs p).Storing i := by
    ext p i
    rcases hprocs p with hp | ⟨hq, hq'⟩
    · rw [hp]
    · exact iff_of_false (hq'.storing i) (hq.storing i)
  have hF : (fun p i => (c'.procs p).Fetching i) = fun p i => (c.procs p).Fetching i := by
    ext p i
    rcases hprocs p with hp | ⟨hq, hq'⟩
    · rw [hp]
    · exact iff_of_false (hq'.fetching i) (hq.fetching i)
  have hH : (fun p x => (c'.procs p).Holding x) = fun p x => (c.procs p).Holding x := by
    ext p x
    rcases hprocs p with hp | ⟨hq, hq'⟩
    · rw [hp]
    · exact iff_of_false (hq'.holding x) (hq.holding x)
  refine ⟨?_, ?_, ?_, fun p => ?_⟩
  · rw [hS, hF, hH, hpage, haccepted, htaken, hdelivered]
    exact h.ring
  · rw [hhead, haccepted]
    exact h.head
  · rw [htail, htaken]
    exact h.tail
  · rw [haccepted]
    rcases hprocs p with hp | ⟨-, hq'⟩
    · rw [hp]
      exact h.proc p
    · exact hq'.ok _

theorem Inv.setProc {c : Config} (h : Inv c) {p : Nat} {q : Proc} (hp : (c.procs p).Quiet) (hq : q.Quiet) :
    Inv (c.setProc p q) := by
  refine h.of_procs rfl rfl rfl rfl rfl rfl fun x => ?_
  unfold Config.setProc
  dsimp only
  split
  · rename_i hx
    exact .inr ⟨hx ▸ hp, hq⟩
  · exact .inl rfl

theorem Inv.setRunning {c : Config} (h : Inv c) (r : Option Nat) : Inv { c with running := r } :=
  h.of_procs rfl rfl rfl rfl rfl rfl fun _ => .inl rfl

/-- The bytes in the pipe. -/
theorem Inv.pipeSize {c : Config} (h : Inv c) : c.pipeSize = c.accepted.length - c.taken := by
  have := h.ring.le
  have := h.ring.window
  unfold Config.pipeSize
  rw [h.head, h.tail]
  unfold PAGE_SIZE at *
  omega

/-- A chunk does not wrap. -/
private theorem chunk_slot {a i n : Nat} (hlo : a ≤ i) (hhi : i < a + n) (hn : a % PAGE_SIZE + n ≤ PAGE_SIZE) :
    i % PAGE_SIZE = a % PAGE_SIZE + (i - a) := by
  unfold PAGE_SIZE at *
  omega

theorem Proc.Ok.storesSlot {accepted : List Byte} {q : Proc} (h : q.Ok accepted) {i : Nat} (hi : q.Storing i) :
    q.StoresSlot (i % PAGE_SIZE) := by
  cases q with
  | writeCopy chars size data written pos =>
      obtain ⟨hlo, hhi⟩ := hi
      have hne : chars ≠ [] := by
        rintro rfl
        rw [List.length_nil] at hhi
        omega
      obtain ⟨rfl, hsize⟩ := h.1 hne
      rw [chunk_slot hlo hhi hsize]
      exact ⟨by omega, by omega⟩
  | _ => exact hi.elim

theorem Proc.Ok.fetchesSlot {accepted : List Byte} {q : Proc} (h : q.Ok accepted) {i : Nat} (hi : q.Fetching i) :
    q.FetchesSlot (i % PAGE_SIZE) := by
  cases q with
  | readCopy chars size count read pos held =>
      obtain ⟨hlo, hhi⟩ := hi
      obtain ⟨rfl, hsize⟩ := h.1 (by omega)
      rw [chunk_slot hlo hhi hsize]
      exact ⟨by omega, by omega⟩
  | _ => exact hi.elim

/-! ## Steps -/

theorem Config.setProc_self (c : Config) (p : Nat) (q : Proc) : (c.setProc p q).procs p = q := if_pos rfl

theorem Config.setProc_ne (c : Config) {p x : Nat} (q : Proc) (h : x ≠ p) : (c.setProc p q).procs x = c.procs x :=
  if_neg h

/-- A property of processes that is the same of the old and the new `p`. -/
theorem Config.setProc_same {c : Config} {p : Nat} {q : Proc} {α : Type} {P : α → Proc → Prop}
    (h : ∀ a, P a q ↔ P a (c.procs p)) :
    (fun x a => P a ((c.setProc p q).procs x)) = fun x a => P a (c.procs x) := by
  ext x a
  by_cases hx : x = p
  · subst hx
    rw [c.setProc_self]
    exact h a
  · rw [c.setProc_ne q hx]

section
variable {c : Config} (h : Inv c) {p : Nat}
include h

/-- Taking a chunk to read. -/
theorem Inv.readTake {count read : Nat} (hp : c.procs p = .readLoop count read)
    (hclear : ∀ q s, c.tail ≤ s → s < c.tail + c.readChars count → ¬ (c.procs q).StoresSlot s) :
    Inv (c.readTake p count read) := by
  have hchars : c.readChars count ≤ c.accepted.length - c.taken ∧ c.tail + c.readChars count ≤ PAGE_SIZE := by
    have htail : c.tail < PAGE_SIZE := h.tail ▸ Nat.mod_lt _ (by decide)
    unfold Config.readChars
    rw [h.pipeSize]
    omega
  obtain ⟨hle, hwrap⟩ := hchars
  have hring := h.ring
  have htaken := hring.le
  unfold Config.readTake
  generalize c.readChars count = n at *
  -- no byte of the chunk is still to be stored
  have hstored : ∀ q i, (c.procs q).Storing i → c.taken + n ≤ i := by
    intro q i hi
    by_contra hlt
    have hin := hring.storing q i hi
    have hslot : i % PAGE_SIZE = c.tail + (i - c.taken) := by
      rw [h.tail]
      exact chunk_slot hin.1 (by omega) (h.tail ▸ hwrap)
    exact hclear q _ (by omega) (by omega) (hslot ▸ (h.proc q).storesSlot hi)
  refine ⟨?_, h.head, ?_, ?_⟩
  · dsimp only
    rw [Config.setProc_same (P := Proc.Storing) fun i => by rw [hp]; exact Iff.rfl,
      Config.setProc_same (P := Proc.Holding) fun x => by rw [hp]; exact iff_of_false (by rintro ⟨⟩) id]
    refine hring.takeRead (p := p) (by omega) hstored fun q i => ?_
    by_cases hq : q = p
    · subst hq
      rw [Config.setProc_self, hp]
      exact ⟨fun hi => .inr ⟨rfl, hi⟩, fun hi => hi.elim (fun hi => hi.elim) (·.2)⟩
    · rw [Config.setProc_ne _ _ hq]
      exact ⟨.inl, fun hi => hi.elim id fun hi => absurd hi.1 hq⟩
  · dsimp only
    rw [h.tail, Nat.mod_add_mod]
  · intro q
    dsimp only
    by_cases hq : q = p
    · rw [hq, Config.setProc_self]
      exact ⟨fun _ => ⟨h.tail, hwrap⟩, by simp⟩
    · rw [Config.setProc_ne _ _ hq]
      exact h.proc q

/-- Fetching a byte. -/
theorem Inv.fetch {chars size count read pos : Nat}
    (hp : c.procs p = .readCopy (chars + 1) size count read pos none) :
    Inv (c.setProc p (.readCopy chars (size + 1) count read (pos + 1) (some (pos, c.page size)))) := by
  obtain ⟨hsize, -⟩ : (Proc.readCopy (chars + 1) size count read pos none).Ok c.accepted := hp ▸ h.proc p
  obtain ⟨hslot, hwrap⟩ := hsize (by omega)
  refine ⟨?_, h.head, h.tail, ?_⟩
  · rw [Config.setProc_same (P := Proc.Storing) fun i => by rw [hp]; exact Iff.rfl]
    have hfetch : (c.procs p).Fetching pos := by
      rw [hp]
      exact ⟨by omega, by omega⟩
    refine h.ring.fetch hfetch (fun q j => ?_) fun q x => ?_
    · by_cases hq : q = p
      · subst hq
        rw [Config.setProc_self, hp]
        constructor
        · rintro ⟨hlo, hhi⟩
          exact ⟨⟨by omega, by omega⟩, by omega⟩
        · rintro ⟨⟨hlo, hhi⟩, hne⟩
          exact ⟨by omega, by omega⟩
      · rw [Config.setProc_ne _ _ hq]
        exact ⟨fun hj => ⟨hj, fun hne => hq hne.1⟩, (·.1)⟩
    · by_cases hq : q = p
      · subst hq
        rw [Config.setProc_self, hp, ← hslot]
        constructor
        · intro hx
          exact .inr ⟨rfl, (Option.some.inj hx).symm⟩
        · rintro (⟨⟨⟩⟩ | ⟨-, rfl⟩)
          exact rfl
      · rw [Config.setProc_ne _ _ hq]
        exact ⟨.inl, fun hx => hx.elim id fun hx => absurd hx.1 hq⟩
  · intro q
    by_cases hq : q = p
    · rw [hq, Config.setProc_self]
      refine ⟨fun _ => ?_, fun x hx => ?_⟩
      · have hnext : (pos + 1) % PAGE_SIZE = pos % PAGE_SIZE + (pos + 1 - pos) :=
          chunk_slot (n := chars + 1) (by omega) (by omega) (hslot ▸ hwrap)
        omega
      · cases hx
        exact Nat.lt_succ_self pos
    · rw [Config.setProc_ne _ _ hq]
      exact h.proc q

/-- Delivering a byte. -/
theorem Inv.put {chars size count read pos : Nat} {x : Nat × Byte}
    (hp : c.procs p = .readCopy chars size count read pos (some x)) :
    Inv { c.setProc p (.readCopy chars size count read pos none) with delivered := c.delivered ++ [x] } := by
  obtain ⟨hsize, -⟩ : (Proc.readCopy chars size count read pos (some x)).Ok c.accepted := hp ▸ h.proc p
  refine ⟨?_, h.head, h.tail, ?_⟩
  · dsimp only
    rw [Config.setProc_same (P := Proc.Storing) fun i => by rw [hp]; exact Iff.rfl,
      Config.setProc_same (P := Proc.Fetching) fun i => by rw [hp]; exact Iff.rfl]
    have hhold : (c.procs p).Holding x := by
      rw [hp]
      exact rfl
    refine h.ring.put hhold fun q y => ?_
    by_cases hq : q = p
    · subst hq
      rw [Config.setProc_self, hp]
      refine ⟨by rintro ⟨⟩, ?_⟩
      rintro ⟨hy, hne⟩
      exact absurd ⟨rfl, (Option.some.inj hy).symm⟩ hne
    · rw [Config.setProc_ne _ _ hq]
      exact ⟨fun hy => ⟨hy, fun hne => hq hne.1⟩, (·.1)⟩
  · intro q
    dsimp only
    by_cases hq : q = p
    · rw [hq, Config.setProc_self]
      exact ⟨hsize, by simp⟩
    · rw [Config.setProc_ne _ _ hq]
      exact h.proc q

/-- Taking a chunk to write. -/
theorem Inv.writeTake {data : List Byte} {written : Nat} (hp : c.procs p = .writeLoop data written)
    (hclear : ∀ q s, c.head ≤ s → s < c.head + c.writeChars data.length → ¬ (c.procs q).FetchesSlot s) :
    Inv (c.writeTake p data written) := by
  have hring := h.ring
  have hchars : c.writeChars data.length ≤ data.length ∧ c.head + c.writeChars data.length ≤ PAGE_SIZE ∧
      c.accepted.length + c.writeChars data.length < c.taken + PAGE_SIZE := by
    have hhead : c.head < PAGE_SIZE := h.head ▸ Nat.mod_lt _ (by decide)
    have hle := hring.le
    have hwindow := hring.window
    unfold Config.writeChars Config.space
    rw [h.pipeSize]
    omega
  obtain ⟨hlen, hwrap, hwindow⟩ := hchars
  unfold Config.writeTake
  generalize c.writeChars data.length = n at *
  have htake : (data.take n).length = n := List.length_take_of_le hlen
  have hapart : ∀ q i j, (c.procs q).Fetching i → c.accepted.length ≤ j →
      j < c.accepted.length + (data.take n).length → i % PAGE_SIZE ≠ j % PAGE_SIZE := by
    intro q i j hi hlo hhi he
    have hslot : j % PAGE_SIZE = c.head + (j - c.accepted.length) := by
      rw [h.head]
      exact chunk_slot hlo (htake ▸ hhi) (h.head ▸ hwrap)
    exact hclear q _ (by omega) (by omega) (hslot ▸ he ▸ (h.proc q).fetchesSlot hi)
  refine ⟨?_, ?_, h.tail, ?_⟩
  · dsimp only
    rw [Config.setProc_same (P := Proc.Fetching) fun i => by rw [hp]; exact Iff.rfl,
      Config.setProc_same (P := Proc.Holding) fun i => by rw [hp]; exact Iff.rfl]
    refine hring.takeWrite (p := p) (by rw [htake]; exact hwindow) hapart fun q i => ?_
    by_cases hq : q = p
    · subst hq
      rw [Config.setProc_self, hp]
      exact ⟨fun hi => .inr ⟨rfl, hi⟩, fun hi => hi.elim (fun hi => hi.elim) (·.2)⟩
    · rw [Config.setProc_ne _ _ hq]
      exact ⟨.inl, fun hi => hi.elim id fun hi => absurd hi.1 hq⟩
  · dsimp only
    rw [h.head, Nat.mod_add_mod, List.length_append, htake]
  · intro q
    dsimp only
    by_cases hq : q = p
    · rw [hq, Config.setProc_self]
      refine ⟨fun _ => ⟨h.head, by rw [htake]; exact hwrap⟩, fun k b hk => ?_⟩
      rw [List.getElem?_append_right (by omega), Nat.add_sub_cancel_left]
      exact hk
    · rw [Config.setProc_ne _ _ hq]
      have hok := h.proc q
      cases hproc : c.procs q with
      | writeCopy chars size data' written pos =>
          rw [hproc] at hok
          refine ⟨hok.1, fun k b hk => ?_⟩
          have hold := hok.2 k b hk
          rw [List.getElem?_append_left (List.getElem?_eq_some_iff.mp hold).1]
          exact hold
      | readCopy chars size count read pos held =>
          rw [hproc] at hok
          exact hok
      | _ => trivial

/-- Storing a byte. -/
theorem Inv.store {size written pos : Nat} {b : Byte} {chars data : List Byte}
    (hp : c.procs p = .writeCopy (b :: chars) size data written pos) :
    Inv { c.setProc p (.writeCopy chars (size + 1) data written (pos + 1)) with
      page := fun x => if x = size then b else c.page x } := by
  obtain ⟨hsize, hbytes⟩ : (Proc.writeCopy (b :: chars) size data written pos).Ok c.accepted := hp ▸ h.proc p
  obtain ⟨hslot, hwrap⟩ := hsize (List.cons_ne_nil b chars)
  rw [List.length_cons] at hwrap
  refine ⟨?_, h.head, h.tail, ?_⟩
  · dsimp only
    rw [Config.setProc_same (P := Proc.Fetching) fun i => by rw [hp]; exact Iff.rfl,
      Config.setProc_same (P := Proc.Holding) fun i => by rw [hp]; exact Iff.rfl, hslot]
    have hstore : (c.procs p).Storing pos := by
      rw [hp]
      exact ⟨by omega, by rw [List.length_cons]; omega⟩
    refine h.ring.store hstore (hbytes 0 b rfl) fun q j => ?_
    by_cases hq : q = p
    · subst hq
      rw [Config.setProc_self, hp]
      dsimp only [Proc.Storing]
      rw [List.length_cons]
      omega
    · rw [Config.setProc_ne _ _ hq]
      exact ⟨fun hj => ⟨hj, fun hne => hq hne.1⟩, (·.1)⟩
  · intro q
    dsimp only
    by_cases hq : q = p
    · rw [hq, Config.setProc_self]
      refine ⟨fun hne => ?_, fun k b' hk => ?_⟩
      · have hpos := List.length_pos_iff.mpr hne
        have hnext : (pos + 1) % PAGE_SIZE = pos % PAGE_SIZE + (pos + 1 - pos) :=
          chunk_slot (n := chars.length + 1) (by omega) (by omega) (hslot ▸ hwrap)
        omega
      · rw [Nat.add_assoc, Nat.add_comm 1 k]
        exact hbytes (k + 1) b' hk
    · rw [Config.setProc_ne _ _ hq]
      exact h.proc q

/-- **One step from a clear state keeps the invariant.** -/
theorem Inv.step {c' : Config} (hclear : Clear c) (hstep : Step c c') : Inv c' := by
  cases hstep with
  | schedule p hr => exact h.setRunning _
  | yield hr hp => exact h.setRunning _
  | read count nonblock hr hp =>
      refine h.setProc (hp ▸ Proc.quiet_idle) ?_
      cases nonblock
      · exact Proc.quiet_readWait count
      · exact Proc.quiet_readLoop count 0
  | readReturn hr hp hsize => exact h.setProc (hp ▸ Proc.quiet_readWait _) Proc.quiet_idle
  | readSleep hr hp hsize => exact h.setRunning _
  | readReady hr hp hsize => exact h.setProc (hp ▸ Proc.quiet_readWait _) (Proc.quiet_readLoop _ _)
  | readTake hr hp hcount hsize =>
      refine h.readTake hp ?_
      have := hclear _ hr
      rwa [hp] at this
  | readDone hr hp hdone => exact h.setProc (hp ▸ Proc.quiet_readLoop _ _) Proc.quiet_idle
  | fetch hr hp => exact h.fetch hp
  | readFault hr hp => exact h.setRunning _
  | put hr hp => exact h.put hp
  | readNext hr hp => exact h.setProc (hp ▸ Proc.quiet_readCopy _ _ _ _) (Proc.quiet_readLoop _ _)
  | write data hr hp => exact h.setProc (hp ▸ Proc.quiet_idle) (Proc.quiet_writeLoop data 0)
  | writeReturn hr hp hdone => exact h.setProc (hp ▸ Proc.quiet_writeLoop _ _) Proc.quiet_idle
  | writeSleep hr hp hdata hspace => exact h.setRunning _
  | writeTake hr hp hdata hspace =>
      refine h.writeTake hp ?_
      have := hclear _ hr
      rwa [hp] at this
  | writeFault hr hp => exact h.setRunning _
  | store hr hp => exact h.store hp
  | writeNext hr hp => exact h.setProc (hp ▸ Proc.quiet_writeCopy _ _ _ _) (Proc.quiet_writeLoop _ _)

end

theorem Fresh.inv {c : Config} (h : Fresh c) : Inv c where
  ring := by
    have hidle : ∀ p, (c.procs p).Quiet := fun p => h.procs p ▸ Proc.quiet_idle
    rw [h.accepted, h.taken, h.delivered]
    refine ⟨Nat.le_refl 0, by decide, fun p i hp => absurd hp ((hidle p).storing i),
      fun p i hp => absurd hp ((hidle p).fetching i), fun p x hp => absurd hp ((hidle p).holding x),
      fun i hi => absurd hi (by simp), fun p q i j hp => absurd hp ((hidle p).fetching i),
      fun p q i hp => absurd hp ((hidle p).storing i), fun p q i hp => absurd hp ((hidle p).fetching i),
      fun p q i b b' hp => absurd hp ((hidle p).holding _), fun p q i b hp => absurd hp ((hidle p).fetching i),
      by simp, List.nodup_nil, by simp, fun i hi => absurd hi (by omega)⟩
  head := by
    rw [h.head, h.accepted]
    rfl
  tail := by
    rw [h.tail, h.taken]
    rfl
  proc p := (h.procs p ▸ Proc.quiet_idle : (c.procs p).Quiet).ok _

end Pipe
end Fs
end Linux095
