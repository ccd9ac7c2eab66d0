import Linux095.BlkDrv.RequestQueue

/-!
# `BlkDrv.Requests` — request slots and locked buffers

Processes make requests and drivers end them. A process keeps the processor until it sleeps, in `lock_buffer` or
for want of an empty slot; interrupts come at any time.

* `Step` — one step of a process or of a driver, for all devices;
* `Protocol` — **who has each slot and each locked buffer**; `Moves` — what a step may do to the queues;
* `requests_protocol` — both hold in every run.
-/

namespace Linux095
namespace BlkDrv
namespace Requests
open Fs Links Relation

/-- What a process wants from a device: `make_request`, `ll_rw_page`, or a block of `ll_rw_swap_file`. -/
inductive Job where
  | block (rw : Rw) (b : Nat)
  | page (cmd : Cmd) (dev : Nat) (nr : BitVec 32) (buffer : X86.Addr)
  | swapBlock (cmd : Cmd) (dev : Nat) (nr : BitVec 32) (buffer : X86.Addr)

namespace Job

/-- The buffer that is locked for it. -/
def bh : Job → Option Nat
  | block _ b => some b
  | page .. | swapBlock .. => none

def cmd : Job → Cmd
  | block rw _ => rw.cmd
  | page rw .. | swapBlock rw .. => rw

/-- `rw_ahead`. -/
def ahead : Job → Bool
  | block rw _ => rw.ahead
  | page .. | swapBlock .. => false

/-- The slots that it may take: the last third is for reads of buffers, and for swapping. -/
def limit (j : Job) : Nat := if j.bh.isSome ∧ j.cmd = .write then NR_REQUEST * 2 / 3 else NR_REQUEST

/-- "fill up the request-info". -/
def fill (k : Kernel) (r : Nat) : Job → Kernel
  | block rw b => fillRequest k rw.cmd b r
  | page cmd dev nr buffer =>
      setRequest k r fun _ =>
        { dev, cmd, errors := 0, sector := nr <<< 3, nrSectors := 8, buffer, bh := none, next := none }
  | swapBlock cmd dev nr buffer =>
      setRequest k r fun _ =>
        { dev, cmd, errors := 0, sector := nr <<< 1, nrSectors := 2, buffer, bh := none, next := none }

end Job

/-- Where a process is; `m` is the device. -/
inductive Pc where
  | idle
  /-- In `lock_buffer`. -/
  | lock (m : Nat) (rw : Rw) (b : Nat)
  /-- The buffer is locked. Is there anything to do? -/
  | test (m : Nat) (rw : Rw) (b : Nat)
  /-- At `repeat`. -/
  | search (m : Nat) (j : Job)
  /-- At `found`. -/
  | found (m : Nat) (j : Job) (r : Nat)
  /-- The slot is filled. -/
  | filled (m : Nat) (j : Job) (r : Nat)

namespace Pc

/-- The process has locked `b` and not queued it. -/
def Holds : Pc → Nat → Prop
  | test _ _ b', b => b' = b
  | search _ j, b | found _ j _, b | filled _ j _, b => j.bh = some b
  | idle, _ | lock .., _ => False

/-- The process does not sleep here. -/
def Running : Pc → Prop
  | test .. | found .. | filled .. => True
  | idle | lock .. | search .. => False

end Pc

structure Config where
  k : Kernel
  pc : Nat → Pc
  cpu : Option Nat

def Config.goto (c : Config) (p : Nat) (q : Pc) : Config :=
  { c with pc := fun x => if x = p then q else c.pc x }

/-- The buffers are locked as before, and the requests are as before but for what drivers count in them. -/
structure SameRequests (k k' : Kernel) : Prop where
  lock : ∀ b, (k'.bh b).bLock = (k.bh b).bLock
  blkDev : ∀ m, (k'.blkDev m).currentRequest = (k.blkDev m).currentRequest
  next : ∀ r, (k'.request r).next = (k.request r).next
  dev : ∀ r, (k'.request r).dev = (k.request r).dev
  bh : ∀ r, (k'.request r).bh = (k.request r).bh
  cmd : ∀ r, (k'.request r).cmd = (k.request r).cmd

/-- One step. A driver ends a request when one is active. -/
inductive Step : Config → Config → Prop
  | schedule {c : Config} (p : Nat) (hcpu : c.cpu = none) : Step c { c with cpu := some p }
  | yield {c : Config} {p : Nat} (hcpu : c.cpu = some p) (hp : c.pc p = .idle) : Step c { c with cpu := none }
  /-- The rest of the kernel, and drivers that move data. -/
  | other {c : Config} (k : Kernel) (hk : SameRequests c.k k) : Step c { c with k }
  | done {c : Config} {m r : Nat} (u : Bool) (hr : (c.k.blkDev m).currentRequest = some r) :
      Step c { c with k := endRequest m u c.k }
  | makeRequest {c : Config} {p : Nat} (rw : Rw) (b : Nat) (hcpu : c.cpu = some p) (hp : c.pc p = .idle)
      (hm : major (c.k.bh b).bDev < NR_BLK_DEV ∧ (c.k.blkDev (major (c.k.bh b).bDev)).requestFn)
      (hb : ¬ (rw.ahead ∧ (c.k.bh b).bLock)) : Step c (c.goto p (.lock (major (c.k.bh b).bDev) rw b))
  | lockSleep {c : Config} {p m b : Nat} {rw : Rw} (hcpu : c.cpu = some p) (hp : c.pc p = .lock m rw b)
      (hb : (c.k.bh b).bLock) : Step c { c with cpu := none }
  | lock {c : Config} {p m b : Nat} {rw : Rw} (hcpu : c.cpu = some p) (hp : c.pc p = .lock m rw b)
      (hb : (c.k.bh b).bLock = false) : Step c ({ c with k := c.k.setLock b true }.goto p (.test m rw b))
  | needless {c : Config} {p m b : Nat} {rw : Rw} (hcpu : c.cpu = some p) (hp : c.pc p = .test m rw b)
      (hb : needless rw.cmd (c.k.bh b)) : Step c ({ c with k := c.k.setLock b false }.goto p .idle)
  | need {c : Config} {p m b : Nat} {rw : Rw} (hcpu : c.cpu = some p) (hp : c.pc p = .test m rw b)
      (hb : needless rw.cmd (c.k.bh b) = false) : Step c (c.goto p (.search m (.block rw b)))
  /-- `ll_rw_page`, or a block of `ll_rw_swap_file`. -/
  | swap {c : Config} {p m : Nat} {j : Job} (hcpu : c.cpu = some p) (hp : c.pc p = .idle) (hj : j.bh = none)
      (hm : m < NR_BLK_DEV ∧ (c.k.blkDev m).requestFn) : Step c (c.goto p (.search m j))
  | slotSleep {c : Config} {p m : Nat} {j : Job} (hcpu : c.cpu = some p) (hp : c.pc p = .search m j)
      (hr : emptyRequest c.k j.limit = none) (hj : j.ahead = false) : Step c { c with cpu := none }
  | giveUp {c : Config} {p m b : Nat} {rw : Rw} (hcpu : c.cpu = some p) (hp : c.pc p = .search m (.block rw b))
      (hr : emptyRequest c.k (Job.block rw b).limit = none) (hj : rw.ahead) :
      Step c ({ c with k := c.k.setLock b false }.goto p .idle)
  | found {c : Config} {p m r : Nat} {j : Job} (hcpu : c.cpu = some p) (hp : c.pc p = .search m j)
      (hr : emptyRequest c.k j.limit = some r) : Step c (c.goto p (.found m j r))
  | fill {c : Config} {p m r : Nat} {j : Job} (hcpu : c.cpu = some p) (hp : c.pc p = .found m j r) :
      Step c ({ c with k := j.fill c.k r }.goto p (.filled m j r))
  /-- `add_request`; a driver that is started comes in with `done`. -/
  | add {c : Config} {p m r : Nat} {j : Job} (hcpu : c.cpu = some p) (hp : c.pc p = .filled m j r) :
      Step c ({ c with k := addRequest m r c.k }.goto p .idle)

/-! ## What is expected of runs -/

/-- `r` is in the queue of the device `m`. -/
def InQueue (c : Config) (m r : Nat) : Prop := ∃ l, QueueIs c.k m l ∧ r ∈ l

/-- **Slots and buffers.** -/
structure Protocol (c : Config) : Prop where
  queue : ∀ m, ∃ l, QueueIs c.k m l ∧ l.Nodup ∧ ∀ r ∈ l, r < NR_REQUEST ∧ 0 ≤ (c.k.request r).dev
  slot : ∀ r < NR_REQUEST, 0 ≤ (c.k.request r).dev →
    (∃ m, InQueue c m r ∧ (∀ m', InQueue c m' r → m' = m) ∧ ∀ p m j, c.pc p ≠ .filled m j r) ∨
      (∀ m, ¬ InQueue c m r) ∧ ∃ p, (∃ m j, c.pc p = .filled m j r) ∧ ∀ p' m j, c.pc p' = .filled m j r → p' = p
  buffer : ∀ m r b, InQueue c m r → (c.k.request r).bh = some b →
    (c.k.bh b).bLock = true ∧ ∀ m' r', InQueue c m' r' → (c.k.request r').bh = some b → r' = r ∧ m' = m
  locked : ∀ b, (c.k.bh b).bLock = true →
    (∃ m r, InQueue c m r ∧ (c.k.request r).bh = some b) ∨ ∃ p, (c.pc p).Holds b
  write : ∀ m r, InQueue c m r → (c.k.request r).bh ≠ none → (c.k.request r).cmd = .write →
    r < NR_REQUEST * 2 / 3

/-- The driver of `m` has ended the request `r`. -/
def Completes (c c' : Config) (m r : Nat) : Prop :=
  (c.k.blkDev m).currentRequest = some r ∧ ∃ u, c' = { c with k := endRequest m u c.k }

/-- **What a step does to a queue**: nothing, or it takes off what it completes, or it adds what its creator has
filled. A buffer in a queue is unlocked when its request completes, and only then. -/
structure Moves (c c' : Config) : Prop where
  queue : ∀ m l l', QueueIs c.k m l → QueueIs c'.k m l' →
    l' = l ∨ (∃ r, l = r :: l' ∧ Completes c c' m r) ∨
      ∃ p j r, c.pc p = .filled m j r ∧ c'.pc p = .idle ∧ (∀ m, ¬ InQueue c m r) ∧ l'.Perm (r :: l)
  filled : ∀ p m j r, c.pc p = .filled m j r → c'.pc p = .filled m j r ∨ InQueue c' m r
  unlock : ∀ m r b, InQueue c m r → (c.k.request r).bh = some b →
    ((c'.k.bh b).bLock = false ↔ Completes c c' m r)

/-- Nothing is requested, and nothing locked. -/
structure Start (c : Config) : Prop where
  pc : ∀ p, c.pc p = .idle
  dev : ∀ r, (c.k.request r).dev = -1
  queue : ∀ m, (c.k.blkDev m).currentRequest = none
  lock : ∀ b, (c.k.bh b).bLock = false

/-! ## The invariant -/

/-- **The invariant**; `Q m` is the queue of the device `m`. -/
structure Inv (c : Config) (Q : Nat → List Nat) : Prop where
  queue : ∀ m, QueueIs c.k m (Q m)
  nodup : ∀ m, (Q m).Nodup
  apart : ∀ m m' r, r ∈ Q m → r ∈ Q m' → m = m'
  slot : ∀ m r, r ∈ Q m → r < NR_REQUEST ∧ 0 ≤ (c.k.request r).dev
  buffer : ∀ m r b, r ∈ Q m → (c.k.request r).bh = some b → (c.k.bh b).bLock = true
  one : ∀ m m' r r' b, r ∈ Q m → r' ∈ Q m' → (c.k.request r).bh = some b → (c.k.request r').bh = some b → r = r'
  write : ∀ m r, r ∈ Q m → (c.k.request r).bh ≠ none → (c.k.request r).cmd = .write → r < NR_REQUEST * 2 / 3
  busy : ∀ p, (c.pc p).Running → c.cpu = some p
  found : ∀ p m j r, c.pc p = .found m j r → r < j.limit ∧ (c.k.request r).dev < 0
  filled : ∀ p m j r, c.pc p = .filled m j r → r < j.limit ∧ 0 ≤ (c.k.request r).dev ∧
    (c.k.request r).bh = j.bh ∧ (c.k.request r).cmd = j.cmd ∧ ∀ m, r ∉ Q m
  used : ∀ r < NR_REQUEST, 0 ≤ (c.k.request r).dev → (∃ m, r ∈ Q m) ∨ ∃ p m j, c.pc p = .filled m j r
  held : ∀ p b, (c.pc p).Holds b → (c.k.bh b).bLock = true ∧ ∀ m r, r ∈ Q m → (c.k.request r).bh ≠ some b
  holder : ∀ p p' b, (c.pc p).Holds b → (c.pc p').Holds b → p = p'
  locked : ∀ b, (c.k.bh b).bLock = true →
    (∃ m r, r ∈ Q m ∧ (c.k.request r).bh = some b) ∨ ∃ p, (c.pc p).Holds b

theorem emptyRequest_some {k : Kernel} {n r : Nat} (h : emptyRequest k n = some r) :
    r < n ∧ (k.request r).dev < 0 := by
  induction n with
  | zero => cases h
  | succ n ih =>
      unfold emptyRequest at h
      split at h
      · rename_i hfree
        cases h
        exact ⟨Nat.lt_succ_self _, hfree⟩
      · have := ih h
        exact ⟨by omega, this.2⟩

theorem Job.limit_le (j : Job) : j.limit ≤ NR_REQUEST := by
  unfold Job.limit
  split
  · decide
  · exact Nat.le_refl _

theorem Job.limit_write {j : Job} (hb : j.bh ≠ none) (hw : j.cmd = .write) : j.limit = NR_REQUEST * 2 / 3 := by
  unfold Job.limit
  rw [if_pos ⟨Option.isSome_iff_ne_none.mpr hb, hw⟩]

/-- What is filled in. -/
theorem Job.fill_eq (j : Job) (k : Kernel) (r : Nat) :
    ∃ q : Request, j.fill k r = setRequest k r (fun _ => q) ∧ 0 ≤ q.dev ∧ q.bh = j.bh ∧ q.cmd = j.cmd := by
  cases j with
  | block rw b => exact ⟨_, rfl, Int.natCast_nonneg _, rfl, rfl⟩
  | page cmd dev nr buffer => exact ⟨_, rfl, Int.natCast_nonneg _, rfl, rfl⟩
  | swapBlock cmd dev nr buffer => exact ⟨_, rfl, Int.natCast_nonneg _, rfl, rfl⟩

namespace Inv

variable {c : Config} {Q : Nat → List Nat} {p m r : Nat}

theorem start (h : Start c) : Inv c fun _ => [] := by
  have hidle : ∀ p b, ¬ (c.pc p).Holds b := by
    intro p b hb
    rw [h.pc p] at hb
    exact hb
  refine ⟨fun m => ?_, fun _ => List.nodup_nil, fun _ _ _ hr => ?_, fun _ _ hr => ?_, fun _ _ _ hr => ?_,
    fun _ _ _ _ _ hr => ?_, fun _ _ hr => ?_, fun p hp => ?_, fun p m j r hp => ?_, fun p m j r hp => ?_,
    fun r _ hr => ?_, fun p b hb => absurd hb (hidle p b), fun p _ b hb => absurd hb (hidle p b),
    fun b hb => ?_⟩
  · unfold QueueIs
    rw [h.queue m]
    exact .nil
  · cases hr
  · cases hr
  · cases hr
  · cases hr
  · cases hr
  · rw [h.pc p] at hp
    exact hp.elim
  · rw [h.pc p] at hp
    cases hp
  · rw [h.pc p] at hp
    cases hp
  · rw [h.dev r] at hr
    omega
  · rw [h.lock b] at hb
    cases hb

theorem mem_iff (h : Inv c Q) : InQueue c m r ↔ r ∈ Q m := by
  constructor
  · rintro ⟨l, hl, hr⟩
    have := Leads.unique hl (h.queue m)
    exact this ▸ hr
  · exact fun hr => ⟨Q m, h.queue m, hr⟩

/-- Two processes cannot both be running. -/
theorem running (h : Inv c Q) {p p' : Nat} (hp : c.cpu = some p) (hp' : (c.pc p').Running) : p' = p :=
  Option.some.inj ((h.busy p' hp').symm.trans hp)

theorem protocol (h : Inv c Q) : Protocol c := by
  have hone : ∀ {p p' m m' j j' r}, c.pc p = .filled m j r → c.pc p' = .filled m' j' r → p' = p := by
    intro p p' m m' j j' r hp hp'
    exact h.running (h.busy p (by rw [hp]; trivial)) (by rw [hp']; trivial)
  refine ⟨fun m => ⟨Q m, h.queue m, h.nodup m, h.slot m⟩, fun r hr hdev => ?_, fun m r b hr hb => ?_,
    fun b hb => ?_, fun m r hr => h.write m r (h.mem_iff.mp hr)⟩
  · rcases h.used r hr hdev with ⟨m, hm⟩ | ⟨p, m, j, hp⟩
    · refine .inl ⟨m, h.mem_iff.mpr hm, fun m' hm' => h.apart m' m r (h.mem_iff.mp hm') hm, fun p m' j hp => ?_⟩
      exact (h.filled p m' j r hp).2.2.2.2 m hm
    · refine .inr ⟨fun m' hm' => (h.filled p m j r hp).2.2.2.2 m' (h.mem_iff.mp hm'), p, ⟨m, j, hp⟩, ?_⟩
      exact fun p' m' j' hp' => hone hp hp'
  · have hr := h.mem_iff.mp hr
    refine ⟨h.buffer m r b hr hb, fun m' r' hr' hb' => ?_⟩
    have hr' := h.mem_iff.mp hr'
    have heq := h.one m' m r' r b hr' hr hb' hb
    exact ⟨heq, h.apart m' m r' hr' (heq ▸ hr)⟩
  · rcases h.locked b hb with ⟨m, r, hr, hb⟩ | hp
    · exact .inl ⟨m, r, h.mem_iff.mpr hr, hb⟩
    · exact .inr hp

/-- A step of the process that runs, which neither fills a slot nor queues one. It may lock or unlock a
buffer. -/
theorem walk (h : Inv c Q) (hcpu : c.cpu = some p) {q : Pc} {k : Kernel} {cpu : Option Nat}
    (hreq : k.request = c.k.request) (hblk : k.blkDev = c.k.blkDev) (hrun : q.Running → cpu = some p)
    (hfound : ∀ m j r, q = .found m j r → r < j.limit ∧ (c.k.request r).dev < 0)
    (hfilled : ∀ m j r, q ≠ .filled m j r ∧ c.pc p ≠ .filled m j r)
    (hlock : ∀ b, (k.bh b).bLock = true ↔ ((c.k.bh b).bLock = true ∧ ¬ (c.pc p).Holds b) ∨ q.Holds b)
    (hnew : ∀ b, q.Holds b → (c.pc p).Holds b ∨ (c.k.bh b).bLock = false) :
    Inv { c.goto p q with k, cpu } Q := by
  have hpc : ∀ x, ({ c.goto p q with k, cpu } : Config).pc x = if x = p then q else c.pc x := fun _ => rfl
  -- nobody else holds what `p` holds
  have hother : ∀ x b, x ≠ p → (c.pc x).Holds b → ¬ (c.pc p).Holds b ∧ ¬ q.Holds b := by
    intro x b hx hb
    refine ⟨fun hp => hx (h.holder x p b hb hp), fun hq => ?_⟩
    rcases hnew b hq with hp | hfree
    · exact hx (h.holder x p b hb hp)
    · rw [(h.held x b hb).1] at hfree
      cases hfree
  have hqueued : ∀ m r b, r ∈ Q m → (c.k.request r).bh = some b → ¬ (c.pc p).Holds b :=
    fun m r b hr hb hp => (h.held p b hp).2 m r hr hb
  refine ⟨fun m => ?_, h.nodup, h.apart, ?_, fun m r b hr hb => ?_, ?_, ?_, fun x hx => ?_,
    fun x m j r hx => ?_, fun x m j r hx => ?_, fun r hr hdev => ?_, fun x b hx => ?_, fun x y b hx hy => ?_,
    fun b hb => ?_⟩
  · unfold QueueIs
    show Leads (fun r => (k.request r).next) (k.blkDev m).currentRequest (Q m)
    rw [hreq, hblk]
    exact h.queue m
  · show ∀ m r, r ∈ Q m → r < NR_REQUEST ∧ 0 ≤ (k.request r).dev
    rw [hreq]
    exact h.slot
  · have hb' : (c.k.request r).bh = some b := hreq ▸ hb
    exact (hlock b).mpr (.inl ⟨h.buffer m r b hr hb', hqueued m r b hr hb'⟩)
  · show ∀ m m' r r' b, r ∈ Q m → r' ∈ Q m' → (k.request r).bh = some b → (k.request r').bh = some b → r = r'
    rw [hreq]
    exact h.one
  · show ∀ m r, r ∈ Q m → (k.request r).bh ≠ none → (k.request r).cmd = .write → r < NR_REQUEST * 2 / 3
    rw [hreq]
    exact h.write
  · rw [hpc] at hx
    split at hx
    · rename_i hxp
      rw [hxp]
      exact hrun hx
    · rename_i hxp
      exact absurd (h.running hcpu hx) hxp
  · show r < j.limit ∧ (k.request r).dev < 0
    rw [hreq]
    rw [hpc] at hx
    split at hx
    · exact hfound m j r hx
    · exact h.found x m j r hx
  · show r < j.limit ∧ 0 ≤ (k.request r).dev ∧ (k.request r).bh = j.bh ∧ (k.request r).cmd = j.cmd ∧ _
    rw [hreq]
    rw [hpc] at hx
    split at hx
    · exact absurd hx (hfilled m j r).1
    · exact h.filled x m j r hx
  · have hdev' : 0 ≤ (c.k.request r).dev := hreq ▸ hdev
    refine (h.used r hr hdev').imp_right ?_
    rintro ⟨x, m, j, hx⟩
    refine ⟨x, m, j, ?_⟩
    rw [hpc, if_neg]
    · exact hx
    · rintro rfl
      exact (hfilled m j r).2 hx
  · show (k.bh b).bLock = true ∧ ∀ m r, r ∈ Q m → (k.request r).bh ≠ some b
    rw [hreq, hlock]
    rw [hpc] at hx
    split at hx
    · refine ⟨.inr hx, fun m r hr hb => ?_⟩
      rcases hnew b hx with hp | hfree
      · exact hqueued m r b hr hb hp
      · rw [h.buffer m r b hr hb] at hfree
        cases hfree
    · rename_i hxp
      obtain ⟨hl, hrest⟩ := h.held x b hx
      exact ⟨.inl ⟨hl, (hother x b hxp hx).1⟩, hrest⟩
  · rw [hpc] at hx hy
    split at hx
    · rename_i hxp
      split at hy
      · rename_i hyp
        exact hxp.trans hyp.symm
      · rename_i hyp
        exact absurd hx (hother y b hyp hy).2
    · rename_i hxp
      split at hy
      · exact absurd hy (hother x b hxp hx).2
      · exact h.holder x y b hx hy
  · rcases (hlock b).mp hb with ⟨hl, hnot⟩ | hq
    · rcases h.locked b hl with hl | ⟨x, hx⟩
      · refine .inl ?_
        show ∃ m r, r ∈ Q m ∧ (k.request r).bh = some b
        rw [hreq]
        exact hl
      · refine .inr ⟨x, ?_⟩
        rw [hpc, if_neg]
        · exact hx
        · rintro rfl
          exact hnot hx
    · exact .inr ⟨p, by rw [hpc, if_pos rfl]; exact hq⟩

/-- Whoever is scheduled, and when nobody runs. -/
theorem withCpu (h : Inv c Q) {cpu : Option Nat} (hrun : ∀ x, ¬ (c.pc x).Running) : Inv { c with cpu } Q :=
  { h with busy := fun x hx => absurd hx (hrun x) }

theorem other (h : Inv c Q) {k : Kernel} (hk : SameRequests c.k k) : Inv { c with k } Q where
  queue := by
    intro m
    show Leads (fun r => (k.request r).next) (k.blkDev m).currentRequest (Q m)
    rw [hk.blkDev]
    exact (h.queue m).congr fun x _ => hk.next x
  nodup := h.nodup
  apart := h.apart
  slot := by
    intro m r hr
    show r < NR_REQUEST ∧ 0 ≤ (k.request r).dev
    rw [hk.dev]
    exact h.slot m r hr
  buffer := by
    intro m r b hr hb
    show (k.bh b).bLock = true
    rw [hk.lock]
    exact h.buffer m r b hr ((hk.bh r).symm.trans hb)
  one := by
    intro m m' r r' b hr hr' hb hb'
    exact h.one m m' r r' b hr hr' ((hk.bh r).symm.trans hb) ((hk.bh r').symm.trans hb')
  write := by
    intro m r hr hb hw
    exact h.write m r hr (hk.bh r ▸ hb) ((hk.cmd r).symm.trans hw)
  busy := h.busy
  found := by
    intro p m j r hp
    show r < j.limit ∧ (k.request r).dev < 0
    rw [hk.dev]
    exact h.found p m j r hp
  filled := by
    intro p m j r hp
    show r < j.limit ∧ 0 ≤ (k.request r).dev ∧ (k.request r).bh = j.bh ∧ (k.request r).cmd = j.cmd ∧ _
    rw [hk.dev, hk.bh, hk.cmd]
    exact h.filled p m j r hp
  used := by
    intro r hr hdev
    have hdev : 0 ≤ (k.request r).dev := hdev
    rw [hk.dev] at hdev
    exact h.used r hr hdev
  held := by
    intro p b hb
    show (k.bh b).bLock = true ∧ ∀ m r, r ∈ Q m → (k.request r).bh ≠ some b
    simp only [hk.lock, hk.bh]
    exact h.held p b hb
  holder := h.holder
  locked := by
    intro b hb
    have hb : (k.bh b).bLock = true := hb
    rw [hk.lock] at hb
    show (∃ m r, r ∈ Q m ∧ (k.request r).bh = some b) ∨ ∃ p, (c.pc p).Holds b
    simp only [hk.bh]
    exact h.locked b hb

/-- The active request `r` of the device `m` completes. -/
theorem done (h : Inv c Q) (u : Bool) {l : List Nat} (hQ : Q m = r :: l) :
    Inv { c with k := endRequest m u c.k } (Function.update Q m l) := by
  have hqueue : QueueIs c.k m (r :: l) := hQ ▸ h.queue m
  have hrQ : r ∈ Q m := hQ ▸ List.mem_cons_self
  have hrl : r ∉ l := (List.nodup_cons.mp (hQ ▸ h.nodup m)).1
  obtain ⟨hreq, hblk⟩ := endRequest_some u hqueue.of_cons.1
  have hlock := bLock_endRequest u hqueue.of_cons.1
  -- what is left in the queues
  have hmem : ∀ {m' x}, x ∈ Function.update Q m l m' ↔ x ∈ Q m' ∧ x ≠ r := by
    intro m' x
    by_cases hm : m' = m
    · subst hm
      rw [Function.update_self, hQ, List.mem_cons]
      exact ⟨fun hx => ⟨.inr hx, ne_of_mem_of_not_mem hx hrl⟩, fun hx => hx.1.resolve_left hx.2⟩
    · rw [Function.update_of_ne hm]
      refine ⟨fun hx => ⟨hx, ?_⟩, And.left⟩
      rintro rfl
      exact hm (h.apart m' m x hx hrQ)
  have hrequest : ∀ {x}, x ≠ r → (endRequest m u c.k).request x = c.k.request x := by
    intro x hx
    rw [hreq]
    exact if_neg hx
  have hbh : ∀ x, ((endRequest m u c.k).request x).bh = (c.k.request x).bh := by
    intro x
    rw [hreq]
    dsimp only
    split <;> rfl
  have hcmd : ∀ x, ((endRequest m u c.k).request x).cmd = (c.k.request x).cmd := by
    intro x
    rw [hreq]
    dsimp only
    split <;> rfl
  have hnew : ((endRequest m u c.k).request r).dev = -1 := by simp [hreq]
  refine ⟨fun m' => ?_, fun m' => ?_, ?_, ?_, ?_, ?_, ?_, h.busy, ?_, ?_, ?_, ?_, h.holder, ?_⟩
  · by_cases hm : m' = m
    · subst hm
      rw [Function.update_self]
      exact queueIs_endRequest u hqueue
    · rw [Function.update_of_ne hm]
      unfold QueueIs
      rw [hreq, hblk]
      dsimp only
      rw [if_neg hm]
      refine (h.queue m').congr fun x _ => ?_
      split <;> rfl
  · by_cases hm : m' = m
    · subst hm
      rw [Function.update_self]
      exact (List.nodup_cons.mp (hQ ▸ h.nodup m')).2
    · rw [Function.update_of_ne hm]
      exact h.nodup m'
  · exact fun m m' x hx hx' => h.apart m m' x (hmem.mp hx).1 (hmem.mp hx').1
  · intro m' x hx
    obtain ⟨hx, hne⟩ := hmem.mp hx
    show x < NR_REQUEST ∧ 0 ≤ ((endRequest m u c.k).request x).dev
    rw [hrequest hne]
    exact h.slot m' x hx
  · intro m' x b hx hb
    obtain ⟨hx, hne⟩ := hmem.mp hx
    have hb : (c.k.request x).bh = some b := (hbh x).symm.trans hb
    refine (hlock b).trans ?_
    rw [if_neg fun hr => hne (h.one m' m x r b hx hrQ hb hr)]
    exact h.buffer m' x b hx hb
  · intro m m' x x' b hx hx' hb hb'
    exact h.one m m' x x' b (hmem.mp hx).1 (hmem.mp hx').1 ((hbh x).symm.trans hb) ((hbh x').symm.trans hb')
  · intro m' x hx hb hw
    exact h.write m' x (hmem.mp hx).1 (hbh x ▸ hb) ((hcmd x).symm.trans hw)
  · intro p m' j x hp
    obtain ⟨hx, hdev⟩ := h.found p m' j x hp
    refine ⟨hx, ?_⟩
    show ((endRequest m u c.k).request x).dev < 0
    by_cases hxr : x = r
    · rw [hxr, hnew]
      decide
    · rw [hrequest hxr]
      exact hdev
  · intro p m' j x hp
    obtain ⟨hx, hdev, hb, hw, hout⟩ := h.filled p m' j x hp
    have hne : x ≠ r := fun hxr => hout m (hxr ▸ hrQ)
    show x < j.limit ∧ 0 ≤ ((endRequest m u c.k).request x).dev ∧ ((endRequest m u c.k).request x).bh = j.bh ∧
      ((endRequest m u c.k).request x).cmd = j.cmd ∧ _
    rw [hrequest hne]
    exact ⟨hx, hdev, hb, hw, fun m' hx => hout m' (hmem.mp hx).1⟩
  · intro x hx hdev
    have hdev : 0 ≤ ((endRequest m u c.k).request x).dev := hdev
    have hne : x ≠ r := by
      rintro rfl
      omega
    rw [hrequest hne] at hdev
    exact (h.used x hx hdev).imp_left fun ⟨m', hx⟩ => ⟨m', hmem.mpr ⟨hx, hne⟩⟩
  · intro p b hb
    obtain ⟨hl, hout⟩ := h.held p b hb
    refine ⟨(hlock b).trans ?_, fun m' x hx hbx => hout m' x (hmem.mp hx).1 ((hbh x).symm.trans hbx)⟩
    rw [if_neg (hout m r hrQ)]
    exact hl
  · intro b hb
    have hb := (hlock b).symm.trans hb
    split at hb
    · cases hb
    · rename_i hbr
      refine (h.locked b hb).imp_left fun ⟨m', x, hx, hbx⟩ => ⟨m', x, hmem.mpr ⟨hx, ?_⟩, (hbh x).trans hbx⟩
      rintro rfl
      exact hbr hbx

/-- A slot is filled. -/
theorem fill (h : Inv c Q) {j : Job} (hcpu : c.cpu = some p) (hp : c.pc p = .found m j r) :
    Inv ({ c with k := j.fill c.k r }.goto p (.filled m j r)) Q := by
  obtain ⟨hr, hfree⟩ := h.found p m j r hp
  obtain ⟨q, hq, hdev, hbh, hcmd⟩ := j.fill_eq c.k r
  have hout : ∀ {m x}, x ∈ Q m → x ≠ r := by
    intro m x hx
    rintro rfl
    have := (h.slot m x hx).2
    omega
  have hrequest : ∀ {x}, x ≠ r → (j.fill c.k r).request x = c.k.request x := by
    intro x hx
    rw [hq]
    exact if_neg hx
  have hnew : (j.fill c.k r).request r = q := by
    rw [hq]
    exact if_pos rfl
  have hpc : ∀ x, (({ c with k := j.fill c.k r } : Config).goto p (.filled m j r)).pc x =
      if x = p then .filled m j r else c.pc x := fun _ => rfl
  have hother : ∀ {x}, x ≠ p → ¬ (c.pc x).Running := fun hx hrun => hx (h.running hcpu hrun)
  -- the process holds what it has held
  have hholds : ∀ x b, ((({ c with k := j.fill c.k r } : Config).goto p (.filled m j r)).pc x).Holds b ↔
      (c.pc x).Holds b := by
    intro x b
    rw [hpc]
    split
    · rename_i hx
      rw [hx, hp]
      exact Iff.rfl
    · exact Iff.rfl
  refine ⟨fun m => ?_, h.nodup, h.apart, fun m x hx => ?_, fun m x b hx hb => ?_, ?_, ?_, fun x hx => ?_,
    fun x m' j' y hx => ?_, fun x m' j' y hx => ?_, fun x hx hd => ?_, fun x b hx => ?_,
    fun x y b hx hy => h.holder x y b ((hholds x b).mp hx) ((hholds y b).mp hy), fun b hb => ?_⟩
  · show QueueIs (j.fill c.k r) m (Q m)
    unfold QueueIs
    rw [hq]
    exact (h.queue m).congr fun x hx => by simp [setRequest, hout hx]
  · show x < NR_REQUEST ∧ 0 ≤ ((j.fill c.k r).request x).dev
    rw [hrequest (hout hx)]
    exact h.slot m x hx
  · have hb : ((j.fill c.k r).request x).bh = some b := hb
    rw [hrequest (hout hx)] at hb
    show ((j.fill c.k r).bh b).bLock = true
    rw [hq]
    exact h.buffer m x b hx hb
  · intro m m' x x' b hx hx' hb hb'
    have hb : ((j.fill c.k r).request x).bh = some b := hb
    have hb' : ((j.fill c.k r).request x').bh = some b := hb'
    rw [hrequest (hout hx)] at hb
    rw [hrequest (hout hx')] at hb'
    exact h.one m m' x x' b hx hx' hb hb'
  · intro m x hx
    show ((j.fill c.k r).request x).bh ≠ none → ((j.fill c.k r).request x).cmd = .write → _
    rw [hrequest (hout hx)]
    exact h.write m x hx
  · rw [hpc] at hx
    split at hx
    · rename_i hxp
      rw [hxp]
      exact hcpu
    · rename_i hxp
      exact absurd hx (hother hxp)
  · rw [hpc] at hx
    split at hx
    · cases hx
    · rename_i hxp
      exact absurd (by rw [hx]; trivial) (hother hxp)
  · rw [hpc] at hx
    split at hx
    · cases hx
      show r < j.limit ∧ 0 ≤ ((j.fill c.k r).request r).dev ∧ ((j.fill c.k r).request r).bh = j.bh ∧
        ((j.fill c.k r).request r).cmd = j.cmd ∧ _
      rw [hnew]
      exact ⟨hr, hdev, hbh, hcmd, fun m' hm' => hout hm' rfl⟩
    · rename_i hxp
      exact absurd (by rw [hx]; trivial) (hother hxp)
  · by_cases hxr : x = r
    · exact .inr ⟨p, m, j, by rw [hpc, if_pos rfl, hxr]⟩
    · have hd : 0 ≤ ((j.fill c.k r).request x).dev := hd
      rw [hrequest hxr] at hd
      rcases h.used x hx hd with hQ | ⟨y, m', j', hy⟩
      · exact .inl hQ
      · have hyp := h.running hcpu (show (c.pc y).Running by rw [hy]; trivial)
        rw [hyp, hp] at hy
        cases hy
  · obtain ⟨hl, hQ⟩ := h.held x b ((hholds x b).mp hx)
    show ((j.fill c.k r).bh b).bLock = true ∧ ∀ m x, x ∈ Q m → ((j.fill c.k r).request x).bh ≠ some b
    refine ⟨?_, fun m' y hy => ?_⟩
    · rw [hq]
      exact hl
    · rw [hrequest (hout hy)]
      exact hQ m' y hy
  · have hb : ((j.fill c.k r).bh b).bLock = true := hb
    rw [hq] at hb
    rcases h.locked b hb with ⟨m', y, hy, hbh⟩ | ⟨y, hy⟩
    · refine .inl ⟨m', y, hy, ?_⟩
      show ((j.fill c.k r).request y).bh = some b
      rw [hrequest (hout hy)]
      exact hbh
    · exact .inr ⟨y, (hholds y b).mpr hy⟩

/-- A slot is queued by its creator. -/
theorem add (h : Inv c Q) {j : Job} (hcpu : c.cpu = some p) (hp : c.pc p = .filled m j r) :
    Inv ({ c with k := addRequest m r c.k }.goto p .idle) (Function.update Q m (addTo c.k r (Q m))) := by
  obtain ⟨hr, hdev, hbh, hcmd, hout⟩ := h.filled p m j r hp
  have hrel := relinked_addRequest m r c.k
  have hslots : ∀ m, ∀ x ∈ Q m, x < NR_REQUEST := fun m x hx => (h.slot m x hx).1
  have hholdsr : ∀ {b}, (c.k.request r).bh = some b ↔ (c.pc p).Holds b := by
    intro b
    rw [hp, hbh]
    exact Iff.rfl
  have hmem : ∀ {m' x}, x ∈ Function.update Q m (addTo c.k r (Q m)) m' ↔ x ∈ Q m' ∨ (x = r ∧ m' = m) := by
    intro m' x
    by_cases hm : m' = m
    · subst hm
      rw [Function.update_self, addTo_perm.mem_iff, List.mem_cons]
      tauto
    · rw [Function.update_of_ne hm]
      tauto
  have hpc : ∀ x, (({ c with k := addRequest m r c.k } : Config).goto p .idle).pc x =
      if x = p then .idle else c.pc x := fun _ => rfl
  have hother : ∀ x, ¬ ((({ c with k := addRequest m r c.k } : Config).goto p .idle).pc x).Running := by
    intro x hx
    rw [hpc] at hx
    split at hx
    · exact hx
    · rename_i hxp
      exact hxp (h.running hcpu hx)
  -- `p` holds nothing any more
  have hholds : ∀ {x b}, ((({ c with k := addRequest m r c.k } : Config).goto p .idle).pc x).Holds b ↔
      x ≠ p ∧ (c.pc x).Holds b := by
    intro x b
    rw [hpc]
    split
    · rename_i hx
      exact ⟨False.elim, fun hh => hh.1 hx⟩
    · rename_i hx
      exact ⟨fun hh => ⟨hx, hh⟩, And.right⟩
  refine ⟨fun m' => ?_, fun m' => ?_, fun m₁ m₂ x hx hx' => ?_, fun m' x hx => ?_, fun m' x b hx hb => ?_,
    fun m₁ m₂ x x' b hx hx' hb hb' => ?_, fun m' x hx hb hw => ?_, fun x hx => absurd hx (hother x),
    fun x m' j' y hx => absurd (by rw [hx]; trivial) (hother x),
    fun x m' j' y hx => absurd (by rw [hx]; trivial) (hother x), fun x hx hd => ?_, fun x b hx => ?_,
    fun x y b hx hy => h.holder x y b (hholds.mp hx).2 (hholds.mp hy).2, fun b hb => ?_⟩
  · show QueueIs (addRequest m r c.k) m' _
    by_cases hm : m' = m
    · subst hm
      rw [Function.update_self]
      exact queueIs_addRequest (h.queue m') (h.nodup m') (hslots m') (hout m')
    · rw [Function.update_of_ne hm]
      refine queueIs_addRequest_other (h.queue m) (h.nodup m) (hslots m) (h.queue m') hm (hout m) (hout m') ?_
      exact fun x hx hx' => hm (h.apart m' m x hx hx')
  · by_cases hm : m' = m
    · subst hm
      rw [Function.update_self, addTo_perm.nodup_iff]
      exact List.nodup_cons.mpr ⟨hout m', h.nodup m'⟩
    · rw [Function.update_of_ne hm]
      exact h.nodup m'
  · rcases hmem.mp hx with hold | ⟨hxr, hm⟩
    · rcases hmem.mp hx' with hold' | ⟨hxr, -⟩
      · exact h.apart m₁ m₂ x hold hold'
      · exact absurd (hxr ▸ hold) (hout m₁)
    · rcases hmem.mp hx' with hold' | ⟨-, hm'⟩
      · exact absurd (hxr ▸ hold') (hout m₂)
      · exact hm.trans hm'.symm
  · show x < NR_REQUEST ∧ 0 ≤ ((addRequest m r c.k).request x).dev
    rw [hrel.dev]
    rcases hmem.mp hx with hold | ⟨rfl, -⟩
    · exact h.slot m' x hold
    · exact ⟨Nat.lt_of_lt_of_le hr j.limit_le, hdev⟩
  · have hbx : (c.k.request x).bh = some b := (hrel.bh x).symm.trans hb
    refine (bLock_addRequest c.k m r b).trans ?_
    rcases hmem.mp hx with hold | ⟨rfl, -⟩
    · exact h.buffer m' x b hold hbx
    · exact (h.held p b (hholdsr.mp hbx)).1
  · have hbx : (c.k.request x).bh = some b := (hrel.bh x).symm.trans hb
    have hbx' : (c.k.request x').bh = some b := (hrel.bh x').symm.trans hb'
    rcases hmem.mp hx with hold | ⟨hxr, -⟩
    · rcases hmem.mp hx' with hold' | ⟨hxr', -⟩
      · exact h.one m₁ m₂ x x' b hold hold' hbx hbx'
      · exact absurd hbx ((h.held p b (hholdsr.mp (hxr' ▸ hbx'))).2 m₁ x hold)
    · rcases hmem.mp hx' with hold' | ⟨hxr', -⟩
      · exact absurd hbx' ((h.held p b (hholdsr.mp (hxr ▸ hbx))).2 m₂ x' hold')
      · exact hxr.trans hxr'.symm
  · have hbx : (c.k.request x).bh ≠ none := hrel.bh x ▸ hb
    have hwx : (c.k.request x).cmd = .write := (hrel.cmd x).symm.trans hw
    rcases hmem.mp hx with hold | ⟨rfl, -⟩
    · exact h.write m' x hold hbx hwx
    · exact Job.limit_write (hbh ▸ hbx) (hcmd ▸ hwx) ▸ hr
  · have hd : 0 ≤ ((addRequest m r c.k).request x).dev := hd
    rw [hrel.dev] at hd
    refine .inl ?_
    rcases h.used x hx hd with ⟨m', hQ⟩ | ⟨y, m', j', hy⟩
    · exact ⟨m', hmem.mpr (.inl hQ)⟩
    · have hyp := h.running hcpu (show (c.pc y).Running by rw [hy]; trivial)
      rw [hyp, hp] at hy
      cases hy
      exact ⟨m, hmem.mpr (.inr ⟨rfl, rfl⟩)⟩
  · obtain ⟨hxp, hxb⟩ := hholds.mp hx
    obtain ⟨hl, hQ⟩ := h.held x b hxb
    refine ⟨(bLock_addRequest c.k m r b).trans hl, fun m' y hy hb => ?_⟩
    have hby : (c.k.request y).bh = some b := (hrel.bh y).symm.trans hb
    rcases hmem.mp hy with hold | ⟨rfl, -⟩
    · exact hQ m' y hold hby
    · exact hxp (h.holder x p b hxb (hholdsr.mp hby))
  · have hb := (bLock_addRequest c.k m r b).symm.trans hb
    rcases h.locked b hb with ⟨m', y, hy, hbh⟩ | ⟨y, hy⟩
    · exact .inl ⟨m', y, hmem.mpr (.inl hy), (hrel.bh y).trans hbh⟩
    · by_cases hyp : y = p
      · subst hyp
        exact .inl ⟨m, r, hmem.mpr (.inr ⟨rfl, rfl⟩), (hrel.bh r).trans (hholdsr.mpr hy)⟩
      · exact .inr ⟨y, hholds.mpr ⟨hyp, hy⟩⟩

/-- The running process goes on, and nothing else changes. -/
theorem goOn (h : Inv c Q) (hcpu : c.cpu = some p) {q : Pc} (hsame : ∀ b, q.Holds b ↔ (c.pc p).Holds b)
    (hfound : ∀ m j r, q = .found m j r → r < j.limit ∧ (c.k.request r).dev < 0)
    (hfilled : ∀ m j r, q ≠ .filled m j r ∧ c.pc p ≠ .filled m j r) : Inv (c.goto p q) Q := by
  refine h.walk hcpu rfl rfl (fun _ => hcpu) hfound hfilled (fun b => ?_) fun b hb => .inl ((hsame b).mp hb)
  constructor
  · intro hl
    by_cases hb : (c.pc p).Holds b
    · exact .inr ((hsame b).mpr hb)
    · exact .inl ⟨hl, hb⟩
  · rintro (⟨hl, -⟩ | hb)
    · exact hl
    · exact (h.held p b ((hsame b).mp hb)).1

/-- A process locks `b`. -/
theorem lock (h : Inv c Q) (hcpu : c.cpu = some p) {b : Nat} {rw : Rw} (hp : c.pc p = .lock m rw b)
    (hb : (c.k.bh b).bLock = false) : Inv ({ c with k := c.k.setLock b true }.goto p (.test m rw b)) Q := by
  refine h.walk hcpu rfl rfl (fun _ => hcpu) (fun _ _ _ => nofun) (fun m' j r => ?_) (fun b' => ?_)
    fun b' hb' => .inr ((show b = b' from hb') ▸ hb)
  · rw [hp]
    exact ⟨nofun, nofun⟩
  · rw [hp]
    by_cases hbb : b' = b
    · subst hbb
      simp [Kernel.setLock, Kernel.setBh, Pc.Holds]
    · simp [Kernel.setLock, Kernel.setBh, Pc.Holds, hbb, Ne.symm hbb]

/-- The buffer that a process holds is unlocked, and the process is done. -/
theorem unlock (h : Inv c Q) (hcpu : c.cpu = some p) {b : Nat} (hp : ∀ b', (c.pc p).Holds b' ↔ b' = b)
    (hfilled : ∀ m j r, c.pc p ≠ .filled m j r) : Inv ({ c with k := c.k.setLock b false }.goto p .idle) Q := by
  refine h.walk hcpu rfl rfl (fun _ => hcpu) (fun _ _ _ => nofun) (fun m' j r => ?_) (fun b' => ?_)
    fun b' hb' => False.elim hb'
  · exact ⟨nofun, hfilled m' j r⟩
  · rw [hp]
    by_cases hbb : b' = b
    · subst hbb
      simp [Kernel.setLock, Kernel.setBh, Pc.Holds]
    · simp [Kernel.setLock, Kernel.setBh, Pc.Holds, hbb]

/-- What happens to the queue of `m` in one step. -/
def Shift (c c' : Config) (Q Q' : Nat → List Nat) (m : Nat) : Prop :=
  Q' m = Q m ∨ (∃ r, Q m = r :: Q' m ∧ Completes c c' m r) ∨
    ∃ p j r, c.pc p = .filled m j r ∧ c'.pc p = .idle ∧ (∀ m, r ∉ Q m) ∧ (Q' m).Perm (r :: Q m)

/-- **One step.** -/
theorem step {c' : Config} (h : Inv c Q) (hs : Step c c') : ∃ Q', Inv c' Q' ∧ ∀ m, Shift c c' Q Q' m := by
  cases hs with
  | schedule p hcpu => exact ⟨Q, h.withCpu fun x hx => by simp [h.busy x hx] at hcpu, fun _ => .inl rfl⟩
  | yield hcpu hp =>
      refine ⟨Q, h.withCpu fun x hx => ?_, fun _ => .inl rfl⟩
      rw [h.running hcpu hx, hp] at hx
      exact hx
  | other k hk => exact ⟨Q, h.other hk, fun _ => .inl rfl⟩
  | @done m r u hr =>
      -- the active request is the first of its queue
      have hhead := hr.symm.trans (h.queue m).head
      obtain ⟨l, hQ⟩ : ∃ l, Q m = r :: l := by
        cases hl : Q m with
        | nil => simp [hl] at hhead
        | cons a l =>
            rw [hl] at hhead
            cases hhead
            exact ⟨l, rfl⟩
      refine ⟨_, h.done u hQ, fun m' => ?_⟩
      by_cases hm : m' = m
      · subst hm
        refine .inr (.inl ⟨r, ?_, hr, u, rfl⟩)
        rw [Function.update_self]
        exact hQ
      · exact .inl (Function.update_of_ne hm _ _)
  | makeRequest rw b hcpu hp hm hb =>
      refine ⟨Q, h.goOn hcpu (fun b => ?_) (fun _ _ _ => nofun) fun m j r => ?_, fun _ => .inl rfl⟩
      · rw [hp]
        exact Iff.rfl
      · rw [hp]
        exact ⟨nofun, nofun⟩
  | lockSleep hcpu hp hb =>
      refine ⟨Q, h.withCpu fun x hx => ?_, fun _ => .inl rfl⟩
      rw [h.running hcpu hx, hp] at hx
      exact hx
  | lock hcpu hp hb => exact ⟨Q, h.lock hcpu hp hb, fun _ => .inl rfl⟩
  | needless hcpu hp hb =>
      refine ⟨Q, h.unlock hcpu (fun b' => ?_) fun m j r hq => ?_, fun _ => .inl rfl⟩
      · rw [hp]
        exact eq_comm
      · rw [hp] at hq
        cases hq
  | need hcpu hp hb =>
      refine ⟨Q, h.goOn hcpu (fun b => ?_) (fun _ _ _ => nofun) fun m j r => ?_, fun _ => .inl rfl⟩
      · rw [hp]
        exact Option.some_inj
      · rw [hp]
        exact ⟨nofun, nofun⟩
  | swap hcpu hp hj hm =>
      refine ⟨Q, h.goOn hcpu (fun b => ?_) (fun _ _ _ => nofun) fun m j r => ?_, fun _ => .inl rfl⟩
      · rw [hp]
        simp [Pc.Holds, hj]
      · rw [hp]
        exact ⟨nofun, nofun⟩
  | slotSleep hcpu hp hr hj =>
      refine ⟨Q, h.withCpu fun x hx => ?_, fun _ => .inl rfl⟩
      rw [h.running hcpu hx, hp] at hx
      exact hx
  | giveUp hcpu hp hr hj =>
      refine ⟨Q, h.unlock hcpu (fun b' => ?_) fun m j r hq => ?_, fun _ => .inl rfl⟩
      · rw [hp]
        exact Option.some_inj.trans eq_comm
      · rw [hp] at hq
        cases hq
  | @found p m r j hcpu hp hr =>
      refine ⟨Q, h.goOn hcpu (fun b => ?_) (fun m j r hq => ?_) fun m j r => ?_, fun _ => .inl rfl⟩
      · rw [hp]
        exact Iff.rfl
      · cases hq
        exact emptyRequest_some hr
      · rw [hp]
        exact ⟨nofun, nofun⟩
  | fill hcpu hp => exact ⟨Q, h.fill hcpu hp, fun _ => .inl rfl⟩
  | @add p m r j hcpu hp =>
      refine ⟨_, h.add hcpu hp, fun m' => ?_⟩
      by_cases hm : m' = m
      · subst hm
        refine .inr (.inr ⟨p, j, r, hp, if_pos rfl, (h.filled p m' j r hp).2.2.2.2, ?_⟩)
        rw [Function.update_self]
        exact addTo_perm
      · exact .inl (Function.update_of_ne hm _ _)

/-- A buffer in a queue stays locked until its request completes. -/
theorem unlocked_step {c' : Config} {b : Nat} (h : Inv c Q) (hs : Step c c') (hr : r ∈ Q m)
    (hb : (c.k.request r).bh = some b) (hfree : (c'.k.bh b).bLock = false) : Completes c c' m r := by
  have hl := h.buffer m r b hr hb
  have hkept : ∀ {q b'}, (c.pc q).Holds b' → ((c.k.setLock b' false).bh b).bLock = true := by
    intro q b' hq
    have hne : b ≠ b' := by
      rintro rfl
      exact (h.held q b hq).2 m r hr hb
    simp [Kernel.setLock, Kernel.setBh, hne, hl]
  cases hs with
  | schedule | yield | makeRequest | lockSleep | need | swap | slotSleep | found =>
      exact absurd (hl.symm.trans hfree) (by decide)
  | other k hk => exact absurd ((hl.symm.trans (hk.lock b).symm).trans hfree) (by decide)
  | @done m' r' u hr' =>
      have hfree := (bLock_endRequest u hr' b).symm.trans hfree
      split at hfree
      · rename_i hb'
        -- the request that is done with is the one of `b`
        have hmem : r' ∈ Q m' := h.mem_iff.mp ⟨Q m', h.queue m', ?_⟩
        · have heq := h.one m m' r r' b hr hmem hb hb'
          subst heq
          have hm := h.apart m m' r hr hmem
          subst hm
          exact ⟨hr', u, rfl⟩
        · have hhead := (h.queue m').head
          rw [hr'] at hhead
          exact List.mem_of_head? hhead.symm
      · exact absurd (hl.symm.trans hfree) (by decide)
  | @lock p m' b' rw hcpu hp hb' =>
      have hne : b ≠ b' := by
        rintro rfl
        rw [hl] at hb'
        cases hb'
      have hsame : ((c.k.setLock b' true).bh b).bLock = true := by simp [Kernel.setLock, Kernel.setBh, hne, hl]
      exact absurd (hsame.symm.trans hfree) (by decide)
  | @needless p m' b' rw hcpu hp hb' =>
      have hh : (c.pc p).Holds b' := by
        rw [hp]
        exact rfl
      exact absurd ((hkept hh).symm.trans hfree) (by decide)
  | @giveUp p m' b' rw hcpu hp hr' hj =>
      have hh : (c.pc p).Holds b' := by
        rw [hp]
        exact rfl
      exact absurd ((hkept hh).symm.trans hfree) (by decide)
  | @fill p m' r' j hcpu hp =>
      obtain ⟨q, hq, -⟩ := j.fill_eq c.k r'
      have hsame : ((j.fill c.k r').bh b).bLock = true := by
        rw [hq]
        exact hl
      exact absurd (hsame.symm.trans hfree) (by decide)
  | add hcpu hp => exact absurd ((hl.symm.trans (bLock_addRequest _ _ _ _).symm).trans hfree) (by decide)

/-- What has been filled stays so until it is queued. -/
theorem filled_step {c' : Config} {j : Job} (h : Inv c Q) (hs : Step c c') (hp : c.pc p = .filled m j r) :
    c'.pc p = .filled m j r ∨ InQueue c' m r := by
  have hrun : (c.pc p).Running := by
    rw [hp]
    trivial
  -- only `p` can run, and it is not elsewhere
  have hstays : ∀ {p' q}, c.cpu = some p' → c.pc p' = q → q ≠ .filled m j r → p ≠ p' := by
    rintro p' q hcpu hp' hq rfl
    exact hq (hp'.symm.trans hp)
  have hgoto : ∀ {p' q q'}, c.cpu = some p' → c.pc p' = q → q ≠ .filled m j r →
      (c.goto p' q').pc p = .filled m j r := by
    intro p' q q' hcpu hp' hq
    exact (if_neg (hstays hcpu hp' hq)).trans hp
  cases hs with
  | schedule | yield | other | done | lockSleep | slotSleep => exact .inl hp
  | makeRequest rw b hcpu hp' => exact .inl (hgoto hcpu hp' nofun)
  | lock hcpu hp' => exact .inl (hgoto hcpu hp' nofun)
  | needless hcpu hp' => exact .inl (hgoto hcpu hp' nofun)
  | need hcpu hp' => exact .inl (hgoto hcpu hp' nofun)
  | swap hcpu hp' => exact .inl (hgoto hcpu hp' nofun)
  | giveUp hcpu hp' => exact .inl (hgoto hcpu hp' nofun)
  | found hcpu hp' => exact .inl (hgoto hcpu hp' nofun)
  | fill hcpu hp' => exact .inl (hgoto hcpu hp' nofun)
  | @add p' m' r' j' hcpu hp' =>
      have hpp := h.running hcpu hrun
      subst hpp
      have heq := hp'.symm.trans hp
      cases heq
      refine .inr ((h.add hcpu hp').mem_iff.mpr ?_)
      rw [Function.update_self]
      exact addTo_perm.mem_iff.mpr List.mem_cons_self

theorem moves {c' : Config} (h : Inv c Q) (hs : Step c c') : Moves c c' := by
  obtain ⟨Q', h', hshift⟩ := h.step hs
  refine ⟨fun m l l' hl hl' => ?_, fun p m j r hp => h.filled_step hs hp, fun m r b hr hb => ⟨?_, ?_⟩⟩
  · have hlQ := hl.unique (h.queue m)
    have hlQ' := hl'.unique (h'.queue m)
    subst hlQ hlQ'
    refine (hshift m).imp_right (Or.imp_right ?_)
    rintro ⟨p, j, r, hp, hp', hout, hperm⟩
    exact ⟨p, j, r, hp, hp', fun m hm => hout m (h.mem_iff.mp hm), hperm⟩
  · exact h.unlocked_step hs (h.mem_iff.mp hr) hb
  · rintro ⟨hcur, u, rfl⟩
    refine (bLock_endRequest u hcur b).trans ?_
    rw [if_pos hb]

end Inv

/-- Every run keeps the invariant. -/
theorem inv_run {c₀ c : Config} (h : Start c₀) (hr : ReflTransGen Step c₀ c) : ∃ Q, Inv c Q := by
  induction hr with
  | refl => exact ⟨_, .start h⟩
  | tail _ hs ih =>
      obtain ⟨Q, hQ⟩ := ih
      obtain ⟨Q', hQ', -⟩ := hQ.step hs
      exact ⟨Q', hQ'⟩

/-- **Slots and buffers are accounted for in every run**, and no request is dropped or queued twice. -/
theorem requests_protocol {c₀ c : Config} (h : Start c₀) (hr : ReflTransGen Step c₀ c) :
    Protocol c ∧ ∀ c', Step c c' → Moves c c' := by
  obtain ⟨Q, hQ⟩ := inv_run h hr
  exact ⟨hQ.protocol, fun c' hs => hQ.moves hs⟩

/-- A hard disk; the buffers are for blocks of its first partition. -/
def hardDisk : Config where
  k := { idleDevice with
    bh := fun b => { idleDevice.bh b with bDev := 0x301, bBlocknr := BitVec.ofNat 32 b, bLock := false } }
  pc := fun _ => .idle
  cpu := none

/-- The process 1 reads a block. -/
theorem requests_protocol_read : ∃ c, (c.k.bh 7).bLock = true ∧ (c.k.blkDev 3).currentRequest = some 31 ∧
    Protocol c ∧ ∀ c', Step c c' → Moves c c' := by
  have hstart : Start hardDisk := ⟨fun _ => rfl, fun _ => rfl, fun _ => rfl, fun _ => rfl⟩
  let m := major (hardDisk.k.bh 7).bDev
  let c₁ : Config := { hardDisk with cpu := some 1 }
  let c₂ := c₁.goto 1 (.lock m .read 7)
  let c₃ := { c₂ with k := c₂.k.setLock 7 true }.goto 1 (.test m .read 7)
  let c₄ := c₃.goto 1 (.search m (.block .read 7))
  let c₅ := c₄.goto 1 (.found m (.block .read 7) 31)
  let c₆ := { c₅ with k := (Job.block .read 7).fill c₅.k 31 }.goto 1 (.filled m (.block .read 7) 31)
  let c₇ := { c₆ with k := addRequest m 31 c₆.k }.goto 1 .idle
  have hrun : ReflTransGen Step hardDisk c₇ := by
    apply ReflTransGen.head (.schedule 1 rfl : Step hardDisk c₁)
    have hmade : Step c₁ c₂ := @Step.makeRequest c₁ 1 .read 7 rfl rfl (by decide) (by decide)
    apply ReflTransGen.head hmade
    apply ReflTransGen.head (.lock rfl rfl rfl : Step c₂ c₃)
    apply ReflTransGen.head (.need rfl rfl rfl : Step c₃ c₄)
    apply ReflTransGen.head (.found rfl rfl (by decide) : Step c₄ c₅)
    apply ReflTransGen.head (.fill rfl rfl : Step c₅ c₆)
    exact .single (.add rfl rfl)
  exact ⟨c₇, rfl, rfl, requests_protocol hstart hrun⟩

end Requests
end BlkDrv
end Linux095
