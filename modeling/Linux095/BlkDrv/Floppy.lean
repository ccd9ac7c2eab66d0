import Linux095.Fs.Buffer
import Mathlib.Algebra.Group.Nat.Defs

/-!
# `BlkDrv.Floppy` — the track buffer of the floppy driver (`floppy.c`)

`do_fd_request` serves a read from `floppy_track_buffer` if that has the track of the drive, and patches the buffer
before a write. Otherwise the transfer is started, for the whole track if it is a read that has not failed too often,
and `rw_interrupt` learns how it ended. Where motors, seeks, recalibration and resets come in between, they end in
another turn of `do_fd_request` or in `bad_flp_intr`. A transfer without an error is one of the sectors that
have been asked for, since the controller compares the addresses on the disk.

* `doFdRequest`, `setupDma`, `rwInterrupt`, `badFlpIntr`, `floppyChange` — the source's functions;
* `Step` — the driver, from one point where the controller has a say to the next;
* `Clear` — what a step must not do for the buffer to be right;
* `Inv` — **the invariant**: the buffer is what the disk is, or will be when the write is done;
* `reads_of_clear` — every read of a clear run delivers what the disk holds.
-/

namespace Linux095
namespace BlkDrv
namespace Floppy
open Fs (Cmd)

def MAX_ERRORS : Nat := 12

/-- 512 bytes. -/
abbrev Sector := Nat → BitVec 8

/-- `struct floppy_struct`, without what only the controller is told. -/
structure Format where
  size : Nat
  sect : Nat
  head : Nat
  stretch : Nat

/-- `floppy_type`. -/
def floppyType : List Format :=
  [⟨0, 0, 0, 0⟩, ⟨720, 9, 2, 0⟩, ⟨2400, 15, 2, 0⟩, ⟨720, 9, 2, 1⟩, ⟨1440, 9, 2, 0⟩, ⟨720, 9, 2, 1⟩, ⟨1440, 9, 2, 0⟩,
    ⟨2880, 18, 2, 0⟩]

/-- What the driver uses of a request, and the memory of its buffer, sector by sector. -/
structure Request where
  minor : Nat
  cmd : Cmd
  errors : Nat
  sector : BitVec 32
  nrSectors : Nat
  buffer : Nat → Sector

/-- `DRIVE(MINOR(dev))`. -/
def Request.drive (r : Request) : Nat := r.minor % 4

/-- `floppy_type + (MINOR(dev)>>2)`; `beyond` is what lies behind the array. -/
def Request.format (beyond : Nat → Format) (r : Request) : Format :=
  floppyType.getD (r.minor / 4) (beyond (r.minor / 4))

/-- `copy_buffer`: 1024 bytes. -/
def copyBuffer (src : Nat → Sector) (i : Nat) (dst : Nat → Sector) (j : Nat) : Nat → Sector :=
  fun k => if j ≤ k ∧ k < j + 2 then src (i + (k - j)) else dst k

/-! ## Disks -/

/-- A disk: by cylinder, head and number of the sector, which begins at 1. -/
abbrev Disk := Nat → Nat × Nat → Sector

/-- The `i`th sector of a cylinder with `sect` sectors for each head. -/
def place (sect i : Nat) : Nat × Nat := (i / sect, i % sect + 1)

/-- Two sectors are written, from the `i`th on. -/
def Disk.write (d : Disk) (cyl sect i : Nat) (data : Nat → Sector) : Disk :=
  fun c p =>
    if c = cyl ∧ p = place sect i then data 0
    else if c = cyl ∧ p = place sect (i + 1) then data 1
    else d c p

/-! ## The driver -/

/-- What `do_fd_request` leaves for the interrupts: `floppy`, `current_drive`, `sector` before it is counted from 1,
    `head`, `seek_track` and `command`. All but the first are `unsigned char`s. -/
structure Regs where
  floppy : Format
  currentDrive : Nat
  sector : Nat
  head : Nat
  seekTrack : Nat
  command : Cmd

/-- The place in the track buffer. -/
def Regs.index (g : Regs) : Nat := g.sector + g.head * g.floppy.sect

/-- The variables for the request `r`. -/
def Request.regs (beyond : Nat → Format) (r : Request) : Regs :=
  let floppy := r.format beyond
  let block := r.sector.toNat
  { floppy
    currentDrive := r.drive
    sector := block % floppy.sect % 256
    head := block / floppy.sect % floppy.head % 256
    seekTrack := (block / floppy.sect / floppy.head % 256) * 2 ^ floppy.stretch % 256
    command := r.cmd }

inductive Pc where
  /-- Outside, and nothing to do. -/
  | idle
  /-- At the beginning of `do_fd_request`. -/
  | request
  /-- `do_fd_request` has returned; `transfer` will be called. -/
  | starting
  /-- `rw_interrupt` will be called. -/
  | flying
  /-- A division by zero. -/
  | stopped

/-- The disks in the drives, and the variables of the driver. For the sake of the specification, `filled` is the
    number of sectors for each head under which the buffer was filled, and `patched` says that the current request is a
    write which has patched the buffer. -/
structure Driver where
  disk : Nat → Disk
  queue : List Request
  pc : Pc
  trackBuffer : Nat → Sector
  bufferTrack : Option Nat
  bufferDrive : Option Nat
  readTrack : Bool
  regs : Regs
  filled : Nat
  patched : Bool

/-- What comes of a request. -/
inductive Event where
  | quiet
  /-- A read has ended well, with this in its buffer. -/
  | delivered (r : Request) (mem : Nat → Sector)
  | written (r : Request)
  | failed (r : Request)

namespace Driver

/-- `end_request`, at `CURRENT`. -/
def endRequest (s : Driver) : Driver := { s with queue := s.queue.tail, pc := .request, patched := false }

/-- The buffer has the track. -/
def Hit (s : Driver) (g : Regs) : Prop := s.bufferTrack = some g.seekTrack ∧ s.bufferDrive = some g.currentDrive

instance (s : Driver) (g : Regs) : Decidable (s.Hit g) := inferInstanceAs (Decidable (_ ∧ _))

/-- `do_fd_request`, when neither `reset` nor `recalibrate` is set. -/
def doFdRequest (beyond : Nat → Format) (s : Driver) : Driver × Event :=
  match s.queue with
  | [] => ({ s with pc := .idle }, .quiet)
  | r :: _ =>
      let g := r.regs beyond
      if g.floppy.size < (r.sector.toNat + 2) % 2 ^ 32 then (s.endRequest, .failed r)
      else if g.floppy.sect = 0 ∨ g.floppy.head = 0 then ({ s with pc := .stopped }, .quiet)
      else if s.Hit g then
        match r.cmd with
        | .read => ({ s with regs := g }.endRequest, .delivered r (copyBuffer s.trackBuffer g.index r.buffer 0))
        | .write =>
            ({ s with
              trackBuffer := copyBuffer r.buffer 0 s.trackBuffer g.index
              regs := g
              pc := .starting
              patched := true }, .quiet)
      else ({ s with regs := g, pc := .starting }, .quiet)

/-- The start of `transfer`, and `setup_DMA`: "mark buffer-track bad, in case all this fails". -/
def setupDma (s : Driver) (r : Request) : Driver :=
  if s.regs.command = .read ∧ r.errors < 4 then
    { s with
      readTrack := true
      bufferTrack := none
      bufferDrive := none
      pc := .flying }
  else
    { s with
      readTrack := false
      pc := .flying }

/-- The sectors of the cylinder of the current request. -/
def track (s : Driver) (i : Nat) : Sector := s.disk s.regs.currentDrive s.regs.seekTrack (place s.regs.floppy.sect i)

/-- The disks with the two sectors of the current request written. -/
def store (s : Driver) (data : Nat → Sector) : Nat → Disk := fun d =>
  if d = s.regs.currentDrive then (s.disk d).write s.regs.seekTrack s.regs.floppy.sect s.regs.index data
  else s.disk d

/-- `rw_interrupt`, when all went well. -/
def rwInterrupt (s : Driver) (r : Request) : Driver × Event :=
  if s.readTrack then
    let trackBuffer := fun i => if i < s.regs.floppy.sect * 2 then s.track i else s.trackBuffer i
    ({ s with
      trackBuffer := trackBuffer
      bufferTrack := some s.regs.seekTrack
      bufferDrive := some s.regs.currentDrive
      filled := s.regs.floppy.sect }.endRequest, .delivered r (copyBuffer trackBuffer s.regs.index r.buffer 0))
  else
    match s.regs.command with
    | .read => (s.endRequest, .delivered r (copyBuffer s.track s.regs.index r.buffer 0))
    | .write => ({ s with disk := s.store r.buffer }.endRequest, .written r)

/-- What a transfer that fails leaves: something where the sectors should have gone. -/
def spoil (s : Driver) (r : Request) (junk : Nat → Sector) : Driver :=
  if s.readTrack then { s with trackBuffer := junk }
  else
    match s.regs.command with
    | .read => { s with queue := { r with buffer := copyBuffer junk 0 r.buffer 0 } :: s.queue.tail }
    | .write => { s with disk := s.store junk }

/-- `bad_flp_intr`, but for what it says about the head. -/
def badFlpIntr (s : Driver) : Driver × Event :=
  match s.queue with
  | [] => ({ s with pc := .request }, .quiet)
  | r :: q =>
      if MAX_ERRORS < r.errors + 1 then (s.endRequest, .failed r)
      else ({ s with queue := { r with errors := r.errors + 1 } :: q, pc := .request }, .quiet)

/-- `floppy_change` finds that there is another disk in drive `d`. -/
def floppyChange (s : Driver) (d : Nat) (disk : Disk) : Driver :=
  { s with disk := fun x => if x = d then disk else s.disk x, bufferTrack := none }

end Driver

/-- What `make_request` and `ll_rw_page` fill in: sectors are counted in blocks or pages. -/
def Request.New (r : Request) : Prop :=
  r.errors = 0 ∧ r.sector.toNat % 2 = 0 ∧ (r.nrSectors = 2 ∨ r.nrSectors = 8)

/-- One step. -/
inductive Step (beyond : Nat → Format) : Driver → Event → Driver → Prop
  -- `add_request`
  | add {s : Driver} {r active : Request} {q₁ q₂ : List Request} (hr : r.New)
      (hq : s.queue = active :: (q₁ ++ q₂)) : Step beyond s .quiet { s with queue := active :: (q₁ ++ r :: q₂) }
  | start {s : Driver} {r : Request} (hr : r.New) (hp : s.pc = .idle) (hq : s.queue = []) :
      Step beyond s .quiet { s with queue := [r], pc := .request }
  | request {s : Driver} (hp : s.pc = .request) :
      Step beyond s (s.doFdRequest beyond).2 (s.doFdRequest beyond).1
  -- the head is where it should be, or the seek has failed, or the controller is reset first
  | transfer {s : Driver} {r : Request} {q : List Request} (hp : s.pc = .starting) (hq : s.queue = r :: q) :
      Step beyond s .quiet (s.setupDma r)
  | seekFails {s : Driver} (hp : s.pc = .starting) : Step beyond s s.badFlpIntr.2 s.badFlpIntr.1
  | reset {s : Driver} (hp : s.pc = .starting ∨ s.pc = .flying) : Step beyond s .quiet { s with pc := .request }
  -- `rw_interrupt`
  | good {s : Driver} {r : Request} {q : List Request} (hp : s.pc = .flying) (hq : s.queue = r :: q) :
      Step beyond s (s.rwInterrupt r).2 (s.rwInterrupt r).1
  | bad {s : Driver} {r : Request} {q : List Request} (junk : Nat → Sector) (hp : s.pc = .flying)
      (hq : s.queue = r :: q) : Step beyond s (s.spoil r junk).badFlpIntr.2 (s.spoil r junk).badFlpIntr.1
  | writeProtected {s s' : Driver} {r : Request} {q : List Request} (junk : Nat → Sector) (hp : s.pc = .flying)
      (hq : s.queue = r :: q) (hs : s' = s ∨ s' = s.spoil r junk) : Step beyond s (.failed r) s'.endRequest
  | change {s : Driver} (d : Nat) (disk : Disk) : Step beyond s .quiet (s.floppyChange d disk)

/-! ## What is expected -/

/-- Where the `k`th sector of a request is: its cylinder, and its place there. -/
def Request.cylinder (beyond : Nat → Format) (r : Request) (k : Nat) : Nat :=
  (r.sector.toNat + k) / (r.format beyond).sect / (r.format beyond).head * 2 ^ (r.format beyond).stretch

def Request.place (beyond : Nat → Format) (r : Request) (k : Nat) : Nat × Nat :=
  ((r.sector.toNat + k) / (r.format beyond).sect % (r.format beyond).head,
    (r.sector.toNat + k) % (r.format beyond).sect + 1)

/-- A format of the table, and a request inside the disk. -/
structure Usable (beyond : Nat → Format) (r : Request) : Prop where
  known : r.minor / 4 < 8
  fits : r.sector.toNat + 2 ≤ (r.format beyond).size
  even : r.sector.toNat % 2 = 0

/-- The sectors of a request have the same places in the track buffer under the format it was filled in. -/
structure Regs.Aligned (g : Regs) (filled : Nat) : Prop where
  lt : g.index + 1 < filled * 2
  same : ∀ k < 2, place filled (g.index + k) = place g.floppy.sect (g.index + k)

/-- A step that does none of what goes wrong: the minor number has a format and the test of the size does not wrap; a
    request finds the buffer filled in a format in which it has the same places; a read has not more than the two
    sectors that are delivered; and a write that has patched the buffer does not fail in the end. -/
structure Clear (beyond : Nat → Format) (s : Driver) (e : Event) : Prop where
  known : s.pc = .request → ∀ r q, s.queue = r :: q → r.minor / 4 < 8 ∧ r.sector.toNat + 2 < 2 ^ 32
  aligned : s.pc = .request → ∀ r q, s.queue = r :: q →
    s.Hit (r.regs beyond) → (r.regs beyond).Aligned s.filled
  short : ∀ r mem, e = .delivered r mem → r.nrSectors ≤ 2
  kept : ∀ r, e = .failed r → s.patched → s.bufferTrack = none

/-- No request has come, and no track is in the buffer. -/
structure Start (s : Driver) : Prop where
  queue : s.queue = []
  pc : s.pc = .idle
  bufferTrack : s.bufferTrack = none
  patched : s.patched = false

/-- What clear steps lead to. -/
inductive ClearRun (beyond : Nat → Format) : Driver → Prop
  | start {s : Driver} (h : Start s) : ClearRun beyond s
  | step {s s' : Driver} {e : Event} (h : ClearRun beyond s) (hs : Step beyond s e s') (hc : Clear beyond s e) :
      ClearRun beyond s'

/-! ## Places -/

theorem place_inj {sect i j : Nat} (h : place sect i = place sect j) : i = j := by
  simp only [place, Prod.mk.injEq, Nat.add_right_cancel_iff] at h
  rw [← Nat.div_add_mod i sect, ← Nat.div_add_mod j sect, h.1, h.2]

theorem format_ok : ∀ f ∈ floppyType, f.size = 0 ∨
    f.head = 2 ∧ 0 < f.sect ∧ f.sect ≤ 18 ∧ f.size ≤ 160 * f.sect ∧ f.stretch ≤ 1 := by
  decide

section

variable {beyond : Nat → Format} {r : Request}

theorem Usable.format (h : Usable beyond r) : (r.format beyond).head = 2 ∧ 0 < (r.format beyond).sect ∧
    (r.format beyond).sect ≤ 18 ∧ (r.format beyond).size ≤ 160 * (r.format beyond).sect ∧
    (r.format beyond).stretch ≤ 1 := by
  have hfits := h.fits
  have hmem : r.format beyond ∈ floppyType := by
    have hlt : r.minor / 4 < floppyType.length := h.known
    unfold Request.format
    rw [List.getD_eq_getElem _ _ hlt]
    exact List.getElem_mem hlt
  rcases format_ok _ hmem with hzero | hok
  · omega
  · exact hok

theorem div_mod_of_lt {sect m : Nat} (hm : m < sect) (q : Nat) :
    (sect * q + m) / sect = q ∧ (sect * q + m) % sect = m := by
  have hpos : 0 < sect := Nat.lt_of_le_of_lt (Nat.zero_le m) hm
  constructor
  · rw [Nat.mul_add_div hpos, Nat.div_eq_of_lt hm, Nat.add_zero]
  · rw [Nat.mul_add_mod, Nat.mod_eq_of_lt hm]

theorem place_of_lt {sect m : Nat} (hm : m < sect) (q : Nat) : place sect (m + q * sect) = (q, m + 1) := by
  obtain ⟨hdiv, hmod⟩ := div_mod_of_lt hm q
  unfold Floppy.place
  rw [Nat.add_comm, Nat.mul_comm, hdiv, hmod]

/-- The two sectors of a request are on one cylinder, since a cylinder has an even number of them. -/
theorem two_sectors {b sect k : Nat} (hsect : 0 < sect) (heven : b % 2 = 0) (hk : k < 2) :
    (b + k) / sect / 2 = b / sect / 2 ∧
      place sect (b % sect + b / sect % 2 * sect + k) = ((b + k) / sect % 2, (b + k) % sect + 1) := by
  have hlt := Nat.mod_lt b hsect
  have hdiv := Nat.div_add_mod b sect
  generalize b / sect = q at hdiv ⊢
  generalize b % sect = m at hdiv hlt ⊢
  by_cases hm : m + k < sect
  · have hb : b + k = sect * q + (m + k) := by omega
    obtain ⟨hq, hr⟩ := div_mod_of_lt hm q
    rw [hb, hq, hr, Nat.add_right_comm, place_of_lt hm]
    exact ⟨rfl, rfl⟩
  · have hk1 : k = 1 := by omega
    have hb : b + k = sect * (q + 1) + 0 := by
      rw [Nat.mul_add, Nat.mul_one]
      omega
    have hq : q % 2 = 0 := by
      by_contra hodd
      obtain ⟨t, ht⟩ : ∃ t, q + 1 = 2 * t := ⟨(q + 1) / 2, by omega⟩
      rw [ht, Nat.mul_left_comm] at hb
      omega
    obtain ⟨hq', hr'⟩ := div_mod_of_lt hsect (q + 1)
    have hidx : m + q % 2 * sect + k = 0 + 1 * sect := by
      rw [hq]
      omega
    rw [hb, hq', hr', hidx, place_of_lt hsect]
    refine ⟨by omega, ?_⟩
    rw [Prod.mk.injEq]
    omega

theorem Usable.head (h : Usable beyond r) :
    (r.regs beyond).head = r.sector.toNat / (r.format beyond).sect % 2 := by
  obtain ⟨hhead, -⟩ := h.format
  unfold Request.regs
  simp only
  rw [hhead]
  omega

theorem Usable.index (h : Usable beyond r) : (r.regs beyond).index =
    r.sector.toNat % (r.format beyond).sect +
      r.sector.toNat / (r.format beyond).sect % 2 * (r.format beyond).sect := by
  obtain ⟨-, hpos, hsect, -⟩ := h.format
  have hlt := Nat.mod_lt r.sector.toNat hpos
  unfold Regs.index
  rw [h.head]
  unfold Request.regs
  simp only
  rw [Nat.mod_eq_of_lt (by omega : _ < 256)]

theorem Usable.cylinder (h : Usable beyond r) {k : Nat} (hk : k < 2) :
    (r.regs beyond).seekTrack = r.cylinder beyond k := by
  obtain ⟨hhead, hpos, -, hsize, hstretch⟩ := h.format
  have hfits := h.fits
  have htwo := (two_sectors hpos h.even hk).1
  unfold Request.regs Request.cylinder
  simp only
  rw [hhead, htwo]
  have hside : r.sector.toNat / (r.format beyond).sect < 160 :=
    Nat.div_lt_of_lt_mul (by rw [Nat.mul_comm]; omega)
  generalize r.sector.toNat / (r.format beyond).sect = q at hside ⊢
  obtain hzero | hone : (r.format beyond).stretch = 0 ∨ (r.format beyond).stretch = 1 := by omega
  · rw [hzero]
    omega
  · rw [hone]
    omega

theorem Usable.place (h : Usable beyond r) {k : Nat} (hk : k < 2) :
    Floppy.place (r.regs beyond).floppy.sect ((r.regs beyond).index + k) = r.place beyond k := by
  obtain ⟨hhead, hpos, -⟩ := h.format
  rw [h.index]
  unfold Request.place
  rw [hhead]
  exact (two_sectors hpos h.even hk).2

/-! ## Writing to a disk -/

variable {d : Disk} {cyl sect i c : Nat} {p : Nat × Nat} {data : Nat → Sector}

theorem Disk.write_at {k : Nat} (hk : k < 2) : d.write cyl sect i data cyl (Floppy.place sect (i + k)) = data k := by
  unfold Disk.write
  obtain rfl | rfl : k = 0 ∨ k = 1 := by omega
  · rw [if_pos ⟨rfl, rfl⟩]
  · rw [if_neg (fun hp => absurd (place_inj hp.2) (by omega)), if_pos ⟨rfl, rfl⟩]

theorem Disk.write_other (h : c = cyl → ∀ k < 2, p ≠ Floppy.place sect (i + k)) :
    d.write cyl sect i data c p = d c p := by
  unfold Disk.write
  rw [if_neg (fun hp => h hp.1 0 (by omega) hp.2), if_neg (fun hp => h hp.1 1 (by omega) hp.2)]

theorem Disk.write_write {junk : Nat → Sector} :
    (d.write cyl sect i junk).write cyl sect i data = d.write cyl sect i data := by
  funext c p
  unfold Disk.write
  split
  · rfl
  · split
    · rfl
    · rfl

/-! ## The invariant -/

variable {s : Driver} {q : List Request}

/-- The disks as they are, or as they will be when the write that has patched the buffer is done. -/
def Driver.soon (beyond : Nat → Format) (s : Driver) : Nat → Disk :=
  match s.patched, s.queue with
  | true, r :: _ => { s with regs := r.regs beyond }.store r.buffer
  | _, _ => s.disk

/-- **The invariant.** -/
structure Inv (beyond : Nat → Format) (s : Driver) : Prop where
  even : ∀ r ∈ s.queue, r.sector.toNat % 2 = 0
  current : s.pc = .starting ∨ s.pc = .flying → ∃ r q, s.queue = r :: q ∧ Usable beyond r ∧ s.regs = r.regs beyond
  reading : s.pc = .flying → s.readTrack → s.regs.command = .read ∧ s.bufferTrack = none
  patch : s.patched → ∃ r q, s.queue = r :: q ∧ r.cmd = .write ∧
    (s.bufferTrack ≠ none → s.Hit (r.regs beyond) ∧ (r.regs beyond).Aligned s.filled)
  hit : s.pc = .starting ∨ s.pc = .flying → s.regs.command = .write → s.Hit s.regs → s.patched
  coherent : ∀ t d, s.bufferTrack = some t → s.bufferDrive = some d → 0 < s.filled ∧
    ∀ i < s.filled * 2, s.trackBuffer i = s.soon beyond d t (Floppy.place s.filled i)

theorem soon_of_clean (h : s.patched = false) : s.soon beyond = s.disk := by
  unfold Driver.soon
  rw [h]

theorem soon_of_clean_apply (h : s.patched = false) (d t : Nat) (p : Nat × Nat) :
    s.soon beyond d t p = s.disk d t p := by
  rw [soon_of_clean h]

theorem soon_of_patched (h : s.patched = true) (hq : s.queue = r :: q) :
    s.soon beyond = { s with regs := r.regs beyond }.store r.buffer := by
  unfold Driver.soon
  rw [h, hq]

/-- A write to another track. -/
theorem store_miss (data : Nat → Sector) (h : ¬ s.Hit s.regs) {t d : Nat} (ht : s.bufferTrack = some t)
    (hd : s.bufferDrive = some d) (p : Nat × Nat) : s.store data d t p = s.disk d t p := by
  unfold Driver.store
  split
  · rename_i hdrive
    refine Disk.write_other fun htrack => ?_
    exact absurd ⟨ht.trans (congrArg some htrack), hd.trans (congrArg some hdrive)⟩ h
  · rfl

theorem soon_patch (hq : s.queue = r :: q) (trackBuffer : Nat → Sector) :
    Driver.soon beyond
      { s with
        trackBuffer := trackBuffer
        regs := r.regs beyond
        pc := .starting
        patched := true } = { s with regs := r.regs beyond }.store r.buffer := by
  unfold Driver.soon
  simp only [hq]
  rfl

namespace Inv

theorem init (h : Start s) : Inv beyond s where
  even r hr := absurd hr (by simp [h.queue])
  current hp := by simp [h.pc] at hp
  reading hp := by simp [h.pc] at hp
  patch hp := by simp [h.patched] at hp
  hit hp := by simp [h.pc] at hp
  coherent t d ht := by simp [h.bufferTrack] at ht

/-- A request ends with the buffer as the disk is. -/
theorem ended {s' : Driver} (heven : ∀ r ∈ s'.queue, r.sector.toNat % 2 = 0)
    (hc : ∀ t d, s'.bufferTrack = some t → s'.bufferDrive = some d → 0 < s'.filled ∧
      ∀ i < s'.filled * 2, s'.trackBuffer i = s'.disk d t (Floppy.place s'.filled i)) : Inv beyond s'.endRequest where
  even r hr := heven r (List.mem_of_mem_tail hr)
  current hp := by simp [Driver.endRequest] at hp
  reading hp := by simp [Driver.endRequest] at hp
  patch hp := by simp [Driver.endRequest] at hp
  hit hp := by simp [Driver.endRequest] at hp
  coherent := hc

/-- If a request that ends has patched the buffer, that has become invalid. -/
theorem endRequest (h : Inv beyond s) (hkept : s.patched → s.bufferTrack = none) (g : Regs) :
    Inv beyond { s with regs := g }.endRequest := by
  refine ended h.even fun t d ht hd => ?_
  have hclean : s.patched = false := by
    by_contra hp
    exact absurd (ht.symm.trans (hkept (by simpa using hp))) (by simp)
  have hc := h.coherent t d ht hd
  rw [soon_of_clean hclean] at hc
  exact hc

/-- The current request will be tried again; of a read, what is in its buffer does not matter. -/
theorem retry {r' : Request} {disk : Nat → Disk} {trackBuffer : Nat → Sector} (h : Inv beyond s)
    (hq : s.queue = r :: q) (hregs : r'.regs beyond = r.regs beyond) (hcmd : r'.cmd = r.cmd)
    (hsector : r'.sector = r.sector) (hbuf : s.bufferTrack ≠ none → trackBuffer = s.trackBuffer)
    (hsoon : s.bufferTrack ≠ none →
      { s with queue := r' :: q, disk := disk }.soon beyond = s.soon beyond) :
    Inv beyond { s with queue := r' :: q, pc := .request, disk := disk, trackBuffer := trackBuffer } where
  even x hx := by
    rcases List.mem_cons.1 hx with rfl | hx
    · rw [hsector]
      exact h.even r (by simp [hq])
    · exact h.even x (by simp [hq, hx])
  current hp := by simp at hp
  reading hp := by simp at hp
  patch hp := by
    obtain ⟨r₁, q₁, hq₁, hw, hal⟩ := h.patch hp
    obtain ⟨rfl, rfl⟩ : r = r₁ ∧ q = q₁ := by simpa [hq] using hq₁
    refine ⟨r', q, rfl, hcmd.trans hw, fun hne => ?_⟩
    rw [hregs]
    obtain ⟨hhit, haligned⟩ := hal hne
    exact ⟨hhit, haligned⟩
  hit hp := by simp at hp
  coherent t d ht hd := by
    have hne : s.bufferTrack ≠ none := by simp [show s.bufferTrack = some t from ht]
    obtain ⟨hpos, hc⟩ := h.coherent t d ht hd
    refine ⟨hpos, fun i hi => ?_⟩
    rw [← hsoon hne] at hc
    exact (congrFun (hbuf hne) i).trans (hc i hi)

end Inv

/-- The ways through `do_fd_request`. -/
theorem doFdRequest_cases (beyond : Nat → Format) (hq : s.queue = r :: q) :
    ((r.format beyond).size < (r.sector.toNat + 2) % 2 ^ 32 ∧ s.doFdRequest beyond = (s.endRequest, .failed r)) ∨
    ((r.sector.toNat + 2) % 2 ^ 32 ≤ (r.format beyond).size ∧
      (s.doFdRequest beyond = ({ s with pc := .stopped }, .quiet) ∨
      (s.Hit (r.regs beyond) ∧ r.cmd = .read ∧ s.doFdRequest beyond =
        ({ s with regs := r.regs beyond }.endRequest,
          .delivered r (copyBuffer s.trackBuffer (r.regs beyond).index r.buffer 0))) ∨
      (s.Hit (r.regs beyond) ∧ r.cmd = .write ∧ s.doFdRequest beyond =
        ({ s with
          trackBuffer := copyBuffer r.buffer 0 s.trackBuffer (r.regs beyond).index
          regs := r.regs beyond
          pc := .starting
          patched := true }, .quiet)) ∨
      (¬ s.Hit (r.regs beyond) ∧
        s.doFdRequest beyond = ({ s with regs := r.regs beyond, pc := .starting }, .quiet)))) := by
  unfold Driver.doFdRequest
  rw [hq]
  simp only
  by_cases hsize : (r.format beyond).size < (r.sector.toNat + 2) % 2 ^ 32
  · exact Or.inl ⟨hsize, if_pos hsize⟩
  · refine Or.inr ⟨Nat.not_lt.1 hsize, ?_⟩
    rw [if_neg (show ¬ (r.regs beyond).floppy.size < _ from hsize)]
    split
    · exact Or.inl rfl
    · split
      · rename_i hhit
        cases hcmd : r.cmd with
        | read => exact Or.inr (Or.inl ⟨hhit, rfl, rfl⟩)
        | write => exact Or.inr (Or.inr (Or.inl ⟨hhit, rfl, rfl⟩))
      · rename_i hhit
        exact Or.inr (Or.inr (Or.inr ⟨hhit, rfl⟩))

namespace Inv

/-- A current request that has patched the buffer is a write. -/
theorem write_of_patched (h : Inv beyond s) (hq : s.queue = r :: q) (hp : s.patched) : r.cmd = .write := by
  obtain ⟨r₁, q₁, hq₁, hw, -⟩ := h.patch hp
  obtain ⟨rfl, rfl⟩ : r = r₁ ∧ q = q₁ := by simpa [hq] using hq₁
  exact hw

theorem clean_of_read (h : Inv beyond s) (hq : s.queue = r :: q) (hr : r.cmd = .read) : s.patched = false := by
  by_contra hp
  have hw := h.write_of_patched hq (by simpa using hp)
  rw [hr] at hw
  exact absurd hw (by simp)

/-- The buffer is patched with what will be written. -/
theorem patchBuffer (h : Inv beyond s) (hq : s.queue = r :: q) (hw : r.cmd = .write) (hu : Usable beyond r)
    (hhit : s.Hit (r.regs beyond)) (hal : (r.regs beyond).Aligned s.filled) :
    Inv beyond
      { s with
        trackBuffer := copyBuffer r.buffer 0 s.trackBuffer (r.regs beyond).index
        regs := r.regs beyond
        pc := .starting
        patched := true } where
  even := h.even
  current _ := ⟨r, q, hq, hu, rfl⟩
  reading hp := by simp at hp
  patch _ := ⟨r, q, hq, hw, fun _ => ⟨hhit, hal⟩⟩
  hit _ _ _ := rfl
  coherent t d ht hd := by
    obtain ⟨hpos, hc⟩ := h.coherent t d ht hd
    refine ⟨hpos, fun i hi => ?_⟩
    obtain rfl : (r.regs beyond).seekTrack = t := Option.some.inj (hhit.1.symm.trans ht)
    obtain rfl : (r.regs beyond).currentDrive = d := Option.some.inj (hhit.2.symm.trans hd)
    have hsoon := hc i hi
    rw [soon_patch hq]
    unfold copyBuffer Driver.store
    simp only
    rw [if_pos trivial]
    split
    · rename_i hin
      obtain ⟨k, hk, rfl⟩ : ∃ k < 2, i = (r.regs beyond).index + k := ⟨i - (r.regs beyond).index, by omega, by omega⟩
      rw [hal.same k hk, Disk.write_at hk, Nat.add_sub_cancel_left, Nat.zero_add]
    · rename_i hout
      have hne : ∀ k < 2, Floppy.place s.filled i ≠
          Floppy.place (r.regs beyond).floppy.sect ((r.regs beyond).index + k) := by
        intro k hk heq
        rw [← hal.same k hk] at heq
        have := place_inj heq
        omega
      rw [Disk.write_other fun _ => hne, hsoon]
      by_cases hp : s.patched
      · rw [soon_of_patched hp hq]
        unfold Driver.store
        simp only
        rw [if_pos trivial, Disk.write_other fun _ => hne]
      · rw [soon_of_clean (by simpa using hp)]

theorem request (h : Inv beyond s) (hp : s.pc = .request) (hc : Clear beyond s (s.doFdRequest beyond).2) :
    Inv beyond (s.doFdRequest beyond).1 := by
  cases hq : s.queue with
  | nil =>
    have heq : s.doFdRequest beyond = ({ s with pc := .idle }, .quiet) := by
      unfold Driver.doFdRequest
      rw [hq]
    rw [heq]
    exact ⟨h.even, fun hp => by simp at hp, fun hp => by simp at hp, h.patch, fun hp => by simp at hp, h.coherent⟩
  | cons r q =>
    obtain ⟨hknown, hwrap⟩ := hc.known hp r q hq
    rcases doFdRequest_cases beyond hq with ⟨-, heq⟩ | ⟨hsize, heq | ⟨hhit, hr, heq⟩ | ⟨hhit, hw, heq⟩ |
      ⟨hhit, heq⟩⟩
    · rw [heq] at hc ⊢
      exact h.endRequest (hc.kept r rfl) s.regs
    · rw [heq]
      exact ⟨h.even, fun hp => by simp at hp, fun hp => by simp at hp, h.patch, fun hp => by simp at hp, h.coherent⟩
    · rw [heq]
      have hclean := h.clean_of_read hq hr
      exact h.endRequest (fun hp => absurd hp (by simp [hclean])) _
    · rw [heq]
      have hu : Usable beyond r := ⟨hknown, by omega, h.even r (by simp [hq])⟩
      exact h.patchBuffer hq hw hu hhit (hc.aligned hp r q hq hhit)
    · rw [heq]
      have hu : Usable beyond r := ⟨hknown, by omega, h.even r (by simp [hq])⟩
      exact ⟨h.even, fun _ => ⟨r, q, hq, hu, rfl⟩, fun hp => by simp at hp, h.patch,
        fun _ _ hhit' => absurd hhit' hhit, h.coherent⟩

theorem setupDma (h : Inv beyond s) (hp : s.pc = .starting) (r : Request) : Inv beyond (s.setupDma r) := by
  have hcurrent := h.current (Or.inl hp)
  unfold Driver.setupDma
  split
  · rename_i hread
    refine ⟨h.even, fun _ => hcurrent, fun _ _ => ⟨hread.1, rfl⟩, fun hpat => ?_, fun _ _ hhit => ?_, fun t d ht => ?_⟩
    · obtain ⟨r₁, q₁, hq₁, hw, -⟩ := h.patch hpat
      exact ⟨r₁, q₁, hq₁, hw, fun hne => absurd rfl hne⟩
    · exact absurd hhit.1 (by simp)
    · exact absurd ht (by simp)
  · exact ⟨h.even, fun _ => hcurrent, fun _ hr => absurd hr (by simp), h.patch, fun _ => h.hit (Or.inl hp), h.coherent⟩

/-- The controller is reset first. -/
theorem again (h : Inv beyond s) : Inv beyond { s with pc := .request } :=
  ⟨h.even, fun hp => by simp at hp, fun hp => by simp at hp, h.patch, fun hp => by simp at hp, h.coherent⟩

theorem badFlpIntr (h : Inv beyond s)
    (hkept : ∀ r, s.badFlpIntr.2 = .failed r → s.patched → s.bufferTrack = none) : Inv beyond s.badFlpIntr.1 := by
  unfold Driver.badFlpIntr at hkept ⊢
  split
  · exact h.again
  · rename_i r q hq
    rw [hq] at hkept
    simp only at hkept ⊢
    split
    · rename_i hmax
      rw [if_pos hmax] at hkept
      exact h.endRequest (hkept r rfl) s.regs
    · refine h.retry hq rfl rfl rfl (fun _ => rfl) fun _ => ?_
      cases hp : s.patched with
      | true =>
        rw [soon_of_patched (s := s) hp hq]
        exact soon_of_patched (r := { r with errors := r.errors + 1 }) rfl rfl
      | false =>
        rw [soon_of_clean (s := s) hp]
        exact soon_of_clean rfl

/-- The current request as the interrupts see it. -/
theorem flying (h : Inv beyond s) (hp : s.pc = .flying) (hq : s.queue = r :: q) :
    Usable beyond r ∧ s.regs = r.regs beyond := by
  obtain ⟨r₁, q₁, hq₁, hu, hregs⟩ := h.current (Or.inr hp)
  obtain ⟨rfl, rfl⟩ : r = r₁ ∧ q = q₁ := by simpa [hq] using hq₁
  exact ⟨hu, hregs⟩

theorem miss (h : Inv beyond s) (hp : s.pc = .flying) (hw : s.regs.command = .write) (hclean : s.patched = false) :
    ¬ s.Hit s.regs := fun hhit => by
  have hpatched := h.hit (Or.inr hp) hw hhit
  rw [hclean] at hpatched
  exact Bool.false_ne_true hpatched

/-- What is written is in the buffer already, or on another track. -/
theorem store_soon (h : Inv beyond s) (hp : s.pc = .flying) (hq : s.queue = r :: q) (hw : s.regs.command = .write)
    {t d : Nat} (ht : s.bufferTrack = some t) (hd : s.bufferDrive = some d) (p : Nat × Nat) :
    s.soon beyond d t p = s.store r.buffer d t p := by
  obtain ⟨hu, hregs⟩ := h.flying hp hq
  cases hpatched : s.patched with
  | true => rw [soon_of_patched hpatched hq, ← hregs]
  | false => rw [soon_of_clean hpatched, store_miss r.buffer (h.miss hp hw hpatched) ht hd]

theorem rwInterrupt (h : Inv beyond s) (hp : s.pc = .flying) (hq : s.queue = r :: q) :
    Inv beyond (s.rwInterrupt r).1 := by
  obtain ⟨hu, hregs⟩ := h.flying hp hq
  have hsect : 0 < s.regs.floppy.sect := by
    rw [hregs]
    exact hu.format.2.1
  have hclean (hr : s.regs.command = .read) : s.patched = false := by
    rw [hregs] at hr
    exact h.clean_of_read hq hr
  unfold Driver.rwInterrupt
  split
  · refine ended h.even fun t d ht hd => ⟨hsect, fun i hi => ?_⟩
    obtain rfl := Option.some.inj ht
    obtain rfl := Option.some.inj hd
    exact if_pos hi
  · split
    · rename_i hr
      exact h.endRequest (fun hpat => absurd hpat (by simp [hclean hr])) s.regs
    · rename_i hw
      refine ended h.even fun t d ht hd => ?_
      obtain ⟨hpos, hc⟩ := h.coherent t d ht hd
      exact ⟨hpos, fun i hi => (hc i hi).trans (h.store_soon hp hq hw ht hd _)⟩

theorem spoil (h : Inv beyond s) (hp : s.pc = .flying) (hq : s.queue = r :: q) (junk : Nat → Sector) :
    Inv beyond (s.spoil r junk) := by
  obtain ⟨hu, hregs⟩ := h.flying hp hq
  unfold Driver.spoil
  split
  · rename_i hread
    refine ⟨h.even, h.current, h.reading, h.patch, h.hit, fun t d ht => ?_⟩
    exact absurd (ht.symm.trans (h.reading hp hread).2) (by simp)
  · split
    · rename_i hread _ hr
      have hclean : s.patched = false := h.clean_of_read hq (by rw [← hr, hregs]; rfl)
      refine ⟨fun x hx => ?_, fun _ => ?_, fun _ hr' => absurd hr' hread, fun hpat => ?_, ?_, fun t d ht hd => ?_⟩
      · rw [hq] at hx
        rcases List.mem_cons.1 hx with rfl | hx
        · exact hu.even
        · exact h.even x (by simp [hq, show x ∈ q from hx])
      · exact ⟨_, _, rfl, ⟨hu.known, hu.fits, hu.even⟩, hregs⟩
      · exact absurd hpat (by simp [hclean])
      · exact fun _ hw => absurd (hr.symm.trans hw) (by simp)
      · obtain ⟨hpos, hc⟩ := h.coherent t d ht hd
        rw [soon_of_clean hclean] at hc
        refine ⟨hpos, fun i hi => (hc i hi).trans ?_⟩
        symm
        apply soon_of_clean_apply
        exact hclean
    · rename_i hread _ hw
      refine ⟨h.even, h.current, fun _ hr' => absurd hr' hread, h.patch, h.hit, fun t d ht hd => ?_⟩
      obtain ⟨hpos, hc⟩ := h.coherent t d ht hd
      refine ⟨hpos, fun i hi => (hc i hi).trans ?_⟩
      cases hpatched : s.patched with
      | true =>
        -- the write that will be tried again covers what has been spoiled
        rw [h.store_soon hp hq hw ht hd]
        have hspoiled : Driver.soon beyond { s with disk := s.store junk, patched := true } =
            { s with disk := s.store junk, regs := r.regs beyond }.store r.buffer := soon_of_patched rfl hq
        rw [hspoiled, ← hregs]
        unfold Driver.store
        simp only
        split
        · rw [Disk.write_write]
        · rfl
      | false =>
        rw [soon_of_clean hpatched]
        refine (store_miss junk (h.miss hp hw hpatched) ht hd _).symm.trans ?_
        symm
        apply soon_of_clean_apply
        rfl

theorem spoil_buffer (s : Driver) (r : Request) (junk : Nat → Sector) :
    (s.spoil r junk).patched = s.patched ∧ (s.spoil r junk).bufferTrack = s.bufferTrack := by
  unfold Driver.spoil
  split
  · exact ⟨rfl, rfl⟩
  · split
    · exact ⟨rfl, rfl⟩
    · exact ⟨rfl, rfl⟩

theorem change (h : Inv beyond s) (d : Nat) (disk : Disk) : Inv beyond (s.floppyChange d disk) where
  even := h.even
  current := h.current
  reading hp hr := ⟨(h.reading hp hr).1, rfl⟩
  patch hp := by
    obtain ⟨r, q, hq, hw, -⟩ := h.patch hp
    exact ⟨r, q, hq, hw, fun hne => absurd rfl hne⟩
  hit _ _ hhit := absurd hhit.1 (by simp [Driver.floppyChange])
  coherent t d ht := absurd ht (by simp [Driver.floppyChange])

theorem add {r : Request} {active : Request} {q₁ q₂ : List Request} (h : Inv beyond s) (hr : r.New)
    (hq : s.queue = active :: (q₁ ++ q₂)) : Inv beyond { s with queue := active :: (q₁ ++ r :: q₂) } where
  even x hx := by
    rcases List.mem_cons.1 hx with rfl | hx
    · exact h.even x (by simp [hq])
    · rcases List.mem_append.1 hx with hx | hx
      · exact h.even x (by simp [hq, hx])
      · rcases List.mem_cons.1 hx with rfl | hx
        · exact hr.2.1
        · exact h.even x (by simp [hq, hx])
  current hp := by
    obtain ⟨r₁, q, hq₁, hu, hregs⟩ := h.current hp
    obtain ⟨rfl, -⟩ : active = r₁ ∧ q₁ ++ q₂ = q := by simpa [hq] using hq₁
    exact ⟨_, _, rfl, hu, hregs⟩
  reading := h.reading
  patch hp := by
    obtain ⟨r₁, q, hq₁, hw, hal⟩ := h.patch hp
    obtain ⟨rfl, -⟩ : active = r₁ ∧ q₁ ++ q₂ = q := by simpa [hq] using hq₁
    exact ⟨_, _, rfl, hw, hal⟩
  hit := h.hit
  coherent t d ht hd := by
    obtain ⟨hpos, hc⟩ := h.coherent t d ht hd
    have hsoon : Driver.soon beyond { s with queue := active :: (q₁ ++ r :: q₂) } = s.soon beyond := by
      cases hp : s.patched with
      | true =>
        rw [soon_of_patched (s := s) hp hq]
        exact soon_of_patched rfl rfl
      | false =>
        rw [soon_of_clean (s := s) hp]
        exact soon_of_clean rfl
    rw [hsoon]
    exact ⟨hpos, hc⟩

theorem start {r : Request} (h : Inv beyond s) (hr : r.New) (hq : s.queue = []) :
    Inv beyond { s with queue := [r], pc := .request } where
  even x hx := by
    obtain rfl := List.mem_singleton.1 hx
    exact hr.2.1
  current hp := by simp at hp
  reading hp := by simp at hp
  patch hp := by
    obtain ⟨r₁, q, hq₁, -⟩ := h.patch hp
    rw [hq] at hq₁
    exact absurd hq₁ (by simp)
  hit hp := by simp at hp
  coherent t d ht hd := by
    obtain ⟨hpos, hc⟩ := h.coherent t d ht hd
    have hclean : s.patched = false := by
      by_contra hp
      obtain ⟨r₁, q, hq₁, -⟩ := h.patch (by simpa using hp)
      rw [hq] at hq₁
      exact absurd hq₁ (by simp)
    rw [soon_of_clean hclean] at hc
    refine ⟨hpos, fun i hi => (hc i hi).trans ?_⟩
    symm
    apply soon_of_clean_apply
    exact hclean

/-- **A clear step keeps the invariant.** -/
theorem step {s' : Driver} {e : Event} (h : Inv beyond s) (hs : Step beyond s e s') (hc : Clear beyond s e) :
    Inv beyond s' := by
  cases hs with
  | add hr hq => exact h.add hr hq
  | start hr hp hq => exact h.start hr hq
  | request hp => exact h.request hp hc
  | transfer hp hq => exact h.setupDma hp _
  | seekFails hp => exact h.badFlpIntr hc.kept
  | reset hp => exact h.again
  | good hp hq => exact h.rwInterrupt hp hq
  | bad junk hp hq =>
    obtain ⟨hpatched, htrack⟩ := spoil_buffer s _ junk
    refine (h.spoil hp hq junk).badFlpIntr fun r hr hp => ?_
    rw [htrack]
    exact hc.kept r hr (hpatched ▸ hp)
  | writeProtected junk hp hq hs =>
    rename_i r q
    rcases hs with rfl | rfl
    · exact h.endRequest (hc.kept _ rfl) _
    · obtain ⟨hpatched, htrack⟩ := spoil_buffer s r junk
      refine (h.spoil hp hq junk).endRequest (fun hp => ?_) _
      rw [htrack]
      exact hc.kept r rfl (hpatched ▸ hp)
  | change d disk => exact h.change d disk

end Inv

theorem ClearRun.inv (h : ClearRun beyond s) : Inv beyond s := by
  induction h with
  | start h => exact .init h
  | step _ hs hc ih => exact ih.step hs hc

/-! ## What reads deliver -/

/-- **When no write is under way, the buffer has what the disk has**, for a request that has the same places in it. -/
theorem Inv.buffered (h : Inv beyond s) (hclean : s.patched = false) (hu : Usable beyond r)
    (hhit : s.Hit (r.regs beyond)) (hal : (r.regs beyond).Aligned s.filled) {k : Nat} (hk : k < 2) :
    s.trackBuffer ((r.regs beyond).index + k) = s.disk r.drive (r.cylinder beyond k) (r.place beyond k) := by
  obtain ⟨-, hc⟩ := h.coherent _ _ hhit.1 hhit.2
  have hlt := hal.lt
  rw [hc _ (by omega), soon_of_clean hclean, hal.same k hk, hu.place hk, hu.cylinder hk]
  rfl

/-- The track that is read has the sectors of the request. -/
theorem Usable.index_lt (h : Usable beyond r) {k : Nat} (hk : k < 2) :
    (r.regs beyond).index + k < (r.regs beyond).floppy.sect * 2 := by
  obtain ⟨hhead, hpos, -⟩ := h.format
  have hplace := congrArg Prod.fst (h.place hk)
  unfold Floppy.place Request.place at hplace
  simp only at hplace
  rw [Nat.mul_comm]
  refine Nat.lt_mul_of_div_lt ?_ hpos
  rw [hplace, hhead]
  exact Nat.mod_lt _ (by decide)

theorem copyBuffer_apply {src dst : Nat → Sector} {i k : Nat} (hk : k < 2) :
    copyBuffer src i dst 0 k = src (i + k) := by
  unfold copyBuffer
  rw [if_pos ⟨Nat.zero_le k, by omega⟩, Nat.sub_zero]

theorem badFlpIntr_event (s : Driver) (mem : Nat → Sector) : s.badFlpIntr.2 ≠ .delivered r mem := by
  unfold Driver.badFlpIntr
  split
  · simp
  · split <;> simp

/-- A read that `do_fd_request` serves from the buffer. -/
theorem Inv.delivered_buffer (h : Inv beyond s) (hp : s.pc = .request) {mem : Nat → Sector} {e : Event}
    (hc : Clear beyond s e) (he : (s.doFdRequest beyond).2 = .delivered r mem) {k : Nat} (hk : k < 2) :
    mem k = (s.doFdRequest beyond).1.disk r.drive (r.cylinder beyond k) (r.place beyond k) := by
  cases hq : s.queue with
  | nil =>
    unfold Driver.doFdRequest at he
    rw [hq] at he
    exact absurd he (by simp)
  | cons r₁ q =>
    obtain ⟨hknown, hwrap⟩ := hc.known hp r₁ q hq
    rcases doFdRequest_cases beyond hq with ⟨-, heq⟩ | ⟨hsize, heq | ⟨hhit, hr, heq⟩ | ⟨-, -, heq⟩ | ⟨-, heq⟩⟩
    · exact absurd (heq ▸ he) (by simp)
    · exact absurd (heq ▸ he) (by simp)
    · rw [heq] at he ⊢
      obtain ⟨rfl, rfl⟩ := Event.delivered.inj he
      have hu : Usable beyond r₁ := ⟨hknown, by omega, h.even r₁ (by simp [hq])⟩
      rw [copyBuffer_apply hk]
      exact h.buffered (h.clean_of_read hq hr) hu hhit (hc.aligned hp r₁ q hq hhit) hk
    · exact absurd (heq ▸ he) (by simp)
    · exact absurd (heq ▸ he) (by simp)

/-- A read that has gone to the disk. -/
theorem Inv.delivered_disk {r₁ : Request} (h : Inv beyond s) (hp : s.pc = .flying) (hq : s.queue = r₁ :: q)
    {mem : Nat → Sector} (he : (s.rwInterrupt r₁).2 = .delivered r mem) {k : Nat} (hk : k < 2) :
    mem k = (s.rwInterrupt r₁).1.disk r.drive (r.cylinder beyond k) (r.place beyond k) := by
  obtain ⟨hu, hregs⟩ := h.flying hp hq
  have htrack : s.track (s.regs.index + k) = s.disk r₁.drive (r₁.cylinder beyond k) (r₁.place beyond k) := by
    unfold Driver.track
    rw [hregs, hu.place hk, hu.cylinder hk]
    rfl
  have hlt : s.regs.index + k < s.regs.floppy.sect * 2 := by
    rw [hregs]
    exact hu.index_lt hk
  unfold Driver.rwInterrupt at he ⊢
  split at he
  · rename_i hread
    obtain ⟨rfl, rfl⟩ := Event.delivered.inj he
    rw [if_pos hread, copyBuffer_apply hk, if_pos hlt]
    exact htrack
  · rename_i hread
    rw [if_neg hread]
    split at he
    · obtain ⟨rfl, rfl⟩ := Event.delivered.inj he
      rw [copyBuffer_apply hk]
      exact htrack
    · exact absurd he (by simp)

/-- **In a clear run every read that succeeds delivers what the disk holds**, and the buffer has what the disk has
    for every request it has the track of, but for a write under way. -/
theorem reads_of_clear (h : ClearRun beyond s) :
    (∀ s' r mem, Step beyond s (.delivered r mem) s' → Clear beyond s (.delivered r mem) →
        ∀ k < r.nrSectors, mem k = s'.disk r.drive (r.cylinder beyond k) (r.place beyond k)) ∧
      ∀ r, Usable beyond r → s.Hit (r.regs beyond) → (r.regs beyond).Aligned s.filled → s.patched = false →
        ∀ k < 2, s.trackBuffer ((r.regs beyond).index + k) =
          s.disk r.drive (r.cylinder beyond k) (r.place beyond k) := by
  refine ⟨fun s' r mem hs hc k hk => ?_, fun r hu hhit hal hclean k hk => h.inv.buffered hclean hu hhit hal hk⟩
  have hk2 : k < 2 := Nat.lt_of_lt_of_le hk (hc.short r mem rfl)
  generalize he : Event.delivered r mem = e at hs
  cases hs with
  | add hr hq => exact absurd he (by simp)
  | start hr hp hq => exact absurd he (by simp)
  | request hp => exact h.inv.delivered_buffer hp hc he.symm hk2
  | transfer hp hq => exact absurd he (by simp)
  | seekFails hp => exact absurd he.symm (badFlpIntr_event _ mem)
  | reset hp => exact absurd he (by simp)
  | good hp hq => exact h.inv.delivered_disk hp hq he.symm hk2
  | bad junk hp hq => exact absurd he.symm (badFlpIntr_event _ mem)
  | writeProtected junk hp hq hs => exact absurd he (by simp)
  | change d disk => exact absurd he (by simp)

end

/-! ## A write that fails -/

/-- Two drives with empty 1.2 MB disks. -/
def boot : Driver where
  disk _ _ _ _ := 0
  queue := []
  pc := .idle
  trackBuffer _ _ := 0
  bufferTrack := none
  bufferDrive := none
  readTrack := false
  regs := ⟨⟨0, 0, 0, 0⟩, 0, 0, 0, 0, .read⟩
  filled := 0
  patched := false

theorem boot_start : Start boot := ⟨rfl, rfl, rfl, rfl⟩

/-- The first block of drive 0, with format 2. -/
def readBlock : Request := ⟨8, .read, 0, 0, 2, fun _ _ => 0⟩

def writeBlock : Request := ⟨8, .write, 0, 0, 2, fun _ _ => 1⟩

/-- What lies behind `floppy_type`. -/
def nothing : Nat → Format := fun _ => ⟨0, 0, 0, 0⟩

/-- The driver goes through a request that nothing goes wrong with, or a write to a disk that is protected. -/
def transferred (s : Driver) (r : Request) : Driver :=
  (({ s with queue := [r], pc := .request }.doFdRequest nothing).1.setupDma r)

def afterRead : Driver := (((transferred boot readBlock).rwInterrupt readBlock).1.doFdRequest nothing).1

def afterWrite : Driver := ((transferred afterRead writeBlock).endRequest.doFdRequest nothing).1

def reading (s : Driver) : Driver := { s with queue := [readBlock], pc := .request }

theorem readBlock_new : readBlock.New := ⟨rfl, rfl, Or.inl rfl⟩

theorem writeBlock_new : writeBlock.New := ⟨rfl, rfl, Or.inl rfl⟩

/-- A step that ends no request, outside `do_fd_request`. -/
theorem Clear.quiet {beyond : Nat → Format} {s : Driver} (h : s.pc ≠ .request) : Clear beyond s .quiet :=
  ⟨fun hp => absurd hp h, fun hp => absurd hp h, fun _ _ he => absurd he (by simp), fun _ he => absurd he (by simp)⟩

theorem reading_clear : ClearRun nothing (transferred boot readBlock) := by
  have hstart : ClearRun nothing { boot with queue := [readBlock], pc := .request } :=
    .step (.start boot_start) (.start readBlock_new rfl rfl) (.quiet (by simp [boot]))
  refine .step (.step hstart (.request rfl) ⟨?_, ?_, ?_, ?_⟩) (.transfer rfl rfl)
    (.quiet (show Pc.starting ≠ Pc.request by simp))
  · rintro - r q hq
    obtain ⟨rfl, -⟩ := List.cons.inj hq
    decide
  · rintro - r q hq hhit
    exact absurd hhit.1 (by simp [boot])
  · exact fun _ _ he => absurd (show Event.quiet = _ from he) (by simp)
  · exact fun _ he => absurd (show Event.quiet = _ from he) (by simp)

theorem reads_of_clear_block : ∃ s' mem,
    Step nothing (transferred boot readBlock) (.delivered readBlock mem) s' ∧
      mem 1 = s'.disk readBlock.drive (readBlock.cylinder nothing 1) (readBlock.place nothing 1) := by
  refine ⟨_, _, .good rfl rfl, ?_⟩
  refine (reads_of_clear reading_clear).1 _ readBlock _ (.good rfl rfl) ⟨?_, ?_, ?_, ?_⟩ 1 (by decide)
  · exact fun hp => absurd (show Pc.flying = Pc.request from hp) (by simp)
  · exact fun hp => absurd (show Pc.flying = Pc.request from hp) (by simp)
  · rintro r mem he
    obtain ⟨rfl, -⟩ := Event.delivered.inj he
    decide
  · exact fun _ he => absurd he (by simp)

/-- Runs without conditions. -/
inductive Run (beyond : Nat → Format) : Driver → Prop
  | start {s : Driver} (h : Start s) : Run beyond s
  | step {s s' : Driver} {e : Event} (h : Run beyond s) (hs : Step beyond s e s') : Run beyond s'

theorem Run.transferred {s : Driver} {r : Request} (h : Run nothing s) (hr : r.New) (hp : s.pc = .idle)
    (hq : s.queue = []) (hpc : ({ s with queue := [r], pc := .request }.doFdRequest nothing).1.pc = .starting)
    (hqueue : ({ s with queue := [r], pc := .request }.doFdRequest nothing).1.queue = [r]) :
    Run nothing (transferred s r) :=
  .step (.step (.step h (.start hr hp hq)) (.request rfl)) (.transfer hpc hqueue)

theorem afterWrite_run : Run nothing (reading afterWrite) := by
  have hread : Run nothing afterRead :=
    .step (.step ((Run.start boot_start).transferred readBlock_new rfl rfl rfl rfl) (.good rfl rfl)) (.request rfl)
  have hwrite : Run nothing afterWrite :=
    .step (.step (hread.transferred writeBlock_new rfl rfl rfl rfl)
      (.writeProtected (fun _ _ => 0) rfl rfl (Or.inl rfl))) (.request rfl)
  exact .step hwrite (.start readBlock_new rfl rfl)

/-- A write to a protected disk fails, and the next read delivers what it did not write. -/
theorem failed_write_is_read : ∃ s s' mem, Run nothing s ∧ Step nothing s (.delivered readBlock mem) s' ∧
    mem 0 ≠ s'.disk readBlock.drive (readBlock.cylinder nothing 0) (readBlock.place nothing 0) := by
  refine ⟨reading afterWrite, _, _, afterWrite_run, .request rfl, fun h => ?_⟩
  exact absurd (congrFun h 0) (by decide)

end Floppy
end BlkDrv
end Linux095
