import Linux095.Fs.Buffer
import Mathlib.Logic.Relation

/-!
# `BlkDrv.Hd` — the hard disk driver (`hd.c`)

`do_hd_request` looks whether the current request lies in its partition, finds the place on the drive and gives the
controller a command. The interrupt routines count in the request what has been transferred, so that after an error
only the rest is tried again. What the controller answers is left open.

* `Disks` — geometries and partitions;
* `doHdRequest` — one turn of the function, without the ports;
* `Step` — the driver, from one port to the next;
* `turn_right_iff` — **when the turn is right**, for every request that the driver can come to.
-/

namespace Linux095
namespace BlkDrv
namespace Hd
open Fs Relation

def MAX_ERRORS : Nat := 7
def MAX_HD : Nat := 2

/-! ## Drives and partitions -/

/-- `struct hd_i_struct`, the geometry of a drive. -/
structure Geometry where
  head : BitVec 32
  sect : BitVec 32
  cyl : BitVec 32

/-- `struct hd_struct`, two `long`s. -/
structure Part where
  startSect : BitVec 32
  nrSects : BitVec 32

/-- `hd_info` and `hd`. Partitions lie inside their drive, and those of a drive that is not there are empty. -/
structure Disks where
  nrHd : Nat
  info : Nat → Geometry
  hd : Nat → Part
  nrHd_le : nrHd ≤ MAX_HD
  head_ne : ∀ i < nrHd, (info i).head ≠ 0
  sect_ne : ∀ i < nrHd, (info i).sect ≠ 0
  start_nonneg : ∀ m, (hd m).startSect.toNat < 2 ^ 31
  nr_nonneg : ∀ m, (hd m).nrSects.toNat < 2 ^ 31
  inside : ∀ m, m / 64 < nrHd → (hd m).startSect.toNat + (hd m).nrSects.toNat ≤
    (info (m / 64)).cyl.toNat * (info (m / 64)).head.toNat * (info (m / 64)).sect.toNat
  absent : ∀ m, nrHd ≤ m / 64 → (hd m).nrSects = 0

/-- `MINOR(dev)`. -/
def minor (dev : Int) : Nat := (dev % 256).toNat

/-! ## `do_hd_request` -/

/-- The arguments of `hd_out` for a transfer. -/
structure Command where
  drive : Nat
  nsect : Nat
  sec : BitVec 32
  head : BitVec 32
  cyl : BitVec 32
  cmd : Cmd

/-- What a turn of `do_hd_request` comes to. -/
inductive Turn where
  /-- `end_request(0)`, and on to the next request. -/
  | refuse
  /-- `reset_hd`. -/
  | reset
  /-- `WIN_RESTORE`. -/
  | restore
  | transfer (c : Command)

/-- `do_hd_request` for the request `r`, up to the ports. -/
def doHdRequest (d : Disks) (reset recalibrate : Bool) (r : Request) : Turn :=
  let dev := minor r.dev
  let block := r.sector
  if d.nrHd * 64 ≤ dev ∨ (d.hd dev).nrSects < block + 2 then .refuse
  else
    let block := block + (d.hd dev).startSect
    let dev := dev / 64
    let sec := block % (d.info dev).sect
    let block := block / (d.info dev).sect
    let head := block % (d.info dev).head
    let cyl := block / (d.info dev).head
    if reset then .reset
    else if recalibrate then .restore
    else .transfer ⟨dev, r.nrSectors, sec + 1, head, cyl, r.cmd⟩

/-! ## The driver -/

/-- `do_hd`. -/
inductive Handler where
  | readIntr
  | writeIntr
  | recalIntr
  | resetHd

/-- Where the driver is. -/
inductive Pc where
  /-- Outside; an interrupt or a request may come. -/
  | idle
  /-- At `repeat` of `do_hd_request`. -/
  | request
  /-- At `repeat` of `reset_hd`. -/
  | resetHd
  /-- `panic`. -/
  | stopped

/-- The driver: its queue from `CURRENT` on, `reset`, `recalibrate`, `do_hd`, the `i` of `reset_hd`. -/
structure Driver where
  queue : List Request
  reset : Bool
  recalibrate : Bool
  intr : Option Handler
  i : Nat
  pc : Pc

namespace Driver

/-- `bad_rw_intr`. The second test is of the next request, and of no request at all, `low`, where there is none. -/
def badRwIntr (s : Driver) (low : Bool) : Driver :=
  match s.queue with
  | [] => { s with reset := s.reset || low }
  | r :: q =>
      let r := { r with errors := r.errors + 1 }
      if r.errors < MAX_ERRORS then { s with queue := r :: q, reset := s.reset || decide (MAX_ERRORS / 2 < r.errors) }
      else
        { s with
          queue := q
          reset := s.reset || match q with
            | [] => low
            | r' :: _ => decide (MAX_ERRORS / 2 < r'.errors) }

/-- `read_intr`, when the controller has no error to tell. -/
def readIntr (s : Driver) : Driver :=
  match s.queue with
  | [] => { s with pc := .request }
  | r :: q =>
      let r := { r with errors := 0, buffer := r.buffer + 512, sector := r.sector + 1, nrSectors := r.nrSectors - 1 }
      if r.nrSectors ≠ 0 then { s with queue := r :: q, intr := some .readIntr }
      else { s with queue := q, pc := .request }

/-- `write_intr`. -/
def writeIntr (s : Driver) : Driver :=
  match s.queue with
  | [] => { s with pc := .request }
  | r :: q =>
      let r := { r with nrSectors := r.nrSectors - 1 }
      if r.nrSectors ≠ 0 then
        { s with
          queue := { r with sector := r.sector + 1, buffer := r.buffer + 512 } :: q
          intr := some .writeIntr }
      else { s with queue := q, pc := .request }

/-- `hd_out`, up to the ports. -/
def hdOut (s : Driver) (drive head : Nat) (ready : Bool) (intr : Handler) : Driver :=
  if 1 < drive ∨ 15 < head then { s with pc := .stopped }
  else if s.reset || !ready then { s with reset := true }
  else { s with intr := some intr, pc := .idle }

/-- The controller is reset, or has been told about drive `i`; `bad` is what `win_result` says. -/
def resetDone (s : Driver) (bad low : Bool) : Driver :=
  if s.reset then { s with reset := false, i := 0 }
  else
    let s' := if bad then s.badRwIntr low else s
    if s'.reset then s' else { s' with i := s.i + 1 }

/-- One turn of `reset_hd`. -/
def resetHd (d : Disks) (s : Driver) (bad low ready : Bool) : Driver :=
  let s' := s.resetDone bad low
  if s'.reset then s'
  else if s'.i < d.nrHd then s'.hdOut s'.i ((d.info s'.i).head.toNat - 1) ready .resetHd
  else { s' with pc := .request }

/-- One turn of `do_hd_request`. -/
def request (d : Disks) (s : Driver) (ready drq low : Bool) : Driver :=
  match s.queue with
  | [] => { s with intr := none, pc := .idle }
  | r :: q =>
      match doHdRequest d s.reset s.recalibrate r with
      | .refuse => { s with queue := q }
      | .reset => { s with recalibrate := true, pc := .resetHd }
      | .restore => { s with recalibrate := false }.hdOut (minor r.dev / 64) 0 ready .recalIntr
      | .transfer c =>
          match c.cmd with
          | .read => s.hdOut c.drive c.head.toNat ready .readIntr
          | .write =>
              let s' := s.hdOut c.drive c.head.toNat ready .writeIntr
              -- the controller has the command and asks for the first sector, or it does not
              match s'.pc with
              | .idle => if drq then s' else { s'.badRwIntr low with pc := .request }
              | _ => s'

/-- `hd_interrupt`: `do_hd` is called once. -/
def interrupt (s : Driver) (bad low : Bool) : Driver :=
  let s' := { s with intr := none }
  match s.intr with
  | none => { s' with reset := true, pc := .request }
  | some .readIntr => if bad then { s'.badRwIntr low with pc := .request } else s'.readIntr
  | some .writeIntr => if bad then { s'.badRwIntr low with pc := .request } else s'.writeIntr
  | some .recalIntr => { (if bad then s'.badRwIntr low else s') with pc := .request }
  | some .resetHd => { s' with pc := .resetHd }

/-- `hd_times_out`. -/
def timesOut (s : Driver) : Driver :=
  match s.queue with
  | [] => s
  | r :: q =>
      let r := { r with errors := r.errors + 1 }
      { s with
        queue := if r.errors < MAX_ERRORS then r :: q else q
        intr := none
        reset := true
        pc := .request }

end Driver

/-- What `make_request` and `ll_rw_page` fill in. -/
def New (r : Request) : Prop := r.errors = 0 ∧ (r.nrSectors = 2 ∨ r.nrSectors = 8)

/-- One step. A new request goes anywhere behind the current one. -/
inductive Step (d : Disks) : Driver → Driver → Prop
  | add {s : Driver} {r active : Request} {q₁ q₂ : List Request} (hp : s.pc = .idle) (hr : New r)
      (hq : s.queue = active :: (q₁ ++ q₂)) : Step d s { s with queue := active :: (q₁ ++ r :: q₂) }
  | start {s : Driver} {r : Request} (hp : s.pc = .idle) (hr : New r) (hq : s.queue = []) :
      Step d s { s with queue := [r], pc := .request }
  | request {s : Driver} (ready drq low : Bool) (hp : s.pc = .request) : Step d s (s.request d ready drq low)
  | resetHd {s : Driver} (bad low ready : Bool) (hp : s.pc = .resetHd) : Step d s (s.resetHd d bad low ready)
  | interrupt {s : Driver} (bad low : Bool) (hp : s.pc = .idle) : Step d s (s.interrupt bad low)
  | timesOut {s : Driver} (hp : s.pc = .idle) : Step d s s.timesOut

/-- The driver before the first request. -/
def boot : Driver := ⟨[], false, false, none, 0, .idle⟩

def Reach (d : Disks) (s : Driver) : Prop := ReflTransGen (Step d) boot s

/-! ## What the queue holds -/

/-- What is left of a request when some of its sectors have been transferred. -/
def Rest (r : Request) : Prop :=
  ∃ r₀ : Request, ∃ k < r₀.nrSectors, New r₀ ∧ r.dev = r₀.dev ∧ r.cmd = r₀.cmd ∧
    r.sector = r₀.sector + BitVec.ofNat 32 k ∧ r.nrSectors = r₀.nrSectors - k

theorem Rest.nrSectors_pos {r : Request} (h : Rest r) : 0 < r.nrSectors := by
  obtain ⟨r₀, k, hk, -, -, -, -, hn⟩ := h
  omega

theorem New.rest {r : Request} (h : New r) : Rest r := by
  refine ⟨r, 0, ?_, h, rfl, rfl, by simp, rfl⟩
  rcases h.2 with hn | hn <;> omega

/-- The number of errors and the buffer do not matter. -/
theorem Rest.congr {r r' : Request} (h : Rest r) (hdev : r'.dev = r.dev) (hcmd : r'.cmd = r.cmd)
    (hsector : r'.sector = r.sector) (hnr : r'.nrSectors = r.nrSectors) : Rest r' := by
  obtain ⟨r₀, k, hk, hnew, hd, hc, hs, hn⟩ := h
  exact ⟨r₀, k, hk, hnew, hdev.trans hd, hcmd.trans hc, hsector.trans hs, hnr.trans hn⟩

/-- One more sector is transferred, and it was not the last. -/
theorem Rest.next {r r' : Request} (h : Rest r) (hdev : r'.dev = r.dev) (hcmd : r'.cmd = r.cmd)
    (hsector : r'.sector = r.sector + 1) (hnr : r'.nrSectors = r.nrSectors - 1) (hne : r'.nrSectors ≠ 0) :
    Rest r' := by
  obtain ⟨r₀, k, hk, hnew, hd, hc, hs, hn⟩ := h
  refine ⟨r₀, k + 1, by omega, hnew, hdev.trans hd, hcmd.trans hc, ?_, by omega⟩
  rw [hsector, hs, BitVec.ofNat_add, BitVec.add_assoc]
  rfl

namespace Driver

def Rests (s : Driver) : Prop := ∀ r ∈ s.queue, Rest r

variable {s : Driver}

theorem Rests.badRwIntr (h : s.Rests) (low : Bool) : (s.badRwIntr low).Rests := by
  unfold Driver.badRwIntr
  split
  · exact h
  · rename_i r q hq
    have hr := h r (by simp [hq])
    have hrest : ∀ x ∈ q, Rest x := fun x hx => h x (by simp [hq, hx])
    simp only
    split
    · intro x hx
      rcases List.mem_cons.1 hx with rfl | hx
      · exact hr.congr rfl rfl rfl rfl
      · exact hrest x hx
    · exact hrest

theorem Rests.readIntr (h : s.Rests) : s.readIntr.Rests := by
  unfold Driver.readIntr
  split
  · exact h
  · rename_i r q hq
    have hr := h r (by simp [hq])
    have hrest : ∀ x ∈ q, Rest x := fun x hx => h x (by simp [hq, hx])
    simp only
    split
    · rename_i hne
      intro x hx
      rcases List.mem_cons.1 hx with rfl | hx
      · exact hr.next rfl rfl rfl rfl hne
      · exact hrest x hx
    · exact hrest

theorem Rests.writeIntr (h : s.Rests) : s.writeIntr.Rests := by
  unfold Driver.writeIntr
  split
  · exact h
  · rename_i r q hq
    have hr := h r (by simp [hq])
    have hrest : ∀ x ∈ q, Rest x := fun x hx => h x (by simp [hq, hx])
    simp only
    split
    · rename_i hne
      intro x hx
      rcases List.mem_cons.1 hx with rfl | hx
      · exact hr.next rfl rfl rfl rfl hne
      · exact hrest x hx
    · exact hrest

theorem queue_hdOut (drive head : Nat) (ready : Bool) (intr : Handler) :
    (s.hdOut drive head ready intr).queue = s.queue := by
  unfold hdOut
  split
  · rfl
  · split <;> rfl

theorem Rests.hdOut (h : s.Rests) (drive head : Nat) (ready : Bool) (intr : Handler) :
    (s.hdOut drive head ready intr).Rests := by
  unfold Rests
  rw [queue_hdOut]
  exact h

theorem Rests.request (d : Disks) (h : s.Rests) (ready drq low : Bool) : (s.request d ready drq low).Rests := by
  unfold Driver.request
  split
  · exact h
  · rename_i r q hq
    split
    · exact fun x hx => h x (by simp [hq, show x ∈ q from hx])
    · exact h
    · exact Rests.hdOut (s := { s with recalibrate := false }) h _ _ _ _
    · split
      · exact h.hdOut _ _ _ _
      · rename_i c _ _ _
        have hout := h.hdOut c.drive c.head.toNat ready .writeIntr
        simp only
        split
        · split
          · exact hout
          · exact hout.badRwIntr low
        · exact hout

theorem Rests.resetDone (h : s.Rests) (bad low : Bool) : (s.resetDone bad low).Rests := by
  have hbad : (if bad then s.badRwIntr low else s).Rests := by
    split
    · exact h.badRwIntr low
    · exact h
  unfold Driver.resetDone
  split
  · exact h
  · simp only
    generalize (if bad then s.badRwIntr low else s) = s' at hbad ⊢
    split
    · exact hbad
    · exact hbad

theorem Rests.resetHd (d : Disks) (h : s.Rests) (bad low ready : Bool) : (s.resetHd d bad low ready).Rests := by
  have hdone := h.resetDone bad low
  unfold Driver.resetHd
  simp only
  generalize s.resetDone bad low = s' at hdone ⊢
  split
  · exact hdone
  · split
    · exact hdone.hdOut _ _ _ _
    · exact hdone

theorem Rests.interrupt (h : s.Rests) (bad low : Bool) : (s.interrupt bad low).Rests := by
  have h' : Rests { s with intr := none } := h
  unfold Driver.interrupt
  simp only
  split
  · exact h
  · split
    · exact h'.badRwIntr low
    · exact h'.readIntr
  · split
    · exact h'.badRwIntr low
    · exact h'.writeIntr
  · split
    · exact h'.badRwIntr low
    · exact h'
  · exact h'

theorem Rests.timesOut (h : s.Rests) : s.timesOut.Rests := by
  unfold Driver.timesOut
  split
  · exact h
  · rename_i r q hq
    have hr := h r (by simp [hq])
    have hrest : ∀ x ∈ q, Rest x := fun x hx => h x (by simp [hq, hx])
    intro x hx
    simp only at hx
    split at hx
    · rcases List.mem_cons.1 hx with rfl | hx
      · exact hr.congr rfl rfl rfl rfl
      · exact hrest x hx
    · exact hrest x hx

theorem Rests.step {d : Disks} {s' : Driver} (h : s.Rests) (hs : Step d s s') : s'.Rests := by
  cases hs with
  | add hp hr hq =>
    intro x hx
    rcases List.mem_cons.1 hx with rfl | hx
    · exact h x (by simp [hq])
    · rcases List.mem_append.1 hx with hx | hx
      · exact h x (by simp [hq, hx])
      · rcases List.mem_cons.1 hx with rfl | hx
        · exact hr.rest
        · exact h x (by simp [hq, hx])
  | start hp hr hq =>
    intro x hx
    obtain rfl := List.mem_singleton.1 hx
    exact hr.rest
  | request ready drq low hp => exact h.request d ready drq low
  | resetHd bad low ready hp => exact h.resetHd d bad low ready
  | interrupt bad low hp => exact h.interrupt bad low
  | timesOut hp => exact h.timesOut

end Driver

theorem Reach.rests {d : Disks} {s : Driver} (h : Reach d s) : s.Rests := by
  induction h with
  | refl => exact fun r hr => absurd hr List.not_mem_nil
  | tail _ hs ih => exact ih.step hs

/-! ## Where a request lies -/

section Place

variable (d : Disks) (r : Request)

/-- The partition of the request. -/
def part : Part := d.hd (minor r.dev)

/-- The drive of the request. -/
def geometry : Geometry := d.info (minor r.dev / 64)

/-- All sectors of the request lie in the partition. -/
def Inside : Prop := r.sector.toNat + r.nrSectors ≤ (part d r).nrSects.toNat

/-- The command is for the first sector of the request. -/
structure Located (c : Command) : Prop where
  drive : c.drive = minor r.dev / 64
  nsect : c.nsect = r.nrSectors
  cmd : c.cmd = r.cmd
  head_lt : c.head.toNat < (geometry d r).head.toNat
  one_le_sec : 1 ≤ c.sec.toNat
  sec_le : c.sec.toNat ≤ (geometry d r).sect.toNat
  sector : (c.cyl.toNat * (geometry d r).head.toNat + c.head.toNat) * (geometry d r).sect.toNat + c.sec.toNat - 1 =
    (part d r).startSect.toNat + r.sector.toNat

/-- **What is expected of a turn** when the controller has not to be reset first: a command for a request inside its
    partition and for no other, which `hd_out` takes, and for the right sector. -/
structure TurnRight : Prop where
  only : ∀ c, doHdRequest d false false r = .transfer c → Inside d r
  every : Inside d r → ∃ c, doHdRequest d false false r = .transfer c ∧ c.drive ≤ 1 ∧ c.head.toNat ≤ 15
  located : ∀ c, doHdRequest d false false r = .transfer c → Located d r c

/-- Where the test of two sectors is the test of all of them, and the head is one that `hd_out` takes. -/
structure Fits : Prop where
  long : r.sector.toNat + 2 ≤ (part d r).nrSects.toNat → r.sector.toNat + r.nrSectors ≤ (part d r).nrSects.toNat
  last : r.nrSectors = 1 → r.sector.toNat + 1 ≠ (part d r).nrSects.toNat
  wrap : minor r.dev / 64 < d.nrHd → 2 ^ 32 ≤ r.sector.toNat + 2 →
    (part d r).nrSects.toNat < r.sector.toNat + 2 - 2 ^ 32
  head : Inside d r → ((part d r).startSect.toNat + r.sector.toNat) / (geometry d r).sect.toNat %
    (geometry d r).head.toNat ≤ 15

end Place

variable {d : Disks} {r : Request}

/-- The test of `do_hd_request`. -/
def Accepted (d : Disks) (r : Request) : Prop := minor r.dev / 64 < d.nrHd ∧ ¬ (part d r).nrSects < r.sector + 2

instance : Decidable (Accepted d r) := inferInstanceAs (Decidable (_ ∧ _))

/-- The command that a request gets. -/
def command (d : Disks) (r : Request) : Command :=
  let block := r.sector + (part d r).startSect
  ⟨minor r.dev / 64, r.nrSectors, block % (geometry d r).sect + 1,
    block / (geometry d r).sect % (geometry d r).head, block / (geometry d r).sect / (geometry d r).head, r.cmd⟩

theorem doHdRequest_eq (reset recalibrate : Bool) : doHdRequest d reset recalibrate r =
    if ¬ Accepted d r then .refuse
    else if reset then .reset
    else if recalibrate then .restore
    else .transfer (command d r) := by
  have htest : (d.nrHd * 64 ≤ minor r.dev ∨ (d.hd (minor r.dev)).nrSects < r.sector + 2) ↔ ¬ Accepted d r := by
    unfold Accepted part
    rw [not_and_or, not_not]
    refine or_congr ?_ Iff.rfl
    omega
  unfold doHdRequest
  simp only [htest]
  rfl

theorem transfer_iff {c : Command} :
    doHdRequest d false false r = .transfer c ↔ Accepted d r ∧ command d r = c := by
  rw [doHdRequest_eq]
  by_cases h : Accepted d r
  · simp [h]
  · simp [h]

/-- A partition with a sector is on a drive that is there. -/
theorem drive_lt (h : 0 < (part d r).nrSects.toNat) : minor r.dev / 64 < d.nrHd := by
  by_contra hge
  have habsent := d.absent (minor r.dev) (by omega)
  unfold part at h
  rw [habsent] at h
  exact Nat.lt_irrefl 0 h

theorem Inside.drive (h : Inside d r) (hpos : 0 < r.nrSectors) : minor r.dev / 64 < d.nrHd := by
  unfold Inside at h
  exact drive_lt (by omega)

/-- The unsigned test, in exact integers. -/
theorem accepted_iff : Accepted d r ↔
    minor r.dev / 64 < d.nrHd ∧ (r.sector.toNat + 2 ≤ (part d r).nrSects.toNat ∨
      2 ^ 32 ≤ r.sector.toNat + 2 ∧ r.sector.toNat + 2 - 2 ^ 32 ≤ (part d r).nrSects.toNat) := by
  have hs := r.sector.isLt
  have hn := d.nr_nonneg (minor r.dev)
  unfold Accepted part
  rw [BitVec.lt_def, BitVec.toNat_add, show (2 : BitVec 32).toNat = 2 from rfl]
  refine and_congr_right fun _ => ?_
  rw [Nat.not_lt]
  omega

/-- The number of the first sector on the drive does not wrap. -/
theorem Inside.block (h : Inside d r) (hpos : 0 < r.nrSectors) :
    (r.sector + (part d r).startSect).toNat = (part d r).startSect.toNat + r.sector.toNat := by
  have hstart : (part d r).startSect.toNat < 2 ^ 31 := d.start_nonneg _
  have hnr : (part d r).nrSects.toNat < 2 ^ 31 := d.nr_nonneg _
  unfold Inside at h
  rw [BitVec.toNat_add, Nat.mod_eq_of_lt (by omega), Nat.add_comm]

theorem Inside.head (h : Inside d r) (hpos : 0 < r.nrSectors) : (command d r).head.toNat =
    ((part d r).startSect.toNat + r.sector.toNat) / (geometry d r).sect.toNat % (geometry d r).head.toNat := by
  unfold command
  rw [BitVec.toNat_umod, BitVec.toNat_udiv, h.block hpos]

/-- A request inside its partition is looked for in the right place. -/
theorem Inside.located (h : Inside d r) (hpos : 0 < r.nrSectors) : Located d r (command d r) := by
  have hdrive := h.drive hpos
  have hsect : 0 < (geometry d r).sect.toNat :=
    Nat.pos_of_ne_zero fun h0 => d.sect_ne _ hdrive (BitVec.eq_of_toNat_eq h0)
  have hhead : 0 < (geometry d r).head.toNat :=
    Nat.pos_of_ne_zero fun h0 => d.head_ne _ hdrive (BitVec.eq_of_toNat_eq h0)
  have hmod := Nat.mod_lt ((part d r).startSect.toNat + r.sector.toNat) hsect
  have hlt := (geometry d r).sect.isLt
  have hsec : (command d r).sec.toNat =
      ((part d r).startSect.toNat + r.sector.toNat) % (geometry d r).sect.toNat + 1 := by
    have hone : (1 : BitVec 32).toNat = 1 := rfl
    unfold command
    rw [BitVec.toNat_add, BitVec.toNat_umod, h.block hpos, hone]
    exact Nat.mod_eq_of_lt (by omega)
  have hcyl : (command d r).cyl.toNat =
      ((part d r).startSect.toNat + r.sector.toNat) / (geometry d r).sect.toNat / (geometry d r).head.toNat := by
    unfold command
    rw [BitVec.toNat_udiv, BitVec.toNat_udiv, h.block hpos]
  refine ⟨rfl, rfl, rfl, ?_, ?_, ?_, ?_⟩
  · rw [h.head hpos]
    exact Nat.mod_lt _ hhead
  · omega
  · omega
  · rw [hcyl, h.head hpos, hsec, ← Nat.add_assoc, Nat.add_sub_cancel, Nat.mul_comm _ (geometry d r).head.toNat,
      Nat.div_add_mod, Nat.mul_comm, Nat.div_add_mod]

theorem TurnRight.fits (h : TurnRight d r) (hpos : 0 < r.nrSectors) : Fits d r := by
  have hinside : Accepted d r → Inside d r := fun ha => h.only _ (transfer_iff.2 ⟨ha, rfl⟩)
  have haccepted : Inside d r → Accepted d r ∧ (command d r).head.toNat ≤ 15 := by
    intro hi
    obtain ⟨c, hc, -, hhead⟩ := h.every hi
    obtain ⟨ha, rfl⟩ := transfer_iff.1 hc
    exact ⟨ha, hhead⟩
  have hnr : (part d r).nrSects.toNat < 2 ^ 31 := d.nr_nonneg _
  refine ⟨fun hle => ?_, fun hone hlast => ?_, fun hdrive hwrap => ?_, fun hi => ?_⟩
  · exact hinside (accepted_iff.2 ⟨drive_lt (by omega), Or.inl hle⟩)
  · have hi : Inside d r := by
      unfold Inside
      omega
    have htest := (accepted_iff.1 (haccepted hi).1).2
    omega
  · by_contra hge
    have hi : Inside d r := hinside (accepted_iff.2 ⟨hdrive, Or.inr ⟨hwrap, Nat.not_lt.1 hge⟩⟩)
    unfold Inside at hi
    omega
  · rw [← hi.head hpos]
    exact (haccepted hi).2

theorem Fits.turnRight (h : Fits d r) (hpos : 0 < r.nrSectors) : TurnRight d r := by
  have hinside : Accepted d r → Inside d r := by
    intro ha
    obtain ⟨hdrive, hle | ⟨hwrap, hle⟩⟩ := accepted_iff.1 ha
    · exact h.long hle
    · exact absurd (h.wrap hdrive hwrap) (Nat.not_lt.2 hle)
  refine ⟨fun c hc => hinside (transfer_iff.1 hc).1, fun hi => ?_, fun c hc => ?_⟩
  · have hdrive := hi.drive hpos
    have hmax := d.nrHd_le
    have hle : r.sector.toNat + 2 ≤ (part d r).nrSects.toNat := by
      have hlast := h.last
      unfold Inside at hi
      omega
    refine ⟨command d r, transfer_iff.2 ⟨accepted_iff.2 ⟨hdrive, Or.inl hle⟩, rfl⟩, ?_, ?_⟩
    · exact Nat.le_of_lt_succ (Nat.lt_of_lt_of_le hdrive hmax)
    · rw [hi.head hpos]
      exact h.head hi
  · obtain ⟨ha, rfl⟩ := transfer_iff.1 hc
    exact (hinside ha).located hpos

/-- **The turn is right exactly where the test of two sectors is the test of all of them**, for every request that the
    driver comes to, new or with some of its sectors transferred. A turn that has to reset the controller or to
    recalibrate the drive first refuses no other request, and transfers none. -/
theorem turn_right_iff {s : Driver} (h : Reach d s) {q : List Request} (hq : s.queue = r :: q) :
    (TurnRight d r ↔ Fits d r) ∧
      (doHdRequest d s.reset s.recalibrate r = .refuse ↔ doHdRequest d false false r = .refuse) ∧
      ∀ c, doHdRequest d s.reset s.recalibrate r = .transfer c →
        doHdRequest d false false r = .transfer c ∧ s.reset = false ∧ s.recalibrate = false := by
  have hpos : 0 < r.nrSectors := (h.rests r (by simp [hq])).nrSectors_pos
  refine ⟨⟨fun hr => hr.fits hpos, fun hf => hf.turnRight hpos⟩, ?_, fun c => ?_⟩
  · rw [doHdRequest_eq, doHdRequest_eq]
    by_cases ha : Accepted d r <;> cases s.reset <;> cases s.recalibrate <;> simp [ha]
  · rw [doHdRequest_eq, doHdRequest_eq]
    by_cases ha : Accepted d r <;> cases s.reset <;> cases s.recalibrate <;> simp [ha]

/-- A drive of 615 cylinders, 4 heads and 17 sectors, with a partition of 100 sectors and another behind it. -/
def twoParts : Disks where
  nrHd := 1
  info _ := ⟨4, 17, 615⟩
  hd m := if m = 1 then ⟨17, 100⟩ else if m = 2 then ⟨117, 41000⟩ else if m = 0 then ⟨0, 41820⟩ else ⟨0, 0⟩
  nrHd_le := by decide
  head_ne _ _ := by decide
  sect_ne _ _ := by decide
  start_nonneg m := by
    split
    · decide
    · split
      · decide
      · split <;> decide
  nr_nonneg m := by
    split
    · decide
    · split
      · decide
      · split <;> decide
  inside m _ := by
    split
    · decide
    · split
      · decide
      · split <;> decide
  absent m hm := by
    rw [if_neg (by omega), if_neg (by omega), if_neg (by omega)]

/-- `ll_rw_page` for a page of the first partition. -/
def pageRequest (page : BitVec 32) : Request := ⟨0x301, .write, 0, page <<< 3, 8, 0, none, none⟩

theorem reach_start (d : Disks) {r : Request} (hr : New r) : Reach d ⟨[r], false, false, none, 0, .request⟩ :=
  .single (.start (s := boot) rfl hr rfl)

theorem turn_right_iff_page :
    (TurnRight twoParts (pageRequest 3) ↔ Fits twoParts (pageRequest 3)) ∧
      (doHdRequest twoParts false false (pageRequest 3) = .refuse ↔
        doHdRequest twoParts false false (pageRequest 3) = .refuse) ∧
      ∀ c, doHdRequest twoParts false false (pageRequest 3) = .transfer c →
        doHdRequest twoParts false false (pageRequest 3) = .transfer c ∧ false = false ∧ false = false :=
  turn_right_iff (reach_start twoParts (r := pageRequest 3) ⟨rfl, Or.inr rfl⟩) rfl

/-- Page 12 begins in the first partition, and its last four sectors are in the next. -/
theorem turn_beyond_partition :
    Reach twoParts ⟨[pageRequest 12], false, false, none, 0, .request⟩ ∧
      ¬ Inside twoParts (pageRequest 12) ∧
      ∃ c, doHdRequest twoParts false false (pageRequest 12) = .transfer c := by
  refine ⟨reach_start twoParts ⟨rfl, Or.inr rfl⟩, ?_, ?_⟩
  · unfold Inside
    decide
  · exact ⟨command twoParts (pageRequest 12), transfer_iff.2 ⟨by decide, rfl⟩⟩

end Hd
end BlkDrv
end Linux095
