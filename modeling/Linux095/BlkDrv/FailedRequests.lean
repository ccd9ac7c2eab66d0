import Linux095.BlkDrv.Hd
import Linux095.BlkDrv.RequestQueue
import Linux095.Seq.Program

/-!
# `BlkDrv.FailedRequests` — what becomes of a request that fails (`blk.h`, `hd.c`, `floppy.c`)

The error routines of the hard disk and of the floppy count an error in `CURRENT`, and give the request up after too
many of them with `end_request(0)`, which moves `CURRENT` on. A swap request has no buffer head, and the last request
leaves no `CURRENT` behind.

* `endRequest`, `badRwIntr`, `badFlpIntr`, `hdTimesOut` — the source's functions, which stop where they read through
  a null pointer;
* `Failed` — **what should become of the request**: it is completed, once, or tried again, and no other is touched;
* `failed_requests_iff` — when that is so: a request that is given up must have a buffer head, and in two of the
  routines another request behind it;
* `badRwIntr_driver` — the driver of `BlkDrv.Hd` does the same with its queue.
-/

namespace Linux095
namespace BlkDrv
namespace FailedRequests
open Fs Seq Prog Links

/-! ## The state -/

inductive Driver where
  | hd
  | floppy
  deriving DecidableEq

/-- `MAJOR_NR`. -/
def Driver.major : Driver → Nat
  | .hd => 3
  | .floppy => 2

/-- `MAX_ERRORS` of `floppy.c`. -/
def FLOPPY_MAX_ERRORS : Nat := 12

/-- What `floppy_off` sets a motor's timer to. -/
def MOTOR_TICKS : Nat := 300

/-- What processes wait for. -/
inductive Wait where
  /-- `b_wait` of a buffer. -/
  | buffer (b : Nat)
  /-- `waiting` of a request. -/
  | request (r : Nat)
  /-- `wait_for_request`. -/
  | slot
  /-- `wait_on_floppy_select`. -/
  | select
  deriving DecidableEq

/-- The tables, the queues that have been woken up, and the variables of the drivers. -/
structure State where
  k : Kernel
  woken : List Wait
  reset : Bool
  /-- `do_hd`. -/
  intr : Option Hd.Handler
  /-- The entry of `HD_TIMER` in `timer_table`, when it is active, and `jiffies`. -/
  timer : Option Nat
  jiffies : Nat
  currentTrack : Int
  selected : Bool
  moffTimer : Nat → Nat

/-- Why a routine goes wrong: it reads through a null pointer. -/
inductive Off where
  | nullCurrent
  | nullBh
  deriving DecidableEq

abbrev Call (α : Type) : Type := Prog State Off α

/-- `CURRENT`. -/
def State.current (s : State) (d : Driver) : Option Nat := (s.k.blkDev d.major).currentRequest

def State.request (s : State) (r : Nat) : Request := s.k.request r

/-- `CURRENT`, to read through. -/
def current (d : Driver) : Call Nat := fun s =>
  match s.current d with
  | none => .error .nullCurrent
  | some r => .ok (r, s)

/-- `CURRENT->bh`, to read through. -/
def currentBh (d : Driver) : Call Nat := do
  let r ← current d
  fun s => match (s.request r).bh with
    | none => .error .nullBh
    | some b => .ok (b, s)

def wakeUp (w : Wait) : Call Unit := .modify fun s => { s with woken := s.woken ++ [w] }

def changeRequest (r : Nat) (f : Request → Request) : Call Unit := .modify fun s => { s with k := setRequest s.k r f }

/-! ## `end_request` -/

/-- `DEVICE_OFF(CURRENT->dev)`. -/
def deviceOff : Driver → Call Unit
  | .hd => return
  | .floppy => do
      let r ← current .floppy
      .modify fun s => { s with
        moffTimer := fun n => if n = ((s.request r).dev % 4).toNat then MOTOR_TICKS else s.moffTimer n }

/-- `CURRENT->bh->b_uptodate = uptodate` and `unlock_buffer`. -/
def unlockBuffer (uptodate : Bool) : Option Nat → Call Unit
  | none => return
  | some b => do
      .modify fun s => { s with k := (s.k.setUptodate b uptodate).setLock b false }
      wakeUp (.buffer b)

/-- The message, with the block of the buffer head. -/
def complain (d : Driver) (uptodate : Bool) : Call Unit :=
  if uptodate then return
  else do
    let _ ← currentBh d
    return

/-- `end_request`. -/
def endRequest (d : Driver) (uptodate : Bool) : Call Unit := do
  deviceOff d
  let r ← current d
  let bh ← .reads fun s => (s.request r).bh
  unlockBuffer uptodate bh
  complain d uptodate
  wakeUp (.request r)
  wakeUp .slot
  changeRequest r fun q => { q with dev := -1 }
  .modify fun s => { s with k := setCurrentRequest s.k d.major (s.request r).next }

/-! ## The error routines -/

/-- `CURRENT->errors++`, and its value then. -/
def countError (d : Driver) : Call Nat := do
  let r ← current d
  changeRequest r fun q => { q with errors := q.errors + 1 }
  .reads fun s => (s.request r).errors

/-- `if (enough) end;` -/
def giveUp (enough : Prop) [Decidable enough] (end_ : Call Unit) : Call Unit := if enough then end_ else return

/-- `if (CURRENT->errors > max/2) reset = 1`. -/
def resetAfter (d : Driver) (max : Nat) : Call Unit := do
  let r ← current d
  .modify fun s => { s with reset := s.reset || decide (max / 2 < (s.request r).errors) }

/-- `bad_rw_intr`. -/
def badRwIntr : Call Unit := do
  let errors ← countError .hd
  giveUp (Hd.MAX_ERRORS ≤ errors) (endRequest .hd false)
  resetAfter .hd Hd.MAX_ERRORS

/-- `floppy_deselect`. -/
def floppyDeselect : Call Unit := do
  .modify fun s => { s with selected := false }
  wakeUp .select

/-- `floppy_deselect(current_drive)` and `end_request(0)`. -/
def giveUpFloppy : Call Unit := do
  floppyDeselect
  endRequest .floppy false

/-- `bad_flp_intr`. -/
def badFlpIntr : Call Unit := do
  .modify fun s => { s with currentTrack := -1 }
  let errors ← countError .floppy
  giveUp (FLOPPY_MAX_ERRORS < errors) giveUpFloppy
  resetAfter .floppy FLOPPY_MAX_ERRORS

/-- `SET_INTR(NULL)` and `reset = 1`. -/
def State.timedOut (s : State) : State :=
  { s with
    intr := none
    timer := some (s.jiffies + 200)
    reset := true }

/-- `hd_times_out`, and whether it goes on to `do_hd_request`, which begins by looking at `CURRENT`. -/
def hdTimesOut : Call Bool := do
  let cur ← .reads fun s => s.current .hd
  match cur with
  | none => return false
  | some _ =>
      let errors ← countError .hd
      giveUp (Hd.MAX_ERRORS ≤ errors) (endRequest .hd false)
      .modify State.timedOut
      return true

/-! ## What should become of the request -/

/-- The request `r` has been completed, once, with as many errors as there were, or one more. -/
structure Completed (d : Driver) (r errors : Nat) (s s' : State) : Prop where
  current : s'.current d = (s.request r).next
  slot : s'.request r = { s.request r with dev := -1, errors := errors }
  others : ∀ x, x ≠ r → s'.request x = s.request x
  buffer : ∀ b, (s.request r).bh = some b → (s'.k.bh b).bLock = false ∧ (s'.k.bh b).bUptodate = false
  otherBuffers : ∀ b, (s.request r).bh ≠ some b → s'.k.bh b = s.k.bh b
  woken : s'.woken.count (.request r) = s.woken.count (.request r) + 1
  othersWoken : ∀ x, x ≠ r → s'.woken.count (.request x) = s.woken.count (.request x)

/-- The request `r` is to be tried again: it has one error more. -/
structure Charged (d : Driver) (r : Nat) (s s' : State) : Prop where
  current : s'.current d = some r
  slot : s'.request r = { s.request r with errors := (s.request r).errors + 1 }
  others : ∀ x, x ≠ r → s'.request x = s.request x
  buffers : s'.k.bh = s.k.bh
  woken : s'.woken = s.woken

/-- **What should become of the failed request `r`**: it is given up when it has had enough errors. -/
def Failed (d : Driver) (enough : Nat) (r : Nat) (s s' : State) : Prop :=
  if enough ≤ (s.request r).errors + 1 then Completed d r ((s.request r).errors + 1) s s' else Charged d r s s'

/-- The request `r` has a buffer head. -/
def HasBh (s : State) (r : Nat) : Prop := (s.request r).bh ≠ none

/-- There is another request behind `r`. -/
def HasNext (s : State) (r : Nat) : Prop := (s.request r).next ≠ none

/-! ## How a request ends -/

section

variable {d : Driver} {s : State} {r b : Nat}

theorem current_run (hc : s.current d = some r) : current d s = .ok (r, s) := by
  unfold FailedRequests.current
  rw [hc]

theorem current_null (hc : s.current d = none) : current d s = .error .nullCurrent := by
  unfold FailedRequests.current
  rw [hc]

/-- `DEVICE_OFF`, for the request `r`. -/
def State.deviceOff (s : State) (d : Driver) (r : Nat) : State :=
  match d with
  | .hd => s
  | .floppy =>
      { s with moffTimer := fun n => if n = ((s.request r).dev % 4).toNat then MOTOR_TICKS else s.moffTimer n }

/-- The request `r`, for the buffer `b`, is done with. -/
def State.finish (s : State) (d : Driver) (r b : Nat) : State :=
  { s.deviceOff d r with
    k := BlkDrv.endRequest d.major false s.k
    woken := s.woken ++ [.buffer b, .request r, .slot] }

theorem deviceOff_run (hc : s.current d = some r) : deviceOff d s = .ok ((), s.deviceOff d r) := by
  cases d with
  | hd => rfl
  | floppy => exact bind_ok (current_run hc) _

theorem deviceOff_k (s : State) (d : Driver) (r : Nat) : (s.deviceOff d r).k = s.k := by cases d <;> rfl

theorem deviceOff_woken (s : State) (d : Driver) (r : Nat) : (s.deviceOff d r).woken = s.woken := by cases d <;> rfl

theorem State.current_congr {s s' : State} (h : s'.k = s.k) (d : Driver) : s'.current d = s.current d := by
  unfold State.current
  rw [h]

theorem State.request_congr {s s' : State} (h : s'.k = s.k) (r : Nat) : s'.request r = s.request r := by
  unfold State.request
  rw [h]

theorem currentBh_run (hc : s.current d = some r) : currentBh d s =
    match (s.request r).bh with
    | none => .error .nullBh
    | some b => .ok (b, s) := bind_ok (current_run hc) _

/-- The message for a request without a buffer head is read through a null pointer. -/
theorem complain_run (hc : s.current d = some r) : complain d false s =
    match (s.request r).bh with
    | none => .error .nullBh
    | some _ => .ok ((), s) := by
  have hread := currentBh_run hc
  unfold complain
  rw [if_neg (by decide)]
  cases hb : (s.request r).bh with
  | none =>
    rw [hb] at hread
    exact bind_error hread _
  | some b =>
    rw [hb] at hread
    exact bind_ok hread _

/-- **A request with a buffer head is done with**, as `BlkDrv.endRequest` says. -/
theorem endRequest_run (hc : s.current d = some r) (hb : (s.request r).bh = some b) :
    endRequest d false s = .ok ((), s.finish d r b) := by
  have hk := deviceOff_k s d r
  have hc₁ : (s.deviceOff d r).current d = some r := (State.current_congr hk d).trans hc
  have hb₁ : ((s.deviceOff d r).request r).bh = some b := by rw [State.request_congr hk, hb]
  unfold endRequest
  rw [bind_ok (deviceOff_run hc), bind_ok (current_run hc₁), reads_bind, hb₁]
  let s₂ : State := { s.deviceOff d r with
    k := ((s.deviceOff d r).k.setUptodate b false).setLock b false
    woken := (s.deviceOff d r).woken ++ [.buffer b] }
  have hunlock : unlockBuffer false (some b) (s.deviceOff d r) = .ok ((), s₂) := rfl
  have hcomplain : complain d false s₂ = .ok ((), s₂) := by
    rw [complain_run (show s₂.current d = some r from hc₁)]
    rw [show (s₂.request r).bh = some b from hb₁]
  rw [bind_ok hunlock, bind_ok hcomplain]
  have hend : BlkDrv.endRequest d.major false s.k =
      setCurrentRequest (setRequest ((s.k.setUptodate b false).setLock b false) r fun q => { q with dev := -1 })
        d.major ((setRequest ((s.k.setUptodate b false).setLock b false) r fun q =>
          { q with dev := -1 }).request r).next := by
    unfold BlkDrv.endRequest
    rw [show (s.k.blkDev d.major).currentRequest = some r from hc]
    dsimp only
    rw [show (s.k.request r).bh = some b from hb]
  have hwoken : (s.deviceOff d r).woken ++ [Wait.buffer b] ++ [.request r] ++ [.slot] =
      s.woken ++ [.buffer b, .request r, .slot] := by
    rw [deviceOff_woken, List.append_assoc, List.append_assoc]
    rfl
  unfold State.finish
  rw [hend, ← hwoken, ← hk]
  rfl

/-- **A swap request is not**: its block is to be told. -/
theorem endRequest_swap (hc : s.current d = some r) (hb : (s.request r).bh = none) :
    endRequest d false s = .error .nullBh := by
  have hk := deviceOff_k s d r
  have hc₁ : (s.deviceOff d r).current d = some r := (State.current_congr hk d).trans hc
  have hb₁ : ((s.deviceOff d r).request r).bh = none := by rw [State.request_congr hk, hb]
  have hcomplain : complain d false (s.deviceOff d r) = .error .nullBh := by rw [complain_run hc₁, hb₁]
  unfold endRequest
  rw [bind_ok (deviceOff_run hc), bind_ok (current_run hc₁), reads_bind, hb₁]
  exact (bind_ok rfl _).trans (bind_error hcomplain _)

theorem endRequest_null (hc : s.current d = none) : endRequest d false s = .error .nullCurrent := by
  unfold endRequest
  cases d with
  | hd => exact (bind_ok rfl _).trans (bind_error (current_null hc) _)
  | floppy => exact bind_error (bind_error (current_null hc) _) _

/-- A request that `end_request(0)` has taken off its queue is completed. Before that its errors may be counted, and
processes be woken up that wait for something else. -/
theorem completed_of {s' : State} {n : Nat} {w : List Wait} (hc : s.current d = some r)
    (hb : (s.request r).bh = some b)
    (hk : s'.k = BlkDrv.endRequest d.major false (setRequest s.k r fun q => { q with errors := n }))
    (hw : ∀ x, Wait.request x ∉ w) (hwoken : s'.woken = s.woken ++ w ++ [.buffer b, .request r, .slot]) :
    Completed d r n s s' := by
  have hc' : ((setRequest s.k r fun q => { q with errors := n }).blkDev d.major).currentRequest = some r := hc
  obtain ⟨hrequest, hblk⟩ := endRequest_some false hc'
  have hbh : (setRequest s.k r fun q => { q with errors := n }).request r = { s.request r with errors := n } :=
    if_pos rfl
  have hother : ∀ x, x ≠ r → (setRequest s.k r fun q => { q with errors := n }).request x = s.request x :=
    fun x hx => if_neg hx
  have hbuffers : s'.k.bh = (((setRequest s.k r fun q => { q with errors := n }).setUptodate b false).setLock b
      false).bh := by
    rw [hk]
    unfold BlkDrv.endRequest
    rw [hc']
    dsimp only
    rw [hbh]
    dsimp only
    rw [hb]
    rfl
  constructor
  · unfold State.current
    rw [hk, hblk]
    dsimp only
    rw [if_pos rfl, hbh]
  · unfold State.request
    rw [hk, hrequest]
    dsimp only
    rw [if_pos rfl, hbh]
    rfl
  · intro x hx
    unfold State.request
    rw [hk, hrequest]
    dsimp only
    rw [if_neg hx]
    exact hother x hx
  · intro b' hb'
    obtain rfl : b = b' := Option.some.inj (hb.symm.trans hb')
    rw [hbuffers]
    simp [Kernel.setLock, Kernel.setUptodate, Kernel.setBh]
  · intro b' hb'
    have hne : b' ≠ b := fun heq => hb' (heq ▸ hb)
    rw [hbuffers]
    simp [Kernel.setLock, Kernel.setUptodate, Kernel.setBh, setRequest, hne]
  · rw [hwoken, List.count_append, List.count_append, List.count_eq_zero_of_not_mem (hw r)]
    simp
  · intro x hx
    rw [hwoken, List.count_append, List.count_append, List.count_eq_zero_of_not_mem (hw x)]
    simp [Ne.symm hx]

/-! ## The error routines -/

/-- The request `r` has one error more. -/
def State.charge (s : State) (r : Nat) : State :=
  { s with k := setRequest s.k r fun q => { q with errors := q.errors + 1 } }

theorem setRequest_congr {k : Kernel} {f g : Request → Request} (h : f (k.request r) = g (k.request r)) :
    setRequest k r f = setRequest k r g := by
  unfold setRequest
  congr 1
  funext x
  by_cases hx : x = r
  · rw [if_pos hx, if_pos hx, hx, h]
  · rw [if_neg hx, if_neg hx]

theorem setRequest_self {k : Kernel} {f : Request → Request} (h : f (k.request r) = k.request r) :
    setRequest k r f = k := by
  have hrequest : (setRequest k r f).request = k.request := by
    funext x
    by_cases hx : x = r
    · rw [hx]
      exact (if_pos rfl).trans h
    · exact if_neg hx
  have hset : setRequest k r f = { k with request := (setRequest k r f).request } := rfl
  rw [hset, hrequest]

theorem charge_k (s : State) (r : Nat) :
    (s.charge r).k = setRequest s.k r fun q => { q with errors := (s.request r).errors + 1 } := by
  have hk : (s.charge r).k = setRequest s.k r fun q => { q with errors := q.errors + 1 } := rfl
  rw [hk]
  exact setRequest_congr (by rfl)

theorem charge_request (s : State) (r : Nat) :
    (s.charge r).request r = { s.request r with errors := (s.request r).errors + 1 } := if_pos rfl

theorem countError_run (hc : s.current d = some r) :
    countError d s = .ok ((s.request r).errors + 1, s.charge r) := by
  have herrors : ((s.charge r).request r).errors = (s.request r).errors + 1 := by rw [charge_request]
  unfold countError
  rw [bind_ok (current_run hc), ← herrors]
  rfl

theorem countError_null (hc : s.current d = none) : countError d s = .error .nullCurrent :=
  bind_error (current_null hc) _

theorem resetAfter_run (max : Nat) (hc : s.current d = some r) : resetAfter d max s =
    .ok ((), { s with reset := s.reset || decide (max / 2 < (s.request r).errors) }) := bind_ok (current_run hc) _

theorem resetAfter_null (max : Nat) (hc : s.current d = none) : resetAfter d max s = .error .nullCurrent :=
  bind_error (current_null hc) _

/-- A request that is to be tried again. -/
theorem charged_of {s' : State} (hc : s.current d = some r) (hk : s'.k = (s.charge r).k)
    (hwoken : s'.woken = s.woken) : Charged d r s s' := by
  constructor
  · exact (State.current_congr hk d).trans hc
  · exact (State.request_congr hk r).trans (charge_request s r)
  · exact fun x hx => (State.request_congr hk x).trans (if_neg hx)
  · rw [hk]
    rfl
  · exact hwoken

/-- How a routine gives a request up: with `end_request(0)`, after it has woken up the processes of `w`. -/
structure GivesUp (d : Driver) (give : Call Unit) (w : List Wait) : Prop where
  swap : ∀ {s r}, s.current d = some r → (s.request r).bh = none → give s = .error .nullBh
  run : ∀ {s r b}, s.current d = some r → (s.request r).bh = some b → ∃ s', give s = .ok ((), s') ∧
    s'.k = BlkDrv.endRequest d.major false s.k ∧ s'.woken = s.woken ++ w ++ [.buffer b, .request r, .slot]

theorem endRequest_givesUp (d : Driver) : GivesUp d (endRequest d false) [] where
  swap hc hb := endRequest_swap hc hb
  run {s r b} hc hb := by
    refine ⟨_, endRequest_run hc hb, rfl, ?_⟩
    rw [List.append_nil]
    rfl

theorem giveUpFloppy_givesUp : GivesUp .floppy giveUpFloppy [.select] where
  swap {s r} hc hb := by
    let s₁ : State := { s with selected := false, woken := s.woken ++ [.select] }
    have hdeselect : floppyDeselect s = .ok ((), s₁) := rfl
    unfold giveUpFloppy
    rw [bind_ok hdeselect]
    exact endRequest_swap (s := s₁) hc hb
  run {s r b} hc hb := by
    let s₁ : State := { s with selected := false, woken := s.woken ++ [.select] }
    have hdeselect : floppyDeselect s = .ok ((), s₁) := rfl
    unfold giveUpFloppy
    rw [bind_ok hdeselect]
    exact ⟨_, endRequest_run (s := s₁) hc hb, rfl, rfl⟩

/-- What a routine comes to after it has counted the error. -/
structure Counted (d : Driver) (enough r : Nat) (s s' : State) : Prop where
  failed : Failed d enough r s s'
  bh : enough ≤ (s.request r).errors + 1 → HasBh s r

/-- **The error is counted, and the request given up if it has had enough of them**: this goes wrong for a swap
request. -/
theorem count_giveUp {give : Call Unit} {w : List Wait} (hg : GivesUp d give w) (hw : ∀ x, Wait.request x ∉ w)
    {enough : Nat} (p : Nat → Prop) [DecidablePred p] (hp : ∀ n, p n ↔ enough ≤ n) (hc : s.current d = some r)
    {α : Type} (k : Call α) :
    (enough ≤ (s.request r).errors + 1 ∧ (s.request r).bh = none ∧
        (countError d >>= fun e => giveUp (p e) give >>= fun _ => k) s = .error .nullBh) ∨
      ∃ s', Counted d enough r s s' ∧ (countError d >>= fun e => giveUp (p e) give >>= fun _ => k) s = k s' := by
  have hbh : ((s.charge r).request r).bh = (s.request r).bh := by rw [charge_request]
  rw [bind_ok (countError_run hc)]
  unfold giveUp
  by_cases henough : enough ≤ (s.request r).errors + 1
  · rw [if_pos ((hp _).mpr henough)]
    cases hb : (s.request r).bh with
    | none => exact .inl ⟨henough, rfl, bind_error (hg.swap (s := s.charge r) hc (hbh.trans hb)) _⟩
    | some b =>
      obtain ⟨s', hrun, hk, hwoken⟩ := hg.run (s := s.charge r) hc (hbh.trans hb)
      refine .inr ⟨s', ⟨?_, fun _ => ?_⟩, bind_ok hrun _⟩
      · unfold Failed
        rw [if_pos henough]
        rw [charge_k] at hk
        exact completed_of hc hb hk hw hwoken
      · unfold HasBh
        rw [hb]
        exact Option.some_ne_none b
  · rw [if_neg fun hn => henough ((hp _).mp hn)]
    refine .inr ⟨s.charge r, ⟨?_, fun hn => absurd hn henough⟩, bind_ok rfl _⟩
    unfold Failed
    rw [if_neg henough]
    exact charged_of hc rfl rfl

/-- What a failed request is like depends on the tables and on who has been woken up. -/
theorem Failed.congr {s₁ s' s₁' : State} {enough : Nat} (h : Failed d enough r s s') (hk : s₁.k = s.k)
    (hwoken : s₁.woken = s.woken) (hk' : s₁'.k = s'.k) (hwoken' : s₁'.woken = s'.woken) :
    Failed d enough r s₁ s₁' := by
  have hreq : ∀ x, s₁.request x = s.request x := State.request_congr hk
  have hreq' : ∀ x, s₁'.request x = s'.request x := State.request_congr hk'
  unfold Failed at h ⊢
  rw [hreq r]
  split at h
  · next henough =>
    rw [if_pos henough]
    constructor
    · rw [State.current_congr hk', hreq, h.current]
    · rw [hreq', hreq, h.slot]
    · exact fun x hx => by rw [hreq', hreq, h.others x hx]
    · exact fun b hb => by rw [hk']; exact h.buffer b (hreq r ▸ hb)
    · exact fun b hb => by rw [hk', hk]; exact h.otherBuffers b (hreq r ▸ hb)
    · rw [hwoken', hwoken, h.woken]
    · exact fun x hx => by rw [hwoken', hwoken, h.othersWoken x hx]
  · next henough =>
    rw [if_neg henough]
    constructor
    · rw [State.current_congr hk', h.current]
    · rw [hreq', hreq, h.slot]
    · exact fun x hx => by rw [hreq', hreq, h.others x hx]
    · rw [hk', hk, h.buffers]
    · rw [hwoken', hwoken, h.woken]

/-- `CURRENT` after the error has been counted. -/
theorem Counted.current {enough : Nat} {s' : State} (h : Counted d enough r s s') :
    s'.current d = if enough ≤ (s.request r).errors + 1 then (s.request r).next else some r := by
  have hfailed := h.failed
  unfold Failed at hfailed
  split at hfailed
  · next henough => rw [if_pos henough, hfailed.current]
  · next henough => rw [if_neg henough, hfailed.current]

/-- **A routine that looks at `CURRENT` once more** does so safely if it has not given the request up, or if there is
another one. -/
theorem routine_iff {give : Call Unit} {w : List Wait} (hg : GivesUp d give w) (hw : ∀ x, Wait.request x ∉ w)
    {enough : Nat} (max : Nat) (p : Nat → Prop) [DecidablePred p] (hp : ∀ n, p n ↔ enough ≤ n) :
    (∃ s', (countError d >>= fun e => giveUp (p e) give >>= fun _ => resetAfter d max) s = .ok ((), s') ∧
        ∀ r, s.current d = some r → Failed d enough r s s') ↔
      ∃ r, s.current d = some r ∧ (enough ≤ (s.request r).errors + 1 → HasBh s r ∧ HasNext s r) := by
  cases hc : s.current d with
  | none =>
    constructor
    · rintro ⟨s', hrun, -⟩
      rw [bind_error (countError_null hc)] at hrun
      cases hrun
    · rintro ⟨r, hr, -⟩
      cases hr
  | some r =>
    rcases count_giveUp hg hw p hp hc (resetAfter d max) with ⟨henough, hb, hrun⟩ | ⟨s', hcounted, hrun⟩
    · constructor
      · rintro ⟨s', hrun', -⟩
        rw [hrun] at hrun'
        cases hrun'
      · rintro ⟨r', hr', hsafe⟩
        obtain rfl : r = r' := Option.some.inj hr'
        exact absurd hb (hsafe henough).1
    · have hcur := hcounted.current
      rw [hrun]
      cases hc' : s'.current d with
      | none =>
        -- It was the last one.
        rw [hc'] at hcur
        rw [resetAfter_null max hc']
        constructor
        · rintro ⟨s'', hrun', -⟩
          cases hrun'
        · rintro ⟨r', hr', hsafe⟩
          obtain rfl : r = r' := Option.some.inj hr'
          split at hcur
          · next henough => exact absurd hcur.symm (hsafe henough).2
          · cases hcur
      | some r' =>
        rw [hc'] at hcur
        rw [resetAfter_run max hc']
        constructor
        · rintro -
          refine ⟨r, rfl, fun henough => ⟨hcounted.bh henough, fun hnone => ?_⟩⟩
          rw [if_pos henough, hnone] at hcur
          cases hcur
        · rintro -
          refine ⟨_, rfl, fun r'' hr'' => ?_⟩
          obtain rfl : r = r'' := Option.some.inj hr''
          exact hcounted.failed.congr rfl rfl rfl rfl

theorem endRequest_iff : (∃ s', endRequest d false s = .ok ((), s') ∧
      ∀ r, s.current d = some r → Completed d r (s.request r).errors s s') ↔
    ∃ r, s.current d = some r ∧ HasBh s r := by
  cases hc : s.current d with
  | none =>
    rw [endRequest_null hc]
    constructor
    · rintro ⟨s', hrun, -⟩
      cases hrun
    · rintro ⟨r, hr, -⟩
      cases hr
  | some r =>
    cases hb : (s.request r).bh with
    | none =>
      rw [endRequest_swap hc hb]
      constructor
      · rintro ⟨s', hrun, -⟩
        cases hrun
      · rintro ⟨r', hr', hbh⟩
        obtain rfl : r = r' := Option.some.inj hr'
        exact absurd hb hbh
    | some b =>
      have hsame : (setRequest s.k r fun q => { q with errors := (s.request r).errors }) = s.k :=
        setRequest_self (by rfl)
      refine ⟨fun _ => ⟨r, rfl, fun hnone => by rw [hb] at hnone; cases hnone⟩, fun _ => ?_⟩
      refine ⟨_, endRequest_run hc hb, fun r' hr' => ?_⟩
      obtain rfl : r = r' := Option.some.inj hr'
      refine completed_of (w := []) hc hb ?_ nofun ?_
      · rw [hsame]
        rfl
      · rw [List.append_nil]
        rfl

theorem badRwIntr_iff : (∃ s', badRwIntr s = .ok ((), s') ∧
      ∀ r, s.current .hd = some r → Failed .hd Hd.MAX_ERRORS r s s') ↔
    ∃ r, s.current .hd = some r ∧ (Hd.MAX_ERRORS ≤ (s.request r).errors + 1 → HasBh s r ∧ HasNext s r) :=
  routine_iff (endRequest_givesUp .hd) nofun Hd.MAX_ERRORS (Hd.MAX_ERRORS ≤ ·) fun _ => Iff.rfl

theorem badFlpIntr_iff : (∃ s', badFlpIntr s = .ok ((), s') ∧
      ∀ r, s.current .floppy = some r → Failed .floppy (FLOPPY_MAX_ERRORS + 1) r s s') ↔
    ∃ r, s.current .floppy = some r ∧
      (FLOPPY_MAX_ERRORS + 1 ≤ (s.request r).errors + 1 → HasBh s r ∧ HasNext s r) := by
  let s₁ : State := { s with currentTrack := -1 }
  have hselect : ∀ x, Wait.request x ∉ [Wait.select] := fun x hx => by cases List.mem_singleton.mp hx
  have hiff := routine_iff (s := s₁) giveUpFloppy_givesUp hselect FLOPPY_MAX_ERRORS (FLOPPY_MAX_ERRORS < ·)
    fun _ => Iff.rfl
  refine Iff.trans ⟨?_, ?_⟩ hiff
  · rintro ⟨s', hrun, hfailed⟩
    exact ⟨s', hrun, fun r hr => (hfailed r hr).congr rfl rfl rfl rfl⟩
  · rintro ⟨s', hrun, hfailed⟩
    exact ⟨s', hrun, fun r hr => (hfailed r hr).congr rfl rfl rfl rfl⟩

theorem hdTimesOut_iff : (∃ goOn s', hdTimesOut s = .ok (goOn, s') ∧
      ∀ r, s.current .hd = some r → Failed .hd Hd.MAX_ERRORS r s s') ↔
    ∀ r, s.current .hd = some r → Hd.MAX_ERRORS ≤ (s.request r).errors + 1 → HasBh s r := by
  unfold hdTimesOut
  rw [reads_bind]
  cases hc : s.current .hd with
  | none => exact ⟨fun _ => nofun, fun _ => ⟨false, s, rfl, nofun⟩⟩
  | some r =>
    dsimp only
    rcases count_giveUp (endRequest_givesUp .hd) nofun (Hd.MAX_ERRORS ≤ ·) (fun _ => Iff.rfl) hc
      (.modify State.timedOut >>= fun _ => pure true) with ⟨henough, hb, hrun⟩ | ⟨s', hcounted, hrun⟩
    · rw [hrun]
      constructor
      · rintro ⟨goOn, s', hrun', -⟩
        cases hrun'
      · exact fun hbh => absurd hb (hbh r rfl henough)
    · rw [hrun]
      constructor
      · rintro - r' hr' henough
        obtain rfl : r = r' := Option.some.inj hr'
        exact hcounted.bh henough
      · rintro -
        refine ⟨true, s'.timedOut, rfl, fun r' hr' => ?_⟩
        obtain rfl : r = r' := Option.some.inj hr'
        exact hcounted.failed.congr rfl rfl rfl rfl

/-- **When a failed request is finished safely.** A request that is given up must have a buffer head, which a swap
request has not; and `bad_rw_intr` and `bad_flp_intr`, which look at `CURRENT` once more, need another request behind
it. -/
theorem failed_requests_iff (s : State) :
    (∀ d, (∃ s', endRequest d false s = .ok ((), s') ∧
        ∀ r, s.current d = some r → Completed d r (s.request r).errors s s') ↔
      ∃ r, s.current d = some r ∧ HasBh s r) ∧
    ((∃ s', badRwIntr s = .ok ((), s') ∧ ∀ r, s.current .hd = some r → Failed .hd Hd.MAX_ERRORS r s s') ↔
      ∃ r, s.current .hd = some r ∧ (Hd.MAX_ERRORS ≤ (s.request r).errors + 1 → HasBh s r ∧ HasNext s r)) ∧
    ((∃ s', badFlpIntr s = .ok ((), s') ∧
        ∀ r, s.current .floppy = some r → Failed .floppy (FLOPPY_MAX_ERRORS + 1) r s s') ↔
      ∃ r, s.current .floppy = some r ∧
        (FLOPPY_MAX_ERRORS + 1 ≤ (s.request r).errors + 1 → HasBh s r ∧ HasNext s r)) ∧
    ((∃ goOn s', hdTimesOut s = .ok (goOn, s') ∧ ∀ r, s.current .hd = some r → Failed .hd Hd.MAX_ERRORS r s s') ↔
      ∀ r, s.current .hd = some r → Hd.MAX_ERRORS ≤ (s.request r).errors + 1 → HasBh s r) :=
  ⟨fun _ => endRequest_iff, badRwIntr_iff, badFlpIntr_iff, hdTimesOut_iff⟩

end

/-- A disk with one request, for which there have been so many errors. -/
def single (q : Request) : State where
  k := { idleDevice with
    request := fun _ => q
    blkDev := fun _ => ⟨true, some 0⟩ }
  woken := []
  reset := false
  intr := none
  timer := none
  jiffies := 0
  currentTrack := 0
  selected := true
  moffTimer := fun _ => 0

/-- **The last request is not given up safely**, and neither is a swap request. -/
theorem last_request_given_up :
    badRwIntr (single { readBlock 0 with errors := 6 }) = .error .nullCurrent ∧
      badFlpIntr (single { readBlock 0 with errors := 12 }) = .error .nullCurrent ∧
      endRequest .hd false (single (swapOut 0)) = .error .nullBh ∧
      hdTimesOut (single { swapOut 0 with errors := 6 }) = .error .nullBh := ⟨rfl, rfl, rfl, rfl⟩

/-! ## The driver -/

/-- **The driver of `BlkDrv.Hd` does the same with its queue**, unless the routine goes wrong. -/
theorem badRwIntr_driver {s s' : State} {drv : Hd.Driver} {l : List Nat} (hl : QueueIs s.k 3 l)
    (hqueue : drv.queue = l.map s.request) (hreset : drv.reset = s.reset) (hrun : badRwIntr s = .ok ((), s'))
    (low : Bool) : (drv.badRwIntr low).reset = s'.reset ∧
      ∃ l', QueueIs s'.k 3 l' ∧ (drv.badRwIntr low).queue = l'.map s'.request := by
  have hcur := hl.head
  cases l with
  | nil =>
    have hnull : countError .hd s = .error .nullCurrent := countError_null hcur
    unfold badRwIntr at hrun
    rw [bind_error hnull] at hrun
    cases hrun
  | cons r l =>
    have hc : s.current .hd = some r := hcur
    have hrest : ∀ x ∈ l, x ≠ r := fun x hx hxr => hl.notMem (hxr ▸ hx)
    have hcharge : QueueIs (s.charge r).k 3 (r :: l) := by
      refine Leads.congr hl fun x _ => ?_
      by_cases hx : x = r
      · have hr := congrArg Request.next (charge_request s r)
        rw [hx]
        exact hr
      · have hother : (s.charge r).request x = s.request x := if_neg hx
        exact congrArg Request.next hother
    unfold badRwIntr at hrun
    rw [bind_ok (countError_run hc)] at hrun
    unfold giveUp at hrun
    unfold Hd.Driver.badRwIntr
    rw [hqueue]
    simp only [List.map_cons]
    by_cases henough : Hd.MAX_ERRORS ≤ (s.request r).errors + 1
    · rw [if_pos henough] at hrun
      rw [if_neg (Nat.not_lt.mpr henough)]
      have hbh : ((s.charge r).request r).bh = (s.request r).bh := by rw [charge_request]
      cases hb : (s.request r).bh with
      | none =>
        rw [bind_error (endRequest_swap (s := s.charge r) hc (hbh.trans hb))] at hrun
        cases hrun
      | some b =>
        rw [bind_ok (endRequest_run (s := s.charge r) hc (hbh.trans hb))] at hrun
        have hq : QueueIs ((s.charge r).finish .hd r b).k 3 l := queueIs_endRequest false hcharge
        have hdone : Completed .hd r ((s.request r).errors + 1) s ((s.charge r).finish .hd r b) := by
          refine completed_of (w := []) hc hb ?_ nofun ?_
          · rw [← charge_k]
            rfl
          · rw [List.append_nil]
            rfl
        have hnext : ((s.charge r).finish .hd r b).current .hd = l.head? := hq.head
        cases l with
        | nil =>
          rw [resetAfter_null Hd.MAX_ERRORS hnext] at hrun
          cases hrun
        | cons r' l =>
          rw [resetAfter_run Hd.MAX_ERRORS hnext, hdone.others r' (hrest r' List.mem_cons_self)] at hrun
          cases hrun
          refine ⟨by rw [hreset]; rfl, r' :: l, hq, List.map_congr_left fun x hx => ?_⟩
          exact (hdone.others x (hrest x hx)).symm
    · rw [if_neg henough] at hrun
      rw [if_pos (Nat.not_le.mp henough)]
      have hdone : Charged .hd r s (s.charge r) := charged_of hc rfl rfl
      have hpure : (pure () : Call Unit) (s.charge r) = .ok ((), s.charge r) := rfl
      rw [bind_ok hpure, resetAfter_run Hd.MAX_ERRORS hdone.current, hdone.slot] at hrun
      cases hrun
      refine ⟨by rw [hreset]; rfl, r :: l, hcharge, ?_⟩
      rw [List.map_cons]
      refine congrArg₂ List.cons hdone.slot.symm (List.map_congr_left fun x hx => ?_)
      exact (hdone.others x (hrest x hx)).symm

theorem badRwIntr_driver_first :
    ∃ s', badRwIntr (single (readBlock 0)) = .ok ((), s') ∧ ∃ l, QueueIs s'.k 3 l ∧
      (Hd.Driver.badRwIntr ⟨[readBlock 0], false, false, none, 0, .idle⟩ false).queue = l.map s'.request :=
  have hl : QueueIs (single (readBlock 0)).k 3 [0] := Leads.cons .nil
  ⟨_, rfl, (badRwIntr_driver hl rfl rfl rfl false).2⟩

end FailedRequests
end BlkDrv
end Linux095
