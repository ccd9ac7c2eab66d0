import Linux095.Coop.Thread
import Linux095.Fs.Buffer

/-!
# `BlkDrv.LlRwBlk` — block requests (`kernel/blk_drv/ll_rw_blk.c`)

`ll_rw_block` locks a buffer and queues a request for it; a driver serves the queue from interrupts and ends
each request with `end_request`. Nothing here touches the queues of the buffer cache: `SameQueues` is what
every step of this module guarantees.
-/

namespace Linux095
namespace BlkDrv
open Fs Coop

def NR_BLK_DEV : Nat := 7
def NR_REQUEST : Nat := 32

/-- `MAJOR`. -/
def major (dev : Dev) : Nat := dev.toNat >>> 8

/-- The commands `ll_rw_block` takes; the last two do not wait for a locked buffer or an empty slot. -/
inductive Rw where
  | read
  | write
  | reada
  | writea
  deriving DecidableEq, Repr

namespace Rw

/-- `rw == READA || rw == WRITEA`. -/
def ahead : Rw → Bool
  | reada | writea => true
  | read | write => false

/-- The command that goes into the request. -/
def cmd : Rw → Cmd
  | read | reada => .read
  | write | writea => .write

end Rw

/-! ## Assignments -/

def setRequest (k : Kernel) (r : Nat) (f : Request → Request) : Kernel :=
  { k with request := fun x => if x = r then f (k.request x) else k.request x }

def setCurrentRequest (k : Kernel) (major : Nat) (v : Option Nat) : Kernel :=
  { k with blkDev := fun x => if x = major then { k.blkDev x with currentRequest := v } else k.blkDev x }

/-! ## Drivers -/

/-- `end_request`: the head of the queue is done with, read or written when `uptodate`. -/
def endRequest (major : Nat) (uptodate : Bool) (k : Kernel) : Kernel :=
  match (k.blkDev major).currentRequest with
  | none => k
  | some r =>
      let k1 := match (k.request r).bh with
        | some b => (k.setUptodate b uptodate).setLock b false
        | none => k
      let k2 := setRequest k1 r fun q => { q with dev := -1 }
      setCurrentRequest k2 major (k2.request r).next

/-- What an interrupt of a block device does: move data, which may be anywhere, and end requests. -/
inductive Interrupt : Kernel → Kernel → Prop
  | transfer (k : Kernel) (m : X86.Mem) : Interrupt k { k with mem := m }
  | endRequest (k : Kernel) (major : Nat) (uptodate : Bool) : Interrupt k (endRequest major uptodate k)

/-! ## The request queue -/

/-- `IN_ORDER`. -/
def inOrder (s1 s2 : Request) : Bool :=
  (s1.cmd = .read ∧ s2.cmd = .write) ∨
    (s1.cmd = s2.cmd ∧ (s1.dev < s2.dev ∨ (s1.dev = s2.dev ∧ s1.sector < s2.sector)))

/-- The elevator loop of `add_request`: the request after which `req` goes, from `tmp` on. -/
def insertPoint (k : Kernel) (req : Request) : Nat → Nat → Nat
  | 0, tmp => tmp
  | fuel + 1, tmp =>
      match (k.request tmp).next with
      | none => tmp
      | some n =>
          if req.bh.isNone then
            if (k.request n).bh.isSome then tmp else insertPoint k req fuel n
          else if (inOrder (k.request tmp) req ∨ ¬ inOrder (k.request tmp) (k.request n)) ∧
              inOrder req (k.request n) then tmp
          else insertPoint k req fuel n

/-- `if (req->bh) req->bh->b_dirt = 0`. -/
def markClean (k : Kernel) (r : Nat) : Kernel :=
  match (k.request r).bh with
  | some b => k.setDirt b false
  | none => k

/-- `r` becomes the queue when there is none, and goes to its place in it otherwise. -/
def enqueue (major r : Nat) (k : Kernel) : Kernel :=
  match (k.blkDev major).currentRequest with
  | none => setCurrentRequest k major (some r)
  | some c =>
      let tmp := insertPoint k (k.request r) NR_REQUEST c
      let k1 := setRequest k r fun q => { q with next := (k.request tmp).next }
      setRequest k1 tmp fun q => { q with next := some r }

/-- `add_request` up to the call of `request_fn`; with an empty queue the driver has to be started. -/
def addRequest (major r : Nat) (k : Kernel) : Kernel :=
  enqueue major r (markClean (setRequest k r fun q => { q with next := none }) r)

/-- The highest empty slot below `n`. -/
def emptyRequest (k : Kernel) : Nat → Option Nat
  | 0 => none
  | n + 1 => if (k.request n).dev < 0 then some n else emptyRequest k n

/-- The request for the block of the buffer `b`. -/
def fillRequest (k : Kernel) (cmd : Cmd) (b r : Nat) : Kernel :=
  setRequest k r fun _ =>
    { dev := (k.bh b).bDev.toNat, cmd, errors := 0, sector := (k.bh b).bBlocknr <<< 1, nrSectors := 2
      buffer := (k.bh b).bData, bh := some b, next := none }

/-! ## Threads -/

/-- `wait_on_buffer`. -/
def waitOnBuffer (b : Nat) : Thread Kernel Unit := .await fun k => !(k.bh b).bLock

/-- `lock_buffer`. -/
def lockBuffer (b : Nat) : Thread Kernel Unit := do
  waitOnBuffer b
  .modify fun k => k.setLock b true

/-- `unlock_buffer`. -/
def unlockBuffer (b : Nat) : Thread Kernel Unit :=
  .modify fun k => k.setLock b false

/-- `add_request`: a driver that is started may end requests at once. -/
def startRequest (major r : Nat) : Thread Kernel Unit := do
  let idle ← .reads fun k => (k.blkDev major).currentRequest.isNone
  .modify (addRequest major r)
  if idle then
    let ended ← .any (List Bool)
    .modify fun k => ended.foldl (fun k u => endRequest major u k) k

/-- `make_request` from the label `repeat` on. -/
def queueRequest (major : Nat) (rw : Rw) (b : Nat) : Nat → Thread Kernel Unit
  | 0 => .stop
  | fuel + 1 => do
      let limit := if rw.cmd = .read then NR_REQUEST else NR_REQUEST * 2 / 3
      match ← .reads fun k => emptyRequest k limit with
      | some r =>
          .modify fun k => fillRequest k rw.cmd b r
          startRequest major r
      | none =>
          if rw.ahead then unlockBuffer b
          else
            .doze
            queueRequest major rw b fuel

/-- `(rw == WRITE && !bh->b_dirt) || (rw == READ && bh->b_uptodate)`. -/
def needless : Cmd → BufferHead → Bool
  | .write, bh => !bh.bDirt
  | .read, bh => bh.bUptodate

/-- `make_request`. -/
def makeRequest (fuel major : Nat) (rw : Rw) (b : Nat) : Thread Kernel Unit := do
  let locked ← .reads fun k => (k.bh b).bLock
  if rw.ahead ∧ locked then return
  lockBuffer b
  if ← .reads fun k => needless rw.cmd (k.bh b) then unlockBuffer b
  else queueRequest major rw b fuel

/-- `ll_rw_block`. -/
def llRwBlock (fuel : Nat) (rw : Rw) (b : Nat) : Thread Kernel Unit := do
  let dev ← .reads fun k => (k.bh b).bDev
  let driven ← .reads fun k => (k.blkDev (major dev)).requestFn
  if NR_BLK_DEV ≤ major dev ∨ !driven then return
  makeRequest fuel (major dev) rw b

/-! ## The queues of the buffer cache stay as they are -/

theorem sameQueues_setRequest (k : Kernel) (r : Nat) (f : Request → Request) :
    SameQueues k (setRequest k r f) := .of_rest rfl rfl rfl rfl

theorem sameQueues_setCurrentRequest (k : Kernel) (m : Nat) (v : Option Nat) :
    SameQueues k (setCurrentRequest k m v) := .of_rest rfl rfl rfl rfl

theorem sameQueues_endRequest (m : Nat) (u : Bool) (k : Kernel) : SameQueues k (endRequest m u k) := by
  unfold endRequest
  cases (k.blkDev m).currentRequest with
  | none => exact .refl k
  | some r =>
      refine SameQueues.trans ?_ ((sameQueues_setRequest _ r _).trans (sameQueues_setCurrentRequest _ m _))
      cases (k.request r).bh with
      | none => exact .refl k
      | some b => exact (SameQueues.setUptodate k b u).trans (.setLock _ b false)

theorem Interrupt.sameQueues {k k' : Kernel} (h : Interrupt k k') : SameQueues k k' := by
  cases h with
  | transfer => exact .of_rest rfl rfl rfl rfl
  | endRequest m u => exact sameQueues_endRequest m u k

theorem sameQueues_addRequest (m r : Nat) (k : Kernel) : SameQueues k (addRequest m r k) := by
  have hclean : ∀ k1, SameQueues k1 (markClean k1 r) := fun k1 => by
    unfold markClean
    cases (k1.request r).bh with
    | none => exact .refl k1
    | some b => exact .setDirt k1 b false
  have henqueue : ∀ k1, SameQueues k1 (enqueue m r k1) := fun k1 => by
    unfold enqueue
    cases (k1.blkDev m).currentRequest with
    | none => exact sameQueues_setCurrentRequest k1 m _
    | some c => exact (sameQueues_setRequest k1 r _).trans (sameQueues_setRequest _ _ _)
  exact ((sameQueues_setRequest k r _).trans (hclean _)).trans (henqueue _)

section
variable {I : Kernel → Prop} (hI : ∀ k k', SameQueues k k' → I k → I k')

theorem waitOnBuffer_ok (b : Nat) : (waitOnBuffer b).Ok I fun _ => True := .await

include hI

theorem lockBuffer_ok (b : Nat) : (lockBuffer b).Ok I fun _ => True :=
  .bind (waitOnBuffer_ok b) fun _ _ => .modify fun k => hI k _ (.setLock k b true)

theorem unlockBuffer_ok (b : Nat) : (unlockBuffer b).Ok I fun _ => True :=
  .modify fun k => hI k _ (.setLock k b false)

theorem startRequest_ok (m r : Nat) : (startRequest m r).Ok I fun _ => True := by
  refine .reads fun k _ => .bind (.modify fun k => hI k _ (sameQueues_addRequest m r k)) fun _ _ => ?_
  split
  · refine .bind .any fun ended _ => .modify fun k hk => ?_
    induction ended generalizing k with
    | nil => exact hk
    | cons u ended ih => exact ih _ (hI k _ (sameQueues_endRequest m u k) hk)
  · exact .pure trivial

theorem queueRequest_ok (m : Nat) (rw : Rw) (b fuel : Nat) :
    (queueRequest m rw b fuel).Ok I fun _ => True := by
  induction fuel with
  | zero => exact .stop
  | succ fuel ih =>
      refine .reads fun k _ => ?_
      split
      · exact .bind (.modify fun k => hI k _ (sameQueues_setRequest k _ _)) fun _ _ => startRequest_ok hI m _
      · split
        · exact unlockBuffer_ok hI b
        · exact .bind .doze fun _ _ => ih

theorem makeRequest_ok (fuel m : Nat) (rw : Rw) (b : Nat) : (makeRequest fuel m rw b).Ok I fun _ => True := by
  refine .reads fun k _ => ?_
  split
  · exact .pure trivial
  · refine .bind (lockBuffer_ok hI b) fun _ _ => .reads fun k _ => ?_
    split
    · exact unlockBuffer_ok hI b
    · exact queueRequest_ok hI m rw b fuel

/-- **`ll_rw_block` keeps whatever depends on the queues of the buffer cache alone.** -/
theorem llRwBlock_ok (fuel : Nat) (rw : Rw) (b : Nat) : (llRwBlock fuel rw b).Ok I fun _ => True := by
  refine .reads fun k _ => .reads fun k _ => ?_
  split
  · exact .pure trivial
  · exact makeRequest_ok hI fuel _ rw b

end

end BlkDrv
end Linux095
