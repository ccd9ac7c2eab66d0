import Linux095.Links.Ring
import Linux095.Fs.Types

/-!
# `Fs.Buffer` — the queues of the buffer cache (`fs/buffer.c`)

Every buffer head is on the circular free list, and on the hash chain of its block when it has a device.
This module holds the data model, the queue operations as the source performs them, pointer by pointer, and
`RepInv`, the representation invariant they keep. Processes and sleeping come in `Fs.BufferCache`.

* `removeFromQueues`, `insertIntoQueues`, `putLastFree`, `findBuffer`, `bufferInit` — the source's functions;
* `RepInv` — one ring, one chain for each hash value, one buffer for each block;
* `bufferInit_repInv`, `RepInv.putLastFree`, `RepInv.reuse` — what establishes and keeps it.

A buffer head is named by its index from `start_buffer`.
-/

namespace Linux095
namespace Fs

/-! ## Data model -/

/-- `READ` and `WRITE`, in the order the elevator compares them. -/
inductive Cmd where
  | read
  | write
  deriving DecidableEq, Repr

/-- `struct request`; `dev` is `-1` when the slot is empty. -/
structure Request where
  dev : Int
  cmd : Cmd
  errors : Nat
  sector : BitVec 32
  nrSectors : Nat
  buffer : X86.Addr
  bh : Option Nat
  next : Option Nat

/-- `struct blk_dev_struct`: whether there is a driver, and the head of its queue. -/
structure BlkDev where
  requestFn : Bool
  currentRequest : Option Nat

/-- The tables of the kernel, and the memory the buffers are in. -/
structure Kernel where
  mem : X86.Mem
  inode : Nat → Inode
  superBlock : Nat → SuperBlock
  nrBuffers : Nat
  bh : Nat → BufferHead
  hashTable : Nat → Option Nat
  freeList : Option Nat
  request : Nat → Request
  blkDev : Nat → BlkDev

/-- `_hashfn(dev,block)`. -/
def hashfn (dev : Dev) (block : Block) : Nat := (dev.setWidth 32 ^^^ block).toNat % NR_HASH

/-! ## Assignments -/

namespace Kernel

def setBh (k : Kernel) (i : Nat) (f : BufferHead → BufferHead) : Kernel :=
  { k with bh := fun j => if j = i then f (k.bh j) else k.bh j }

def setNext (k : Kernel) (i : Nat) (v : Option Nat) : Kernel := k.setBh i fun b => { b with bNext := v }
def setPrev (k : Kernel) (i : Nat) (v : Option Nat) : Kernel := k.setBh i fun b => { b with bPrev := v }
def setNextFree (k : Kernel) (i : Nat) (v : Option Nat) : Kernel :=
  k.setBh i fun b => { b with bNextFree := v }
def setPrevFree (k : Kernel) (i : Nat) (v : Option Nat) : Kernel :=
  k.setBh i fun b => { b with bPrevFree := v }
def setData (k : Kernel) (i : Nat) (v : X86.Addr) : Kernel := k.setBh i fun b => { b with bData := v }
def setUptodate (k : Kernel) (i : Nat) (v : Bool) : Kernel := k.setBh i fun b => { b with bUptodate := v }
def setDirt (k : Kernel) (i : Nat) (v : Bool) : Kernel := k.setBh i fun b => { b with bDirt := v }
def setLock (k : Kernel) (i : Nat) (v : Bool) : Kernel := k.setBh i fun b => { b with bLock := v }
def setCount (k : Kernel) (i : Nat) (v : BitVec 8) : Kernel := k.setBh i fun b => { b with bCount := v }
def setFreeList (k : Kernel) (v : Option Nat) : Kernel := { k with freeList := v }
def setHash (k : Kernel) (h : Nat) (v : Option Nat) : Kernel :=
  { k with hashTable := fun x => if x = h then v else k.hashTable x }

/-- The links of the free list. -/
def freeLinks (k : Kernel) : Links.Fields Nat := ⟨fun i => (k.bh i).bNextFree, fun i => (k.bh i).bPrevFree⟩

/-- The links of the hash chains. -/
def hashLinks (k : Kernel) : Links.Fields Nat := ⟨fun i => (k.bh i).bNext, fun i => (k.bh i).bPrev⟩

/-- The block a buffer stands for. -/
def key (k : Kernel) (i : Nat) : Dev × Block := ((k.bh i).bDev, (k.bh i).bBlocknr)

/-- Where the contents of a buffer are. -/
def dataOf (k : Kernel) (i : Nat) : X86.Addr := (k.bh i).bData

/-- The hash value of the block a buffer stands for. -/
def hashOf (k : Kernel) (i : Nat) : Nat := hashfn (k.bh i).bDev (k.bh i).bBlocknr

end Kernel

/-! ## The queue operations -/

/-- `if (bh->b_next) bh->b_next->b_prev = bh->b_prev`. -/
def bridgePrev (k : Kernel) (b : Nat) : Kernel :=
  match (k.bh b).bNext with
  | some n => k.setPrev n (k.bh b).bPrev
  | none => k

/-- `if (bh->b_prev) bh->b_prev->b_next = bh->b_next`. -/
def bridgeNext (k : Kernel) (b : Nat) : Kernel :=
  match (k.bh b).bPrev with
  | some p => k.setNext p (k.bh b).bNext
  | none => k

/-- `if (hash(..) == bh) hash(..) = bh->b_next`. -/
def advanceHead (k : Kernel) (b : Nat) : Kernel :=
  if k.hashTable (k.hashOf b) = some b then k.setHash (k.hashOf b) (k.bh b).bNext else k

/-- `remove_from_hash_queue`. -/
def removeFromHashQueue (k : Kernel) (b : Nat) : Kernel :=
  ((advanceHead (bridgeNext (bridgePrev k b) b) b).setNext b none).setPrev b none

/-- `remove_from_free_list`; `none` is `panic("Free block list corrupted")`. -/
def removeFromFreeList (k : Kernel) (b : Nat) : Option Kernel := do
  let p ← (k.bh b).bPrevFree
  let _ ← (k.bh b).bNextFree
  let k1 := k.setNextFree p (k.bh b).bNextFree
  let n ← (k1.bh b).bNextFree
  let k2 := k1.setPrevFree n (k1.bh b).bPrevFree
  let k3 := if k2.freeList = some b then k2.setFreeList (k2.bh b).bNextFree else k2
  return (k3.setNextFree b none).setPrevFree b none

/-- `remove_from_queues`. -/
def removeFromQueues (k : Kernel) (b : Nat) : Option Kernel := removeFromFreeList (removeFromHashQueue k b) b

/-- The four assignments that append `b` to the free list; `none` when they follow a null pointer. -/
def appendFree (k : Kernel) (b : Nat) : Option Kernel := do
  let k1 := k.setNextFree b k.freeList
  let f ← k1.freeList
  let k2 := k1.setPrevFree b (k1.bh f).bPrevFree
  let p ← (k2.bh f).bPrevFree
  let k3 := k2.setNextFree p (some b)
  return k3.setPrevFree f (some b)

/-- `put_last_free`. -/
def putLastFree (k : Kernel) (b : Nat) : Option Kernel :=
  if some b = k.freeList then some (k.setFreeList (k.bh b).bNextFree)
  else do
    let k1 ← removeFromFreeList k b
    appendFree k1 b

/-- The second half of `insert_into_queues`: the hash queue. The last assignment is not guarded in the source;
    through a null `b_next` it leaves all buffers unchanged. -/
def pushHash (k : Kernel) (b : Nat) : Kernel :=
  let k1 := (k.setPrev b none).setNext b none
  if (k1.bh b).bDev = 0 then k1
  else
    let k2 := k1.setNext b (k1.hashTable (k1.hashOf b))
    let k3 := k2.setHash (k2.hashOf b) (some b)
    match (k3.bh b).bNext with
    | some n => k3.setPrev n (some b)
    | none => k3

/-- `insert_into_queues`. -/
def insertIntoQueues (k : Kernel) (b : Nat) : Option Kernel := do
  let k1 ← appendFree k b
  return pushHash k1 b

/-- The loop of `find_buffer` from `tmp` on. -/
def findFrom (k : Kernel) (dev : Dev) (block : Block) : Nat → Option Nat → Option Nat
  | 0, _ => none
  | _, none => none
  | fuel + 1, some tmp =>
      if (k.bh tmp).bDev = dev ∧ (k.bh tmp).bBlocknr = block then some tmp
      else findFrom k dev block fuel (k.bh tmp).bNext

/-- `find_buffer`. A chain is never longer than there are buffers. -/
def findBuffer (k : Kernel) (dev : Dev) (block : Block) : Option Nat :=
  findFrom k dev block (k.nrBuffers + 1) (k.hashTable (hashfn dev block))

/-- The tail of `getblk`: take the buffer `b` out of the queues, make it the block's, and queue it again. -/
def reuse (k : Kernel) (dev : Dev) (block : Block) (b : Nat) : Option Kernel := do
  let k1 := ((k.setCount b 1).setDirt b false).setUptodate b false
  let k2 ← removeFromQueues k1 b
  let k3 := k2.setBh b fun h => { h with bDev := dev, bBlocknr := block }
  insertIntoQueues k3 b

/-- `sizeof(struct buffer_head)`. -/
def SIZEOF_BUFFER_HEAD : Nat := 36

/-- The body of the loop of `buffer_init`: the buffer head `h` gets the block of memory at `b`. -/
def initHead (k : Kernel) (h b : Nat) : Kernel :=
  let k1 := k.setBh h fun x =>
    { x with bDev := 0, bDirt := false, bCount := 0, bLock := false, bUptodate := false
             bNext := none, bPrev := none, bData := BitVec.ofNat 32 b
             bPrevFree := some (h - 1), bNextFree := some (h + 1) }
  { k1 with nrBuffers := k1.nrBuffers + 1 }

/-- The loop of `buffer_init`: `h` is the next buffer head and `b` the end of the memory left. The video
    memory is skipped. -/
def initFrom (start : Nat) (k : Kernel) (h b : Nat) : Kernel × Nat :=
  if _hb : BLOCK_SIZE ≤ b ∧ start + (h + 1) * SIZEOF_BUFFER_HEAD ≤ b - BLOCK_SIZE then
    initFrom start (initHead k h (b - BLOCK_SIZE)) (h + 1)
      (if b - BLOCK_SIZE = 0x100000 then 0xA0000 else b - BLOCK_SIZE)
  else (k, h)
termination_by b
decreasing_by
  have h1 : 0 < BLOCK_SIZE := by decide
  split <;> omega

/-- `buffer_init(buffer_end)`, with `start_buffer` at `start`. The last buffer head is `h - 1`. -/
def bufferInit (start bufferEnd : Nat) (k : Kernel) : Kernel :=
  let (k1, h) := initFrom start k 0 (if bufferEnd = 1 <<< 20 then 640 * 1024 else bufferEnd)
  let k2 := k1.setFreeList (some 0)
  let k3 := k2.setPrevFree 0 (some (h - 1))
  let k4 := k3.setNextFree (h - 1) k3.freeList
  { k4 with hashTable := fun i => if i < NR_HASH then none else k4.hashTable i }

/-! ## What the assignments change -/

namespace Kernel
variable (k : Kernel) (i h : Nat) (v : Option Nat)

@[simp] theorem freeLinks_setNextFree : (k.setNextFree i v).freeLinks = k.freeLinks.setNext i v := by
  refine Links.Fields.ext (funext fun j => ?_) (funext fun j => ?_) <;>
    by_cases hj : j = i <;> simp [freeLinks, setNextFree, setBh, hj]

@[simp] theorem freeLinks_setPrevFree : (k.setPrevFree i v).freeLinks = k.freeLinks.setPrev i v := by
  refine Links.Fields.ext (funext fun j => ?_) (funext fun j => ?_) <;>
    by_cases hj : j = i <;> simp [freeLinks, setPrevFree, setBh, hj]

@[simp] theorem hashLinks_setNext : (k.setNext i v).hashLinks = k.hashLinks.setNext i v := by
  refine Links.Fields.ext (funext fun j => ?_) (funext fun j => ?_) <;>
    by_cases hj : j = i <;> simp [hashLinks, setNext, setBh, hj]

@[simp] theorem hashLinks_setPrev : (k.setPrev i v).hashLinks = k.hashLinks.setPrev i v := by
  refine Links.Fields.ext (funext fun j => ?_) (funext fun j => ?_) <;>
    by_cases hj : j = i <;> simp [hashLinks, setPrev, setBh, hj]

/-- An assignment to a buffer head that keeps the links of the free list. -/
theorem freeLinks_setBh {f : BufferHead → BufferHead} (hn : ∀ x, (f x).bNextFree = x.bNextFree)
    (hp : ∀ x, (f x).bPrevFree = x.bPrevFree) : (k.setBh i f).freeLinks = k.freeLinks := by
  refine Links.Fields.ext (funext fun j => ?_) (funext fun j => ?_) <;>
    by_cases hj : j = i <;> simp [freeLinks, setBh, hj, hn, hp]

/-- An assignment to a buffer head that keeps the links of the hash chains. -/
theorem hashLinks_setBh {f : BufferHead → BufferHead} (hn : ∀ x, (f x).bNext = x.bNext)
    (hp : ∀ x, (f x).bPrev = x.bPrev) : (k.setBh i f).hashLinks = k.hashLinks := by
  refine Links.Fields.ext (funext fun j => ?_) (funext fun j => ?_) <;>
    by_cases hj : j = i <;> simp [hashLinks, setBh, hj, hn, hp]

/-- An assignment to a buffer head that keeps its block. -/
theorem key_setBh {f : BufferHead → BufferHead} (hd : ∀ x, (f x).bDev = x.bDev)
    (hb : ∀ x, (f x).bBlocknr = x.bBlocknr) : (k.setBh i f).key = k.key := by
  refine funext fun j => ?_
  by_cases hj : j = i <;> simp [key, setBh, hj, hd, hb]

/-- An assignment to a buffer head that keeps the place of its contents. -/
theorem dataOf_setBh {f : BufferHead → BufferHead} (hd : ∀ x, (f x).bData = x.bData) :
    (k.setBh i f).dataOf = k.dataOf := by
  refine funext fun j => ?_
  by_cases hj : j = i <;> simp [dataOf, setBh, hj, hd]

@[simp] theorem freeLinks_setNext : (k.setNext i v).freeLinks = k.freeLinks :=
  freeLinks_setBh _ _ (fun _ => rfl) fun _ => rfl
@[simp] theorem freeLinks_setPrev : (k.setPrev i v).freeLinks = k.freeLinks :=
  freeLinks_setBh _ _ (fun _ => rfl) fun _ => rfl
@[simp] theorem hashLinks_setNextFree : (k.setNextFree i v).hashLinks = k.hashLinks :=
  hashLinks_setBh _ _ (fun _ => rfl) fun _ => rfl
@[simp] theorem hashLinks_setPrevFree : (k.setPrevFree i v).hashLinks = k.hashLinks :=
  hashLinks_setBh _ _ (fun _ => rfl) fun _ => rfl
@[simp] theorem key_setNext : (k.setNext i v).key = k.key := key_setBh _ _ (fun _ => rfl) fun _ => rfl
@[simp] theorem key_setPrev : (k.setPrev i v).key = k.key := key_setBh _ _ (fun _ => rfl) fun _ => rfl
@[simp] theorem key_setNextFree : (k.setNextFree i v).key = k.key := key_setBh _ _ (fun _ => rfl) fun _ => rfl
@[simp] theorem key_setPrevFree : (k.setPrevFree i v).key = k.key := key_setBh _ _ (fun _ => rfl) fun _ => rfl
@[simp] theorem dataOf_setNext : (k.setNext i v).dataOf = k.dataOf := dataOf_setBh _ _ fun _ => rfl
@[simp] theorem dataOf_setPrev : (k.setPrev i v).dataOf = k.dataOf := dataOf_setBh _ _ fun _ => rfl
@[simp] theorem dataOf_setNextFree : (k.setNextFree i v).dataOf = k.dataOf := dataOf_setBh _ _ fun _ => rfl
@[simp] theorem dataOf_setPrevFree : (k.setPrevFree i v).dataOf = k.dataOf := dataOf_setBh _ _ fun _ => rfl
@[simp] theorem dataOf_setData (x : Nat) (w : X86.Addr) :
    (k.setData i w).dataOf x = if x = i then w else k.dataOf x := by
  by_cases hx : x = i <;> simp [dataOf, setData, setBh, hx]
@[simp] theorem dataOf_setFreeList : (k.setFreeList v).dataOf = k.dataOf := rfl
@[simp] theorem dataOf_setHash : (k.setHash h v).dataOf = k.dataOf := rfl

@[simp] theorem freeLinks_setFreeList : (k.setFreeList v).freeLinks = k.freeLinks := rfl
@[simp] theorem freeLinks_setHash : (k.setHash h v).freeLinks = k.freeLinks := rfl
@[simp] theorem hashLinks_setFreeList : (k.setFreeList v).hashLinks = k.hashLinks := rfl
@[simp] theorem hashLinks_setHash : (k.setHash h v).hashLinks = k.hashLinks := rfl
@[simp] theorem key_setFreeList : (k.setFreeList v).key = k.key := rfl
@[simp] theorem key_setHash : (k.setHash h v).key = k.key := rfl
@[simp] theorem freeList_setFreeList : (k.setFreeList v).freeList = v := rfl
@[simp] theorem freeList_setHash : (k.setHash h v).freeList = k.freeList := rfl
@[simp] theorem freeList_setBh (f) : (k.setBh i f).freeList = k.freeList := rfl
@[simp] theorem freeList_setNext : (k.setNext i v).freeList = k.freeList := rfl
@[simp] theorem freeList_setPrev : (k.setPrev i v).freeList = k.freeList := rfl
@[simp] theorem freeList_setNextFree : (k.setNextFree i v).freeList = k.freeList := rfl
@[simp] theorem freeList_setPrevFree : (k.setPrevFree i v).freeList = k.freeList := rfl
@[simp] theorem hashTable_setHash (x : Nat) :
    (k.setHash h v).hashTable x = if x = h then v else k.hashTable x := rfl
@[simp] theorem hashTable_setFreeList : (k.setFreeList v).hashTable = k.hashTable := rfl
@[simp] theorem hashTable_setBh (f) : (k.setBh i f).hashTable = k.hashTable := rfl
@[simp] theorem hashTable_setNext : (k.setNext i v).hashTable = k.hashTable := rfl
@[simp] theorem hashTable_setPrev : (k.setPrev i v).hashTable = k.hashTable := rfl
@[simp] theorem hashTable_setNextFree : (k.setNextFree i v).hashTable = k.hashTable := rfl
@[simp] theorem hashTable_setPrevFree : (k.setPrevFree i v).hashTable = k.hashTable := rfl
@[simp] theorem nrBuffers_setFreeList : (k.setFreeList v).nrBuffers = k.nrBuffers := rfl
@[simp] theorem nrBuffers_setHash : (k.setHash h v).nrBuffers = k.nrBuffers := rfl
@[simp] theorem nrBuffers_setBh (f) : (k.setBh i f).nrBuffers = k.nrBuffers := rfl
@[simp] theorem nrBuffers_setNext : (k.setNext i v).nrBuffers = k.nrBuffers := rfl
@[simp] theorem nrBuffers_setPrev : (k.setPrev i v).nrBuffers = k.nrBuffers := rfl
@[simp] theorem nrBuffers_setNextFree : (k.setNextFree i v).nrBuffers = k.nrBuffers := rfl
@[simp] theorem nrBuffers_setPrevFree : (k.setPrevFree i v).nrBuffers = k.nrBuffers := rfl

theorem bNext_eq : (k.bh i).bNext = k.hashLinks.next i := rfl
theorem bPrev_eq : (k.bh i).bPrev = k.hashLinks.prev i := rfl
theorem bNextFree_eq : (k.bh i).bNextFree = k.freeLinks.next i := rfl
theorem bPrevFree_eq : (k.bh i).bPrevFree = k.freeLinks.prev i := rfl
theorem bDev_eq : (k.bh i).bDev = (k.key i).1 := rfl

end Kernel

/-! ## The representation invariant -/

/-- The free list runs through the buffers of `l`, from `free_list` on. -/
structure FreeListIs (k : Kernel) (l : List Nat) : Prop where
  head : k.freeList = l.head?
  ring : Links.Ring k.freeLinks l

/-- Of the buffers in `S`, those with a device are on the chain of their hash value, and the others on
    none. -/
structure HashQueues (k : Kernel) (S : Nat → Prop) : Prop where
  chain : ∀ h < NR_HASH, ∃ l, Links.Chain k.hashLinks (k.hashTable h) l ∧
    ∀ i, i ∈ l ↔ S i ∧ (k.bh i).bDev ≠ 0 ∧ k.hashOf i = h
  unhashed : ∀ i, S i → (k.bh i).bDev = 0 → (k.bh i).bNext = none ∧ (k.bh i).bPrev = none

/-- No two buffers of `S` stand for one block. -/
def UniqueKeys (k : Kernel) (S : Nat → Prop) : Prop :=
  ∀ i j, S i → S j → (k.bh i).bDev ≠ 0 → k.key i = k.key j → i = j

/-- **The representation invariant of the buffer cache.** -/
structure RepInv (k : Kernel) : Prop where
  two : 2 ≤ k.nrBuffers
  free : ∃ l, FreeListIs k l ∧ ∀ i, i ∈ l ↔ i < k.nrBuffers
  hash : HashQueues k (· < k.nrBuffers)
  unique : UniqueKeys k (· < k.nrBuffers)

/-! ## Frames -/

/-- Two states with the same hash queues. -/
structure SameHash (k k' : Kernel) : Prop where
  links : k'.hashLinks = k.hashLinks
  table : k'.hashTable = k.hashTable
  key : k'.key = k.key
  data : k'.dataOf = k.dataOf
  nr : k'.nrBuffers = k.nrBuffers

/-- Two states with the same free list. -/
structure SameFree (k k' : Kernel) : Prop where
  links : k'.freeLinks = k.freeLinks
  list : k'.freeList = k.freeList
  nr : k'.nrBuffers = k.nrBuffers

theorem SameFree.trans {k k' k'' : Kernel} (h : SameFree k k') (h' : SameFree k' k'') : SameFree k k'' :=
  ⟨h'.links.trans h.links, h'.list.trans h.list, h'.nr.trans h.nr⟩

theorem SameHash.trans {k k' k'' : Kernel} (h : SameHash k k') (h' : SameHash k' k'') : SameHash k k'' :=
  ⟨h'.links.trans h.links, h'.table.trans h.table, h'.key.trans h.key, h'.data.trans h.data,
    h'.nr.trans h.nr⟩

theorem sameFree_setBh (k : Kernel) (i : Nat) {f : BufferHead → BufferHead}
    (hn : ∀ x, (f x).bNextFree = x.bNextFree) (hp : ∀ x, (f x).bPrevFree = x.bPrevFree) :
    SameFree k (k.setBh i f) :=
  ⟨k.freeLinks_setBh i hn hp, rfl, rfl⟩

/-- Two states with the same queues, of the same buffers, for the same blocks in the same places. -/
def SameQueues (k k' : Kernel) : Prop := SameFree k k' ∧ SameHash k k'

namespace SameQueues

theorem trans {k k' k'' : Kernel} (h : SameQueues k k') (h' : SameQueues k' k'') : SameQueues k k'' :=
  ⟨h.1.trans h'.1, h.2.trans h'.2⟩

/-- Memory, requests and drivers are none of the queues' business. -/
theorem of_rest {k k' : Kernel} (hn : k'.nrBuffers = k.nrBuffers) (hb : k'.bh = k.bh)
    (ht : k'.hashTable = k.hashTable) (hf : k'.freeList = k.freeList) : SameQueues k k' := by
  refine ⟨⟨?_, hf, hn⟩, ⟨?_, ht, funext fun i => ?_, funext fun i => ?_, hn⟩⟩
  · simp [Kernel.freeLinks, hb]
  · simp [Kernel.hashLinks, hb]
  · simp [Kernel.key, hb]
  · simp [Kernel.dataOf, hb]

theorem refl (k : Kernel) : SameQueues k k := of_rest rfl rfl rfl rfl

/-- Neither are flags and counts. -/
theorem setBh (k : Kernel) (b : Nat) {f : BufferHead → BufferHead}
    (hf : ∀ x, (f x).bNextFree = x.bNextFree ∧ (f x).bPrevFree = x.bPrevFree ∧ (f x).bNext = x.bNext ∧
      (f x).bPrev = x.bPrev ∧ (f x).bDev = x.bDev ∧ (f x).bBlocknr = x.bBlocknr ∧ (f x).bData = x.bData) :
    SameQueues k (k.setBh b f) :=
  ⟨sameFree_setBh k b (fun x => (hf x).1) fun x => (hf x).2.1,
    ⟨k.hashLinks_setBh b (fun x => (hf x).2.2.1) fun x => (hf x).2.2.2.1, rfl,
      k.key_setBh b (fun x => (hf x).2.2.2.2.1) fun x => (hf x).2.2.2.2.2.1,
      k.dataOf_setBh b fun x => (hf x).2.2.2.2.2.2, rfl⟩⟩

theorem setUptodate (k : Kernel) (b : Nat) (v : Bool) : SameQueues k (k.setUptodate b v) :=
  setBh k b fun _ => ⟨rfl, rfl, rfl, rfl, rfl, rfl, rfl⟩
theorem setDirt (k : Kernel) (b : Nat) (v : Bool) : SameQueues k (k.setDirt b v) :=
  setBh k b fun _ => ⟨rfl, rfl, rfl, rfl, rfl, rfl, rfl⟩
theorem setLock (k : Kernel) (b : Nat) (v : Bool) : SameQueues k (k.setLock b v) :=
  setBh k b fun _ => ⟨rfl, rfl, rfl, rfl, rfl, rfl, rfl⟩
theorem setCount (k : Kernel) (b : Nat) (v : BitVec 8) : SameQueues k (k.setCount b v) :=
  setBh k b fun _ => ⟨rfl, rfl, rfl, rfl, rfl, rfl, rfl⟩

end SameQueues

/-! ## The free list -/

theorem FreeListIs.congr {k k' : Kernel} {l : List Nat} (h : FreeListIs k l) (hs : SameFree k k') :
    FreeListIs k' l :=
  ⟨hs.list.trans h.head, hs.links ▸ h.ring⟩

theorem removeFromFreeList_spec {k : Kernel} {p q : List Nat} {b : Nat}
    (h : FreeListIs k (p ++ b :: q)) (hne : q ++ p ≠ []) :
    ∃ k', removeFromFreeList k b = some k' ∧ FreeListIs k' (p ++ q) ∧ SameHash k k' := by
  have hring : Links.Ring k.freeLinks (b :: (q ++ p)) := by simpa using h.ring.rotate
  obtain ⟨y, hy⟩ : ∃ y, y ∈ (q ++ p).head? := ⟨_, List.head?_eq_some_head hne⟩
  obtain ⟨z, hz⟩ : ∃ z, z ∈ (q ++ p).getLast? := ⟨_, List.getLast?_eq_some_getLast hne⟩
  obtain ⟨hby, hzb, hz', hy'⟩ := hring.around hy hz
  let k1 := (k.setNextFree z (some y)).setPrevFree y (some z)
  let k2 := if k.freeList = some b then k1.setFreeList (some y) else k1
  have hrun : removeFromFreeList k b = some ((k2.setNextFree b none).setPrevFree b none) := by
    simp [removeFromFreeList, Kernel.bPrevFree_eq, Kernel.bNextFree_eq, hby.1, hzb.2, k2, k1]
  have hlinks : ((k2.setNextFree b none).setPrevFree b none).freeLinks = Links.unlink k.freeLinks z b y := by
    by_cases hf : k.freeList = some b <;> simp [k2, k1, hf, Links.unlink]
  refine ⟨_, hrun, ⟨?_, ?_⟩, ?_⟩
  · cases p with
    | nil =>
        have hf : k.freeList = some b := h.head
        simpa [k2, k1, hf, eq_comm] using hy
    | cons a p =>
        have hf : k.freeList = some a := h.head
        have hab : a ≠ b := by
          have hnd := h.ring.nodup
          simp only [List.cons_append, List.nodup_cons] at hnd
          rintro rfl
          simp at hnd
        simp [k2, k1, hf, hab]
  · rw [hlinks]
    exact (hring.unlink hy hz).rotate
  · by_cases hf : k.freeList = some b <;> constructor <;> simp [k2, k1, hf]

theorem appendFree_spec {k : Kernel} {l : List Nat} {b : Nat} (h : FreeListIs k l) (hl : l ≠ []) (hb : b ∉ l) :
    ∃ k', appendFree k b = some k' ∧ FreeListIs k' (l ++ [b]) ∧ SameHash k k' := by
  obtain ⟨y, hy⟩ : ∃ y, y ∈ l.head? := ⟨_, List.head?_eq_some_head hl⟩
  obtain ⟨z, hz⟩ : ∃ z, z ∈ l.getLast? := ⟨_, List.getLast?_eq_some_getLast hl⟩
  have hzy : Links.Linked k.freeLinks z y := h.ring.wrap z hz y hy
  have hf : k.freeList = some y := h.head.trans hy
  have hrun : appendFree k b = some ((((k.setNextFree b (some y)).setPrevFree b (some z)).setNextFree z
      (some b)).setPrevFree y (some b)) := by
    simp [appendFree, Kernel.bPrevFree_eq, hf, hzy.2]
  refine ⟨_, hrun, ⟨?_, ?_⟩, by constructor <;> simp⟩
  · rw [List.head?_append, Option.mem_def.mp hy]
    exact hf
  · simpa [Links.linkBetween] using h.ring.linkLast hb hy hz

theorem putLastFree_spec {k : Kernel} {l : List Nat} {b : Nat} (h : FreeListIs k l) (hb : b ∈ l)
    (htwo : 2 ≤ l.length) :
    ∃ k' l', putLastFree k b = some k' ∧ FreeListIs k' l' ∧ l'.Perm l ∧ SameHash k k' := by
  obtain ⟨p, q, rfl⟩ := List.append_of_mem hb
  have hpq : q ++ p ≠ [] := by
    rintro hnil
    obtain ⟨rfl, rfl⟩ := List.append_eq_nil_iff.mp hnil
    simp at htwo
  have hbpq : b ∉ p ++ q := by
    have hnd := List.nodup_middle.mp h.ring.nodup
    exact (List.nodup_cons.mp hnd).1
  by_cases hf : some b = k.freeList
  · -- `b` is the first: the list is the same, cut open one further on
    have hp : p = [] := by
      cases p with
      | nil => rfl
      | cons a p =>
          obtain rfl : a = b := Option.some.inj ((hf.trans h.head).symm)
          exact absurd List.mem_cons_self hbpq
    subst hp
    obtain ⟨y, hy⟩ : ∃ y, y ∈ (q ++ []).head? := ⟨_, List.head?_eq_some_head hpq⟩
    rw [List.append_nil] at hy
    have hby : Links.Linked k.freeLinks b y := (List.isChain_cons.mp h.ring.chain).1 y hy
    refine ⟨k.setFreeList (k.bh b).bNextFree, q ++ [b], by rw [putLastFree, if_pos hf], ⟨?_, ?_⟩, ?_, ?_⟩
    · rw [List.head?_append, Option.mem_def.mp hy]
      exact hby.1
    · simpa using Links.Ring.rotate (a := [b]) h.ring
    · simp
    · constructor <;> simp
  · obtain ⟨k1, hrem, hl1, hs1⟩ := removeFromFreeList_spec h hpq
    obtain ⟨k2, happ, hl2, hs2⟩ := appendFree_spec hl1
      (fun hnil => hpq (by simpa [and_comm] using hnil)) hbpq
    refine ⟨k2, p ++ q ++ [b], ?_, hl2, ?_, hs1.trans hs2⟩
    · rw [putLastFree, if_neg hf]
      simp [hrem, happ]
    · exact (List.perm_append_singleton b (p ++ q)).trans List.perm_middle.symm

/-! ## The hash chains -/

theorem hashOf_eq (k : Kernel) (i : Nat) : k.hashOf i = hashfn (k.key i).1 (k.key i).2 := rfl

theorem sameFree_removeFromHashQueue (k : Kernel) (b : Nat) :
    SameFree k (removeFromHashQueue k b) ∧ (removeFromHashQueue k b).key = k.key ∧
      (removeFromHashQueue k b).dataOf = k.dataOf := by
  unfold removeFromHashQueue advanceHead bridgeNext bridgePrev
  refine ⟨⟨?_, ?_, ?_⟩, ?_, ?_⟩ <;> (repeat' split) <;> simp

theorem hashLinks_bridgePrev (k : Kernel) (b : Nat) :
    (bridgePrev k b).hashLinks = k.hashLinks.bridgePrev b := by
  unfold bridgePrev Links.Fields.bridgePrev
  simp only [Kernel.bNext_eq, Kernel.bPrev_eq]
  cases k.hashLinks.next b <;> simp

theorem hashLinks_bridgeNext (k : Kernel) (b : Nat) :
    (bridgeNext k b).hashLinks = k.hashLinks.bridgeNext b := by
  unfold bridgeNext Links.Fields.bridgeNext
  simp only [Kernel.bNext_eq, Kernel.bPrev_eq]
  cases k.hashLinks.prev b <;> simp

theorem hashLinks_advanceHead (k : Kernel) (b : Nat) : (advanceHead k b).hashLinks = k.hashLinks := by
  unfold advanceHead
  split <;> rfl

theorem hashLinks_removeFromHashQueue (k : Kernel) (b : Nat) :
    (removeFromHashQueue k b).hashLinks = Links.detach k.hashLinks b := by
  simp only [removeFromHashQueue, Kernel.hashLinks_setPrev, Kernel.hashLinks_setNext, hashLinks_advanceHead,
    hashLinks_bridgeNext, hashLinks_bridgePrev, Links.detach]

theorem hashTable_removeFromHashQueue {k : Kernel} {b : Nat} (hn : (k.bh b).bNext ≠ some b)
    (hp : (k.bh b).bPrev ≠ some b) (h : Nat) :
    (removeFromHashQueue k b).hashTable h =
      if h = k.hashOf b ∧ k.hashTable h = some b then (k.bh b).bNext else k.hashTable h := by
  have htable : (bridgeNext (bridgePrev k b) b).hashTable = k.hashTable := by
    unfold bridgeNext bridgePrev
    (repeat' split) <;> rfl
  have hkey : (bridgeNext (bridgePrev k b) b).key = k.key := by
    unfold bridgeNext bridgePrev
    (repeat' split) <;> simp
  have hnext : (bridgeNext (bridgePrev k b) b).hashLinks.next b = k.hashLinks.next b := by
    rw [hashLinks_bridgeNext, hashLinks_bridgePrev]
    exact Links.Fields.bridge_next hn hp
  have hhash : (bridgeNext (bridgePrev k b) b).hashOf b = k.hashOf b := by
    rw [hashOf_eq, hkey, ← hashOf_eq]
  simp only [removeFromHashQueue, advanceHead, Kernel.hashTable_setPrev, Kernel.hashTable_setNext, htable, hhash,
    Kernel.bNext_eq, hnext]
  by_cases hh : h = k.hashOf b
  · subst hh
    split <;> simp_all
  · split <;> simp [hh, htable]

theorem HashQueues.congr {k k' : Kernel} {S : Nat → Prop} (h : HashQueues k S)
    (hlinks : k'.hashLinks = k.hashLinks) (htable : k'.hashTable = k.hashTable)
    (hkey : ∀ i, S i → k'.key i = k.key i) : HashQueues k' S where
  chain := by
    intro x hx
    obtain ⟨l, hl, hmem⟩ := h.chain x hx
    refine ⟨l, by rw [hlinks, htable]; exact hl, fun i => (hmem i).trans ?_⟩
    refine and_congr_right fun hi => ?_
    rw [hashOf_eq, hashOf_eq, Kernel.bDev_eq, Kernel.bDev_eq, hkey i hi]
  unhashed := by
    intro i hi hd
    rw [Kernel.bNext_eq, Kernel.bPrev_eq, hlinks]
    refine h.unhashed i hi ?_
    rwa [Kernel.bDev_eq, ← hkey i hi]

theorem HashQueues.iff {k : Kernel} {S T : Nat → Prop} (h : HashQueues k S) (hST : ∀ i, S i ↔ T i) :
    HashQueues k T := by
  have he : S = T := funext fun i => propext (hST i)
  exact he ▸ h

/-- What stands next to a buffer on its hash chain. -/
theorem HashQueues.neighbour {k : Kernel} {S : Nat → Prop} (h : HashQueues k S) {b u : Nat} (hb : S b)
    (hu : (k.bh b).bNext = some u ∨ (k.bh b).bPrev = some u) :
    u ≠ b ∧ (k.bh b).bDev ≠ 0 ∧ (k.bh u).bDev ≠ 0 ∧ k.hashOf u = k.hashOf b := by
  have hdev : (k.bh b).bDev ≠ 0 := by
    intro hd
    obtain ⟨hn, hp⟩ := h.unhashed b hb hd
    rw [hn, hp] at hu
    simp at hu
  obtain ⟨l, hl, hmem⟩ := h.chain (k.hashOf b) (Nat.mod_lt _ (by decide))
  obtain ⟨p, q, rfl⟩ := List.append_of_mem ((hmem b).mpr ⟨hb, hdev, rfl⟩)
  have hnd := List.nodup_middle.mp hl.nodup
  have hupq : u ∈ p ++ q := by
    obtain ⟨hp, hn⟩ := hl.fields
    rcases hu with hu | hu
    · exact List.mem_append_right _ (List.mem_of_mem_head? (hn.symm.trans hu))
    · exact List.mem_append_left _ (List.mem_of_getLast? (hp.symm.trans hu))
  have hu' : u ∈ p ++ b :: q := List.perm_middle.mem_iff.mpr (List.mem_cons_of_mem _ hupq)
  exact ⟨fun he => (List.nodup_cons.mp hnd).1 (he ▸ hupq), hdev, ((hmem u).mp hu').2⟩

/-- `remove_from_hash_queue` takes the buffer off its chain, and disturbs no other. -/
theorem HashQueues.remove {k : Kernel} {S : Nat → Prop} (h : HashQueues k S) {b : Nat} (hb : S b) :
    HashQueues (removeFromHashQueue k b) fun i => S i ∧ i ≠ b := by
  have hn : (k.bh b).bNext ≠ some b := fun he => (h.neighbour hb (.inl he)).1 rfl
  have hp : (k.bh b).bPrev ≠ some b := fun he => (h.neighbour hb (.inr he)).1 rfl
  have hkey : (removeFromHashQueue k b).key = k.key := (sameFree_removeFromHashQueue k b).2.1
  have hdev : ∀ i, ((removeFromHashQueue k b).bh i).bDev = (k.bh i).bDev := fun i => by
    rw [Kernel.bDev_eq, hkey, ← Kernel.bDev_eq]
  have hhash : ∀ i, (removeFromHashQueue k b).hashOf i = k.hashOf i := fun i => by
    rw [hashOf_eq, hkey, ← hashOf_eq]
  -- a buffer that is not a neighbour of `b` keeps its links
  have hkeep : ∀ i, i ≠ b → ¬ ((k.bh b).bDev ≠ 0 ∧ (k.bh i).bDev ≠ 0 ∧ k.hashOf i = k.hashOf b) →
      (Links.detach k.hashLinks b).next i = k.hashLinks.next i ∧
      (Links.detach k.hashLinks b).prev i = k.hashLinks.prev i := by
    intro i hib hi
    obtain ⟨h1, h2⟩ := not_or.mp fun hu => hi (h.neighbour hb hu).2
    exact ⟨(Links.detach_next hn i).trans ((if_neg hib).trans (if_neg h2)),
      (Links.detach_prev hn i).trans ((if_neg hib).trans (if_neg h1))⟩
  refine ⟨fun x hx => ?_, fun i hi hd => ?_⟩
  · obtain ⟨l, hl, hmem⟩ := h.chain x hx
    rw [hashLinks_removeFromHashQueue, hashTable_removeFromHashQueue hn hp]
    simp only [hdev, hhash]
    by_cases hbl : b ∈ l
    · obtain ⟨p, q, rfl⟩ := List.append_of_mem hbl
      have hxb : x = k.hashOf b := ((hmem b).mp hbl).2.2.symm
      refine ⟨p ++ q, by simpa [hxb, Kernel.bNext_eq] using hl.detach, fun i => ?_⟩
      have hnd := List.nodup_middle.mp hl.nodup
      have hmid : i ∈ p ++ b :: q ↔ i ∈ b :: (p ++ q) := List.perm_middle.mem_iff
      constructor
      · intro hi
        have hib : i ≠ b := fun he => (List.nodup_cons.mp hnd).1 (he ▸ hi)
        have := (hmem i).mp (hmid.mpr (List.mem_cons_of_mem _ hi))
        exact ⟨⟨this.1, hib⟩, this.2⟩
      · rintro ⟨⟨hi, hib⟩, hi'⟩
        exact (List.mem_cons.mp (hmid.mp ((hmem i).mpr ⟨hi, hi'⟩))).resolve_left hib
    · have hhead : k.hashTable x ≠ some b := fun he =>
        hbl (List.mem_of_mem_head? (hl.head.symm.trans he))
      have hother : ∀ i ∈ l, ¬ ((k.bh b).bDev ≠ 0 ∧ (k.bh i).bDev ≠ 0 ∧ k.hashOf i = k.hashOf b) :=
        fun i hi hc => hbl ((hmem b).mpr ⟨hb, hc.1, hc.2.2.symm.trans ((hmem i).mp hi).2.2⟩)
      refine ⟨l, ?_, fun i => ?_⟩
      · rw [if_neg (fun he => hhead he.2)]
        exact hl.congr (fun i hi => (hkeep i (fun he => hbl (he ▸ hi)) (hother i hi)).1)
          fun i hi => (hkeep i (fun he => hbl (he ▸ hi)) (hother i hi)).2
      · have hib : i ∈ l → i ≠ b := fun hi he => hbl (he ▸ hi)
        rw [hmem i] at *
        tauto
  · have hkb := hkeep i hi.2 fun hc => hc.2.1 (hdev i ▸ hd)
    rw [Kernel.bNext_eq, Kernel.bPrev_eq, hashLinks_removeFromHashQueue, hkb.1, hkb.2]
    exact h.unhashed i hi.1 (hdev i ▸ hd)

theorem sameFree_pushHash (k : Kernel) (b : Nat) :
    SameFree k (pushHash k b) ∧ (pushHash k b).key = k.key ∧ (pushHash k b).dataOf = k.dataOf := by
  unfold pushHash
  dsimp only
  refine ⟨⟨?_, ?_, ?_⟩, ?_, ?_⟩ <;> (repeat' split) <;> simp

/-- With a device, the buffer is attached to its chain; without, only its links are cleared. -/
theorem pushHash_eq (k : Kernel) (b : Nat) :
    if (k.bh b).bDev = 0 then
      (pushHash k b).hashLinks = (k.hashLinks.setPrev b none).setNext b none ∧
        (pushHash k b).hashTable = k.hashTable
    else
      (pushHash k b).hashLinks = Links.attach k.hashLinks (k.hashTable (k.hashOf b)) b ∧
        ∀ h, (pushHash k b).hashTable h = if h = k.hashOf b then some b else k.hashTable h := by
  have hdev : (((k.setPrev b none).setNext b none).bh b).bDev = (k.bh b).bDev := by simp [Kernel.bDev_eq]
  have hhash : ((k.setPrev b none).setNext b none).hashOf b = k.hashOf b := by simp [hashOf_eq]
  have hhash' : ∀ v, (((k.setPrev b none).setNext b none).setNext b v).hashOf b = k.hashOf b := by
    simp [hashOf_eq]
  unfold pushHash
  dsimp only
  rw [hdev]
  split
  · simp
  · simp only [hhash, hhash', Kernel.bNext_eq, Kernel.hashLinks_setHash, Kernel.hashLinks_setNext,
      Kernel.hashTable_setNext, Kernel.hashTable_setPrev, Links.Fields.setNext_next, if_pos, Links.attach,
      Links.Fields.setNext_setNext]
    cases k.hashTable (k.hashOf b) <;> simp

/-- The second half of `insert_into_queues` puts a buffer on its chain, and disturbs no other. -/
theorem HashQueues.push {k : Kernel} {S : Nat → Prop} (h : HashQueues k S) {b : Nat} (hb : ¬ S b) :
    HashQueues (pushHash k b) fun i => S i ∨ i = b := by
  have hkey : (pushHash k b).key = k.key := (sameFree_pushHash k b).2.1
  have hdev : ∀ i, ((pushHash k b).bh i).bDev = (k.bh i).bDev := fun i => by
    rw [Kernel.bDev_eq, hkey, ← Kernel.bDev_eq]
  have hhash : ∀ i, (pushHash k b).hashOf i = k.hashOf i := fun i => by
    rw [hashOf_eq, hkey, ← hashOf_eq]
  have heq := pushHash_eq k b
  by_cases hd : (k.bh b).bDev = 0
  · rw [if_pos hd] at heq
    obtain ⟨hlinks, htable⟩ := heq
    have hkeep : ∀ i, S i → (pushHash k b).hashLinks.next i = k.hashLinks.next i ∧
        (pushHash k b).hashLinks.prev i = k.hashLinks.prev i := by
      intro i hi
      have hib : i ≠ b := fun he => hb (he ▸ hi)
      simp [hlinks, hib]
    refine ⟨fun x hx => ?_, fun i hi hdi => ?_⟩
    · obtain ⟨l, hl, hmem⟩ := h.chain x hx
      refine ⟨l, ?_, fun i => ?_⟩
      · rw [htable]
        exact hl.congr (fun i hi => (hkeep i ((hmem i).mp hi).1).1) fun i hi => (hkeep i ((hmem i).mp hi).1).2
      · rw [hmem i, hdev, hhash]
        refine ⟨fun hi => ⟨.inl hi.1, hi.2⟩, fun hi => ⟨hi.1.resolve_right ?_, hi.2⟩⟩
        rintro rfl
        exact hi.2.1 hd
    · rw [Kernel.bNext_eq, Kernel.bPrev_eq]
      rcases hi with hi | rfl
      · rw [(hkeep i hi).1, (hkeep i hi).2]
        exact h.unhashed i hi (hdev i ▸ hdi)
      · simp [hlinks]
  · rw [if_neg hd] at heq
    obtain ⟨hlinks, htable⟩ := heq
    obtain ⟨l, hl, hmem⟩ := h.chain (k.hashOf b) (Nat.mod_lt _ (by decide))
    have hbl : b ∉ l := fun hi => hb ((hmem b).mp hi).1
    have hhead : k.hashTable (k.hashOf b) ≠ some b := fun he =>
      hbl (List.mem_of_mem_head? (hl.head.symm.trans he))
    -- only `b` and the old head of its chain are touched
    have hkeep : ∀ i, S i → ¬ ((k.bh i).bDev ≠ 0 ∧ k.hashOf i = k.hashOf b) →
        (pushHash k b).hashLinks.next i = k.hashLinks.next i ∧
        (pushHash k b).hashLinks.prev i = k.hashLinks.prev i := by
      intro i hi hc
      have hib : i ≠ b := fun he => hb (he ▸ hi)
      have hne : k.hashTable (k.hashOf b) ≠ some i := fun he =>
        hc ((hmem i).mp (List.mem_of_mem_head? (hl.head.symm.trans he))).2
      rw [hlinks, Links.attach_next, Links.attach_prev hhead, if_neg hib, if_neg hib, if_neg hne]
      exact ⟨rfl, rfl⟩
    refine ⟨fun x hx => ?_, fun i hi hdi => ?_⟩
    · simp only [hdev, hhash, htable]
      by_cases hxb : x = k.hashOf b
      · subst hxb
        rw [if_pos rfl, hlinks]
        refine ⟨b :: l, hl.attach hbl, fun i => ?_⟩
        rw [List.mem_cons, hmem i]
        refine ⟨fun hi => ?_, fun hi => ?_⟩
        · rcases hi with rfl | hi
          · exact ⟨.inr rfl, hd, rfl⟩
          · exact ⟨.inl hi.1, hi.2⟩
        · exact hi.1.elim (fun hS => .inr ⟨hS, hi.2⟩) .inl
      · rw [if_neg hxb]
        obtain ⟨m, hm, hmem'⟩ := h.chain x hx
        have hoff : ∀ i ∈ m, ¬ ((k.bh i).bDev ≠ 0 ∧ k.hashOf i = k.hashOf b) := fun i hi hc =>
          hxb (((hmem' i).mp hi).2.2.symm.trans hc.2)
        refine ⟨m, hm.congr (fun i hi => (hkeep i ((hmem' i).mp hi).1 (hoff i hi)).1)
          fun i hi => (hkeep i ((hmem' i).mp hi).1 (hoff i hi)).2, fun i => ?_⟩
        rw [hmem' i]
        refine ⟨fun hi => ⟨.inl hi.1, hi.2⟩, fun hi => ⟨hi.1.resolve_right ?_, hi.2⟩⟩
        rintro rfl
        exact hxb hi.2.2.symm
    · rw [hdev] at hdi
      have hi' : S i := hi.resolve_right fun he => hd (he ▸ hdi)
      rw [Kernel.bNext_eq, Kernel.bPrev_eq, (hkeep i hi' fun hc => hc.1 hdi).1, (hkeep i hi' fun hc => hc.1 hdi).2]
      exact h.unhashed i hi' hdi

/-! ## `find_buffer` -/

/-- The test of the loop of `find_buffer`. -/
def isBlock (k : Kernel) (dev : Dev) (block : Block) (i : Nat) : Bool :=
  (k.bh i).bDev = dev ∧ (k.bh i).bBlocknr = block

theorem findFrom_eq {k : Kernel} (dev : Dev) (block : Block) {l : List Nat} :
    ∀ {fuel : Nat}, l.length < fuel → l.IsChain (Links.Linked k.hashLinks) →
      (∀ z ∈ l.getLast?, (k.bh z).bNext = none) →
      findFrom k dev block fuel l.head? = l.find? (isBlock k dev block) := by
  induction l with
  | nil =>
      intro fuel hf _ _
      cases fuel <;> simp [findFrom]
  | cons x l ih =>
      intro fuel hf hc hl
      obtain ⟨fuel, rfl⟩ : ∃ m, fuel = m + 1 := ⟨fuel - 1, by simp at hf; omega⟩
      have hnext : (k.bh x).bNext = l.head? := by
        cases l with
        | nil => exact hl x rfl
        | cons y l => exact ((List.isChain_cons.mp hc).1 y rfl).1
      rw [List.head?_cons, findFrom, hnext]
      by_cases hx : (k.bh x).bDev = dev ∧ (k.bh x).bBlocknr = block
      · rw [if_pos hx, List.find?_cons_of_pos (by simpa [isBlock] using hx)]
      · rw [if_neg hx, List.find?_cons_of_neg (by simpa [isBlock] using hx)]
        refine ih (by simpa using hf) (List.isChain_cons.mp hc).2 fun z hz => hl z ?_
        cases l with
        | nil => simp at hz
        | cons y l => rwa [List.getLast?_cons_cons]

theorem RepInv.chain_length {k : Kernel} {l : List Nat} (hnd : l.Nodup) (hl : ∀ i ∈ l, i < k.nrBuffers) :
    l.length < k.nrBuffers + 1 := by
  have hsub := (List.Nodup.subperm hnd fun i hi => List.mem_range.mpr (hl i hi)).length_le
  rw [List.length_range] at hsub
  omega

/-- `find_buffer` is a search in the chain of the block. -/
theorem RepInv.findBuffer_eq {k : Kernel} (h : RepInv k) (dev : Dev) (block : Block) :
    ∃ l : List Nat, findBuffer k dev block = l.find? (isBlock k dev block) ∧
      ∀ i, i ∈ l ↔ i < k.nrBuffers ∧ (k.bh i).bDev ≠ 0 ∧ k.hashOf i = hashfn dev block := by
  obtain ⟨l, hl, hmem⟩ := h.hash.chain (hashfn dev block) (Nat.mod_lt _ (by decide))
  refine ⟨l, ?_, hmem⟩
  rw [findBuffer, hl.head]
  exact findFrom_eq dev block (RepInv.chain_length hl.nodup fun i hi => ((hmem i).mp hi).1) hl.chain hl.last

theorem RepInv.findBuffer_some {k : Kernel} (h : RepInv k) {dev : Dev} {block : Block} {i : Nat}
    (hf : findBuffer k dev block = some i) : i < k.nrBuffers ∧ k.key i = (dev, block) := by
  obtain ⟨l, hl, hmem⟩ := h.findBuffer_eq dev block
  rw [hl] at hf
  have hkey := List.find?_some hf
  simp only [isBlock, decide_eq_true_eq] at hkey
  exact ⟨((hmem i).mp (List.mem_of_find?_eq_some hf)).1, Prod.ext hkey.1 hkey.2⟩

/-- A failed `find_buffer` proves that no buffer stands for the block. -/
theorem RepInv.findBuffer_none {k : Kernel} (h : RepInv k) {dev : Dev} {block : Block} (hd : dev ≠ 0)
    (hf : findBuffer k dev block = none) {i : Nat} (hi : i < k.nrBuffers) : k.key i ≠ (dev, block) := by
  obtain ⟨l, hl, hmem⟩ := h.findBuffer_eq dev block
  rw [hl, List.find?_eq_none] at hf
  intro hkey
  obtain ⟨hdev, hblock⟩ := Prod.mk.inj hkey
  refine hf i ((hmem i).mpr ⟨hi, hdev ▸ hd, ?_⟩) ?_
  · rw [Kernel.hashOf, hdev, hblock]
  · simp [isBlock, hdev, hblock]

/-! ## The invariant is kept -/

theorem UniqueKeys.congr {k k' : Kernel} {S : Nat → Prop} (h : UniqueKeys k S)
    (hkey : ∀ i, S i → k'.key i = k.key i) : UniqueKeys k' S := by
  intro i j hi hj hd hij
  refine h i j hi hj ?_ (by rw [← hkey i hi, ← hkey j hj, hij])
  rwa [Kernel.bDev_eq, ← hkey i hi]

/-- Only the queues, the blocks and the number of buffers matter to the invariant. -/
theorem RepInv.of_queues {k k' : Kernel} (h : RepInv k) (hf : SameFree k k') (hlinks : k'.hashLinks = k.hashLinks)
    (htable : k'.hashTable = k.hashTable) (hkey : k'.key = k.key) : RepInv k' := by
  obtain ⟨two, ⟨l, hl, hmem⟩, hash, unique⟩ := h
  refine ⟨hf.nr ▸ two, ⟨l, ⟨hf.list ▸ hl.head, hf.links ▸ hl.ring⟩, by rwa [hf.nr]⟩, ?_, ?_⟩
  · rw [hf.nr]
    exact hash.congr hlinks htable fun i _ => congrFun hkey i
  · rw [hf.nr]
    exact unique.congr fun i _ => congrFun hkey i

theorem RepInv.congr {k k' : Kernel} (h : RepInv k) (hs : SameQueues k k') : RepInv k' :=
  h.of_queues hs.1 hs.2.links hs.2.table hs.2.key

/-- Where the contents of a buffer are does not matter. -/
theorem RepInv.setData {k : Kernel} (h : RepInv k) (b : Nat) (v : X86.Addr) : RepInv (k.setData b v) :=
  h.of_queues (sameFree_setBh k b (fun _ => rfl) fun _ => rfl)
    (k.hashLinks_setBh b (fun _ => rfl) fun _ => rfl) rfl (k.key_setBh b (fun _ => rfl) fun _ => rfl)

/-- `put_last_free` keeps the invariant. -/
theorem RepInv.putLastFree {k : Kernel} (h : RepInv k) {b : Nat} (hb : b < k.nrBuffers) :
    ∃ k', putLastFree k b = some k' ∧ RepInv k' ∧ k'.nrBuffers = k.nrBuffers ∧ k'.dataOf = k.dataOf := by
  obtain ⟨two, ⟨l, hl, hmem⟩, hash, unique⟩ := h
  have hlen : 2 ≤ l.length := by
    have hle := (List.Nodup.subperm List.nodup_range fun i hi =>
      (hmem i).mpr (List.mem_range.mp hi)).length_le
    rw [List.length_range] at hle
    exact two.trans hle
  obtain ⟨k', l', hrun, hl', hperm, hsame⟩ := putLastFree_spec hl ((hmem b).mpr hb) hlen
  refine ⟨k', hrun, ⟨hsame.nr ▸ two, ⟨l', hl', fun i => ?_⟩, ?_, ?_⟩, hsame.nr, hsame.data⟩
  · rw [hperm.mem_iff, hmem, hsame.nr]
  · rw [hsame.nr]
    exact hash.congr hsame.links hsame.table fun i _ => congrFun hsame.key i
  · rw [hsame.nr]
    exact unique.congr fun i _ => congrFun hsame.key i

/-- **A buffer that is taken out of the queues, given to a block that no other has, and queued again.** -/
theorem RepInv.requeue {k : Kernel} (h : RepInv k) {dev : Dev} {block : Block} {b : Nat} (hb : b < k.nrBuffers)
    (hnew : dev ≠ 0 → ∀ i < k.nrBuffers, i ≠ b → k.key i ≠ (dev, block)) :
    ∃ k2 k4, removeFromQueues k b = some k2 ∧ k2.key = k.key ∧
      appendFree (k2.setBh b fun h => { h with bDev := dev, bBlocknr := block }) b = some k4 ∧
      HashQueues k4 (fun i => i < k.nrBuffers ∧ i ≠ b) ∧ (∀ i, k4.key i = if i = b then (dev, block) else k.key i) ∧
      RepInv (pushHash k4 b) ∧ (pushHash k4 b).nrBuffers = k.nrBuffers ∧ (pushHash k4 b).dataOf = k.dataOf := by
  obtain ⟨two, ⟨l, hl, hmem⟩, hash, unique⟩ := h
  obtain ⟨p, q, rfl⟩ := List.append_of_mem ((hmem b).mpr hb)
  have hnd := List.nodup_cons.mp (List.nodup_middle.mp hl.ring.nodup)
  have hrest : ∀ i, i ∈ p ++ q ↔ i < k.nrBuffers ∧ i ≠ b := by
    intro i
    rw [← hmem i, List.perm_middle.mem_iff, List.mem_cons]
    refine ⟨fun hi => ⟨.inr hi, fun he => hnd.1 (he ▸ hi)⟩, fun hi => hi.1.resolve_left hi.2⟩
  have hpq : p ++ q ≠ [] := by
    -- there are two buffers, so one of 0 and 1 is not `b`
    have hne : ∃ i, i < k.nrBuffers ∧ i ≠ b := by
      by_cases hb0 : b = 0
      · exact ⟨1, by omega, by omega⟩
      · exact ⟨0, by omega, fun he => hb0 he.symm⟩
    obtain ⟨i, hi⟩ := hne
    exact List.ne_nil_of_mem ((hrest i).mpr hi)
  obtain ⟨hfree1, hkey1, hdata1⟩ := sameFree_removeFromHashQueue k b
  have hl1 : FreeListIs (removeFromHashQueue k b) (p ++ b :: q) := hl.congr hfree1
  obtain ⟨k2, hrun2, hl2, hsame2⟩ := removeFromFreeList_spec hl1 fun hnil =>
    hpq (List.append_eq_nil_iff.mpr (List.append_eq_nil_iff.mp hnil).symm)
  let k3 := k2.setBh b fun h => { h with bDev := dev, bBlocknr := block }
  have hkey3 : ∀ i, k3.key i = if i = b then (dev, block) else k.key i := by
    intro i
    have hk2 : k2.key i = k.key i := by rw [hsame2.key, hkey1]
    by_cases hib : i = b
    · simp [k3, Kernel.key, Kernel.setBh, hib]
    · rw [if_neg hib, ← hk2]
      simp [k3, Kernel.key, Kernel.setBh, hib]
  have hhash3 : HashQueues k3 fun i => i < k.nrBuffers ∧ i ≠ b := by
    refine (hash.remove hb).congr ?_ hsame2.table fun i hi => ?_
    · rw [← hsame2.links]
      exact Kernel.hashLinks_setBh _ _ (fun _ => rfl) fun _ => rfl
    · rw [hkey3, if_neg hi.2, hkey1]
  have hl3 : FreeListIs k3 (p ++ q) := hl2.congr (sameFree_setBh k2 b (fun _ => rfl) fun _ => rfl)
  obtain ⟨k4, hrun4, hl4, hsame4⟩ := appendFree_spec hl3 hpq hnd.1
  obtain ⟨hfree5, hkey5, hdata5⟩ := sameFree_pushHash k4 b
  have hhash4 : HashQueues k4 fun i => i < k.nrBuffers ∧ i ≠ b :=
    hhash3.congr hsame4.links hsame4.table fun i _ => congrFun hsame4.key i
  have hkey4 : ∀ i, k4.key i = if i = b then (dev, block) else k.key i := fun i => by rw [hsame4.key, hkey3]
  have hnr : (pushHash k4 b).nrBuffers = k.nrBuffers :=
    hfree5.nr.trans (hsame4.nr.trans (hsame2.nr.trans hfree1.nr))
  have hdata : (pushHash k4 b).dataOf = k.dataOf := by
    have hdata3 : k3.dataOf = k2.dataOf := Kernel.dataOf_setBh _ _ fun _ => rfl
    rw [hdata5, hsame4.data, hdata3, hsame2.data, hdata1]
  have hkey : ∀ i, (pushHash k4 b).key i = if i = b then (dev, block) else k.key i := fun i => by rw [hkey5, hkey4]
  refine ⟨k2, k4, hrun2, hsame2.key.trans hkey1, hrun4, hhash4, hkey4,
    ⟨hnr ▸ two, ⟨p ++ q ++ [b], hl4.congr hfree5, fun i => ?_⟩, ?_, ?_⟩, hnr, hdata⟩
  · rw [List.mem_append, List.mem_singleton, hrest, hnr]
    by_cases hib : i = b
    · simpa [hib] using hb
    · simp [hib]
  · have hpush := hhash4.push (b := b) fun hc => hc.2 rfl
    rw [hnr]
    refine hpush.iff fun i => ?_
    by_cases hib : i = b
    · simpa [hib] using hb
    · simp [hib]
  · intro i j hi hj hd hij
    rw [hnr] at hi hj
    rw [Kernel.bDev_eq, hkey] at hd
    rw [hkey, hkey] at hij
    by_cases hib : i = b <;> by_cases hjb : j = b
    · exact hib.trans hjb.symm
    · simp only [hib, hjb, if_pos, if_false] at hd hij
      exact absurd hij.symm (hnew hd j hj hjb)
    · rw [if_neg hib, if_pos hjb] at hij
      rw [if_neg hib, hij] at hd
      exact absurd hij (hnew hd i hi hib)
    · rw [if_neg hib] at hd
      rw [if_neg hib, if_neg hjb] at hij
      exact unique i j hi hj hd hij

/-- **Giving a buffer to a block that has none keeps the invariant.** -/
theorem RepInv.reuse {k : Kernel} (h : RepInv k) {dev : Dev} {block : Block} {b : Nat}
    (hb : b < k.nrBuffers) (hf : findBuffer k dev block = none) :
    ∃ k', reuse k dev block b = some k' ∧ RepInv k' ∧ k'.nrBuffers = k.nrBuffers ∧ k'.dataOf = k.dataOf := by
  have hsame : SameQueues k (((k.setCount b 1).setDirt b false).setUptodate b false) :=
    ((SameQueues.setCount k b 1).trans (.setDirt _ b false)).trans (.setUptodate _ b false)
  have hnew : dev ≠ 0 → ∀ i < k.nrBuffers, i ≠ b →
      (((k.setCount b 1).setDirt b false).setUptodate b false).key i ≠ (dev, block) := by
    intro hd i hi _
    rw [hsame.2.key]
    exact h.findBuffer_none hd hf hi
  obtain ⟨k2, k4, hrem, -, happ, -, -, hrep, hnr, hdata⟩ := (h.congr hsame).requeue hb hnew
  refine ⟨pushHash k4 b, ?_, hrep, hnr, hdata.trans hsame.2.data⟩
  rw [Fs.reuse]
  change (removeFromQueues _ b).bind _ = _
  rw [hrem]
  change (appendFree _ b).bind _ = _
  rw [happ]
  rfl

/-! ## `buffer_init` -/

/-- What the loop of `buffer_init` leaves in the `i`-th buffer head. -/
structure Fresh (k : Kernel) (i : Nat) : Prop where
  dev : (k.bh i).bDev = 0
  next : (k.bh i).bNext = none
  prev : (k.bh i).bPrev = none
  nextFree : (k.bh i).bNextFree = some (i + 1)
  prevFree : (k.bh i).bPrevFree = some (i - 1)

/-- The loop of `buffer_init` numbers the buffer heads it fills in. -/
theorem initFrom_fresh (start : Nat) (k : Kernel) (h b : Nat) (hnr : k.nrBuffers = h)
    (hfresh : ∀ i < h, Fresh k i) :
    (initFrom start k h b).1.nrBuffers = (initFrom start k h b).2 ∧
      ∀ i < (initFrom start k h b).2, Fresh (initFrom start k h b).1 i := by
  induction k, h, b using initFrom.induct start with
  | case1 k h b hb ih =>
      rw [initFrom, dif_pos hb]
      refine ih ?_ fun i hi => ?_
      · simp [initHead, hnr]
      · by_cases hih : i = h
        · subst hih
          constructor <;> simp [initHead, Kernel.setBh]
        · have hf := hfresh i (by omega)
          constructor <;>
            simp [initHead, Kernel.setBh, hih, hf.dev, hf.next, hf.prev, hf.nextFree, hf.prevFree]
  | case2 k h b hb =>
      rw [initFrom, dif_neg hb]
      exact ⟨hnr, hfresh⟩

/-- **`buffer_init` establishes the invariant**, as soon as there is room for two buffers. -/
theorem bufferInit_repInv {start bufferEnd : Nat} {k : Kernel} (h0 : k.nrBuffers = 0)
    (h2 : 2 ≤ (bufferInit start bufferEnd k).nrBuffers) : RepInv (bufferInit start bufferEnd k) := by
  obtain ⟨hnr, hfresh⟩ := initFrom_fresh start k 0 (if bufferEnd = 1 <<< 20 then 640 * 1024 else bufferEnd)
    h0 (by simp)
  revert hnr hfresh h2
  unfold bufferInit
  generalize initFrom start k 0 (if bufferEnd = 1 <<< 20 then 640 * 1024 else bufferEnd) = r
  obtain ⟨k1, h⟩ := r
  dsimp only
  intro h2 hnr hfresh
  simp only [Kernel.nrBuffers_setNextFree, Kernel.nrBuffers_setPrevFree, Kernel.nrBuffers_setFreeList] at h2
  rw [hnr] at h2
  generalize hk4 : ((k1.setFreeList (some 0)).setPrevFree 0 (some (h - 1))).setNextFree (h - 1) _ = k4
  have hfree : k4.freeLinks = (k1.freeLinks.setPrev 0 (some (h - 1))).setNext (h - 1) (some 0) := by
    simp [← hk4]
  have hhash : k4.hashLinks = k1.hashLinks := by simp [← hk4]
  have hkey : k4.key = k1.key := by simp [← hk4]
  have hnr4 : k4.nrBuffers = h := by simpa [← hk4] using hnr
  have hlist : k4.freeList = some 0 := by simp [← hk4]
  have hdev : ∀ i < h, (k4.bh i).bDev = 0 := fun i hi => by
    rw [Kernel.bDev_eq, hkey]
    exact (hfresh i hi).dev
  refine ⟨by rwa [hnr4], ⟨List.range h, ⟨?_, ?_⟩, by simp [hnr4]⟩, ⟨fun x hx => ?_, fun i hi _ => ?_⟩, ?_⟩
  · simp [List.head?_range, show h ≠ 0 by omega, hlist]
  · change Links.Ring k4.freeLinks (List.range h)
    rw [hfree]
    refine ⟨(List.isChain_range _ h).mpr fun m hm => ?_, ?_, List.nodup_range⟩
    · have hmh : m ≠ h - 1 := by omega
      have hn : k1.freeLinks.next m = some (m + 1) := (hfresh m (by omega)).nextFree
      have hp : k1.freeLinks.prev (m + 1) = some m := (hfresh (m + 1) (by omega)).prevFree
      exact ⟨by simpa [hmh] using hn, by simpa using hp⟩
    · intro z hz x hx
      simp only [List.getLast?_range, List.head?_range, show h ≠ 0 by omega, if_false, Option.mem_some] at hz hx
      subst hz hx
      constructor <;> simp
  · refine ⟨[], ?_, fun i => ⟨by simp, fun hi => absurd (hdev i (hnr4 ▸ hi.1)) hi.2.1⟩⟩
    simpa [hx] using Links.chain_nil _
  · have hih : i < h := hnr4 ▸ hi
    change k4.hashLinks.next i = none ∧ k4.hashLinks.prev i = none
    rw [hhash]
    exact ⟨(hfresh i hih).next, (hfresh i hih).prev⟩
  · intro i j hi _ hd
    exact absurd (hdev i (hnr4 ▸ hi)) hd

end Fs
end Linux095
