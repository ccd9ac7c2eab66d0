import Linux095.Links.Singly

/-!
# `Lib.Malloc` — the kernel's heap (`lib/malloc.c`)

Each page of the heap holds objects of one size, and has a descriptor on the chain of that size. The objects that are
free are chained through their own first words. `get_free_page` may sleep, in `malloc` and in `init_bucket_desc`, and
other calls run meanwhile; it is taken to return a page that is not the heap's, filled with zeros. `free_s` may be
interrupted between its search and its `cli`. An object is named by its address; descriptors and objects are on
different pages, and have a map of their own each.

* `malloc`, `newBucket`, `gotBucketPage` — `malloc`, up to where it sleeps and from there on;
* `findPage`, `freeFound` — `free_s`, its search and the rest;
* `Step` — calls, in any order, and what their callers store in their objects.
-/

namespace Linux095
namespace Lib
namespace Malloc
open Links

def PAGE_SIZE : Nat := 4096

/-- `sizeof(struct bucket_desc)`. -/
def DESC_SIZE : Nat := 16

/-- The sizes of `bucket_dir`. -/
def bucketDir : List Nat := [16, 32, 64, 128, 256, 512, 1024, 2048, 4096]

/-- `bucket_dir[k].size`, 0 behind the last one. -/
def sizeOf (k : Nat) : Nat := bucketDir.getD k 0

/-- `struct bucket_desc`. -/
structure BucketDesc where
  page : Nat
  next : Option Nat
  freeptr : Option Nat
  refcnt : BitVec 16
  bucketSize : Nat

/-- A descriptor on a page of zeros. -/
def BucketDesc.zero : BucketDesc := ⟨0, none, none, 0, 0⟩

/-- The descriptors, by their addresses; the pointers that objects begin with; `bucket_dir[k].chain` and
    `free_bucket_desc`. For the sake of the specification, `descs` are the descriptors that there are. -/
structure Heap where
  desc : Nat → BucketDesc
  word : Nat → Option Nat
  chain : Nat → Option Nat
  freeBucketDesc : Option Nat
  descs : List Nat

namespace Heap

def next (h : Heap) (d : Nat) : Option Nat := (h.desc d).next

def setDesc (h : Heap) (d : Nat) (v : BucketDesc) : Heap :=
  { h with desc := fun x => if x = d then v else h.desc x }

def setNext (h : Heap) (d : Nat) (n : Option Nat) : Heap := h.setDesc d { h.desc d with next := n }

def setWord (h : Heap) (o : Nat) (n : Option Nat) : Heap :=
  { h with word := fun x => if x = o then n else h.word x }

def setChain (h : Heap) (k : Nat) (n : Option Nat) : Heap :=
  { h with chain := fun x => if x = k then n else h.chain x }

/-! ## `malloc` -/

/-- The objects of a page, and the descriptors of one. -/
def objects (size page : Nat) : List Nat := (List.range (PAGE_SIZE / size)).map fun i => page + i * size

/-- The end of `malloc`: an object of `bdesc` is taken. -/
def take (h : Heap) (d : Nat) : Option (Heap × Nat) :=
  match (h.desc d).freeptr with
  | none => none
  | some o =>
      some (h.setDesc d
        { h.desc d with
          freeptr := h.word o
          refcnt := (h.desc d).refcnt + 1 }, o)

/-- `init_bucket_desc`, when `get_free_page` has returned. -/
def initBucketDesc (h : Heap) (page : Nat) : Heap where
  desc x :=
    if x ∈ objects DESC_SIZE page then
      { BucketDesc.zero with
        next := if x + DESC_SIZE < page + PAGE_SIZE then some (x + DESC_SIZE) else h.freeBucketDesc }
    else h.desc x
  word := h.word
  chain := h.chain
  freeBucketDesc := some page
  descs := objects DESC_SIZE page ++ h.descs

/-- A free descriptor is taken for a page of `bucket_dir[k]`. -/
def takeDesc (h : Heap) (k d : Nat) : Heap :=
  { h.setDesc d { h.desc d with refcnt := 0, bucketSize := sizeOf k } with freeBucketDesc := (h.desc d).next }

/-- The new page is cut into objects, and its descriptor linked in. -/
def linkBucket (h : Heap) (k d page : Nat) : Heap :=
  { (h.setDesc d
      { h.desc d with
        page := page
        freeptr := some page
        next := h.chain k }).setChain k (some d) with
    word := fun x =>
      if page ≤ x ∧ x < page + PAGE_SIZE then
        if x ∈ objects (sizeOf k) page ∧ x + sizeOf k < page + PAGE_SIZE then some (x + sizeOf k) else none
      else h.word x }

end Heap

/-- How a part of `malloc` ends. -/
inductive Outcome where
  | object (o : Nat)
  /-- In `get_free_page`, for a page of descriptors. -/
  | wantDescs
  /-- In `get_free_page`, with the descriptor for the page. -/
  | wantPage (d : Nat)

namespace Heap

/-- `malloc` where it has found no object, and there are free descriptors or not. -/
def newBucket (h : Heap) (k : Nat) : Heap × Outcome :=
  match h.freeBucketDesc with
  | none => (h, .wantDescs)
  | some d => (h.takeDesc k d, .wantPage d)

/-- `malloc`, from the search in the chain of `bucket_dir[k]` on. -/
def malloc (h : Heap) (k : Nat) : Option (Heap × Outcome) :=
  match search h.next (fun d => (h.desc d).freeptr.isSome) h.descs.length none (h.chain k) with
  | some (_, d) => (h.take d).map fun r => (r.1, .object r.2)
  | none => some (h.newBucket k)

/-- `malloc`, when `get_free_page` has returned a page for the objects. -/
def gotBucketPage (h : Heap) (k d page : Nat) : Option (Heap × Nat) := (h.linkBucket k d page).take d

/-! ## `free_s` -/

/-- The page that an address is on. -/
def pageOf (a : Nat) : Nat := a - a % PAGE_SIZE

/-- The search for the descriptor of a page, in the chains of sizes from `size` on: the chain, and the descriptor with
    the one before it. -/
def findPage (h : Heap) (page size : Nat) : Option (Nat × Option Nat × Nat) :=
  (List.range bucketDir.length).findSome? fun k =>
    if sizeOf k < size then none
    else (search h.next (fun d => (h.desc d).page == page) h.descs.length none (h.chain k)).map fun r => (k, r.1, r.2)

/-- The predecessor that has been found is not it any more. -/
def stale (h : Heap) (k : Nat) (prev : Option Nat) (d : Nat) : Bool :=
  match prev with
  | some b => h.next b != some d
  | none => h.chain k != some d

def predecessor (h : Heap) (k : Nat) (prev : Option Nat) (d : Nat) : Option Nat :=
  if h.stale k prev d then
    (search h.next (fun b => h.next b == some d) h.descs.length none (h.chain k)).map (·.2)
  else prev

/-- The descriptor is taken out of its chain, and becomes free. -/
def unlink (h : Heap) (k : Nat) (prev : Option Nat) (d : Nat) : Option Heap :=
  let h' := match h.predecessor k prev d with
    | some b => some (h.setNext b (h.next d))
    | none => if h.chain k ≠ some d then none else some (h.setChain k (h.next d))
  h'.map fun h' => { h'.setNext d h'.freeBucketDesc with freeBucketDesc := some d }

/-- `free_s` once the descriptor is found, with the page that is given back. -/
def freeFound (h : Heap) (obj k : Nat) (prev : Option Nat) (d : Nat) : Option (Heap × Option Nat) :=
  let h' := (h.setWord obj (h.desc d).freeptr).setDesc d
    { h.desc d with
      freeptr := some obj
      refcnt := (h.desc d).refcnt - 1 }
  if (h'.desc d).refcnt = 0 then (h'.unlink k prev d).map fun r => (r, some (h.desc d).page)
  else some (h', none)

def freeS (h : Heap) (obj size : Nat) : Option (Heap × Option Nat) :=
  (h.findPage (pageOf obj) size).bind fun r => h.freeFound obj r.1 r.2.1 r.2.2

end Heap

/-! ## Calls -/

/-- What `malloc` has returned, and the length it was asked for. -/
structure Block where
  addr : Nat
  len : Nat
  deriving DecidableEq

/-- Where a call is; `k` is the place in `bucket_dir`. -/
inductive Proc where
  | idle
  /-- In `get_free_page`, called by `init_bucket_desc`. -/
  | descPage (len k : Nat)
  /-- In `get_free_page`, called by `malloc`. -/
  | bucketPage (len k d : Nat)
  /-- In `free_s`, interrupted before its `cli`. -/
  | freeing (b : Block) (k : Nat) (prev : Option Nat) (d : Nat)

/-- The heap and its users: the blocks that have not been freed, and the pages that `get_free_page` has given to the
    heap and that it has not given back. -/
structure State where
  heap : Heap
  procs : Nat → Proc
  live : List Block
  owned : List Nat

/-- The first size that is large enough. -/
def bucketOf (len : Nat) : Option Nat := (List.range bucketDir.length).find? fun k => len ≤ sizeOf k

/-- A page that `get_free_page` may return. -/
def State.Fresh (s : State) (page : Nat) : Prop := page % PAGE_SIZE = 0 ∧ page ≠ 0 ∧ page ∉ s.owned

namespace State

def setProc (s : State) (p : Nat) (q : Proc) : State :=
  { s with procs := fun x => if x = p then q else s.procs x }

/-- A part of `malloc` has ended. -/
def after (s : State) (p len k : Nat) (r : Heap × Outcome) : State :=
  match r.2 with
  | .object o => { s.setProc p .idle with heap := r.1, live := ⟨o, len⟩ :: s.live }
  | .wantDescs => { s.setProc p (.descPage len k) with heap := r.1 }
  | .wantPage d => { s.setProc p (.bucketPage len k d) with heap := r.1 }

end State

/-- One step. -/
inductive Step : State → State → Prop
  | malloc {s : State} {p len k : Nat} {r : Heap × Outcome} (hp : s.procs p = .idle) (hk : bucketOf len = some k)
      (hr : s.heap.malloc k = some r) : Step s (s.after p len k r)
  | descPage {s : State} {p len k page : Nat} (hp : s.procs p = .descPage len k) (hpage : s.Fresh page) :
      Step s ({ s with owned := page :: s.owned }.after p len k ((s.heap.initBucketDesc page).newBucket k))
  | bucketPage {s : State} {p len k d page : Nat} {r : Heap × Nat} (hp : s.procs p = .bucketPage len k d)
      (hpage : s.Fresh page) (hr : s.heap.gotBucketPage k d page = some r) :
      Step s ({ s with owned := page :: s.owned }.after p len k (r.1, .object r.2))
  | search {s : State} {p size : Nat} {b : Block} {r : Nat × Option Nat × Nat} (hp : s.procs p = .idle)
      (hb : b ∈ s.live) (hone : ∀ p' k prev d, s.procs p' ≠ .freeing b k prev d) (hsize : size = 0 ∨ size = b.len)
      (hr : s.heap.findPage (Heap.pageOf b.addr) size = some r) : Step s (s.setProc p (.freeing b r.1 r.2.1 r.2.2))
  | free {s : State} {p k d : Nat} {b : Block} {prev : Option Nat} {r : Heap × Option Nat}
      (hp : s.procs p = .freeing b k prev d) (hr : s.heap.freeFound b.addr k prev d = some r) :
      Step s
        { s.setProc p .idle with
          heap := r.1
          live := s.live.erase b
          owned := s.owned.filter fun x => r.2 ≠ some x }
  /-- The owner of a block stores something in it. -/
  | store {s : State} {b : Block} (word : Nat → Option Nat) (hb : b ∈ s.live)
      (hw : ∀ x, ¬ (b.addr ≤ x ∧ x < b.addr + b.len) → word x = s.heap.word x) :
      Step s { s with heap := { s.heap with word := word } }

/-- The heap before the first call. -/
def boot : State where
  heap := ⟨fun _ => .zero, fun _ => none, fun _ => none, none, []⟩
  procs _ := .idle
  live := []
  owned := []

inductive Reach : State → Prop
  | boot : Reach boot
  | step {s s' : State} (h : Reach s) (hs : Step s s') : Reach s'

end Malloc
end Lib
end Linux095
