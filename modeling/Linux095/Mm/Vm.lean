/-!
# `Mm.Vm` — the memory manager (`mm/memory.c`, `mm/swap.c`)

Every task but the first has 64 MB of linear addresses of its own, sixteen entries of the page directory. What its
page tables say is changed by page faults, `fork`, `exec`, `exit` and swapping, each of which may sleep where it
wants a page or reads one from the swap device. `get_free_page` is taken by its contract: some page nobody uses. A task
faults for itself only: `ptrace`, which reaches into another one, is left out.

* `Entry`, `Paging` — page tables, `mem_map`, the swap device and its bitmap;
* `freePage`, `freePageTables`, `tryToSwapOut`, `tryToShare` and so on — the source's functions;
* `Proc` — where a task is in the memory manager;
* `Step` — one task from one point where it may sleep to the next, or the swap device.
-/

namespace Linux095
namespace Mm
namespace Vm

abbrev Byte := BitVec 8
/-- The bytes of a page. -/
abbrev Page := Nat → Byte
/-- A physical address divided by the size of a page. -/
abbrev Frame := Nat

def LOW_MEM : Frame := 0x100
def PAGING_PAGES : Nat := 3840
def NR_TASKS : Nat := 64
def SWAP_BITS : Nat := 32768
/-- The page tables of a task: `TASK_SIZE >> 22`. -/
def TASK_TABLES : Nat := 16
/-- `LIBRARY_OFFSET >> 12`. -/
def LIBRARY_OFFSET : Nat := 15360

/-- An entry of a page table. -/
inductive Entry where
  | none
  /-- Present; `PAGE_RW` and `PAGE_DIRTY`. -/
  | page (f : Frame) (rw dirty : Bool)
  /-- `swap_nr << 1`. -/
  | swap (n : Nat)
  deriving DecidableEq

/-- A request to the swap device, for a slot and a page of memory. -/
inductive Req where
  | write (n : Nat) (f : Frame)
  | read (n : Nat) (f : Frame)
  deriving DecidableEq

/-- The memory and the swap device. For the sake of the specification, `kernel` marks the pages that
    `get_free_page` has given to code of the kernel, `saved` is what a slot held when it was swapped out, and
    `badPage` and `badSlot` stand for a `printk` about a page or a slot that is already free. -/
structure Paging where
  startMem : Frame
  highMem : Frame
  memMap : Frame → Nat
  dir : Nat → Option Frame
  table : Frame → Nat → Entry
  data : Frame → Page
  /-- `swap_bitmap`: the slots that are free. -/
  free : Nat → Bool
  disk : Nat → Page
  queue : List Req
  kernel : Frame → Bool
  saved : Nat → Page
  badPage : Bool
  badSlot : Bool

namespace Paging

def setMap (s : Paging) (f : Frame) (n : Nat) : Paging :=
  { s with memMap := fun x => if x = f then n else s.memMap x }

def setKernel (s : Paging) (f : Frame) (b : Bool) : Paging :=
  { s with kernel := fun x => if x = f then b else s.kernel x }

def setData (s : Paging) (f : Frame) (p : Page) : Paging :=
  { s with data := fun x => if x = f then p else s.data x }

def setByte (s : Paging) (f : Frame) (o : Nat) (b : Byte) : Paging :=
  s.setData f fun x => if x = o then b else s.data f x

def setDir (s : Paging) (d : Nat) (t : Option Frame) : Paging :=
  { s with dir := fun x => if x = d then t else s.dir x }

def setFree (s : Paging) (n : Nat) (b : Bool) : Paging :=
  { s with free := fun x => if x = n then b else s.free x }

/-- `pg_table[i] = e`. -/
def setTable (s : Paging) (t : Frame) (i : Nat) (e : Entry) : Paging :=
  { s with table := fun x j => if x = t ∧ j = i then e else s.table x j }

/-- Entry `i` of the page table that entry `d` of the directory names. -/
def entry (s : Paging) (d i : Nat) : Entry :=
  match s.dir d with
  | none => .none
  | some t => s.table t i

def setEntry (s : Paging) (d i : Nat) (e : Entry) : Paging :=
  match s.dir d with
  | none => s
  | some t => s.setTable t i e

/-- The pages that `get_free_page` hands out. -/
def Managed (s : Paging) (f : Frame) : Prop := s.startMem ≤ f ∧ f < s.highMem

/-- What `get_free_page` may return. -/
def CanTake (s : Paging) (f : Frame) : Prop := s.Managed f ∧ s.memMap f = 0

/-- `get_free_page`: the page is marked used and filled with zeros. -/
def take (s : Paging) (f : Frame) : Paging :=
  { ((s.setMap f 1).setKernel f true).setData f fun _ => 0 with
    table := fun x j => if x = f then .none else s.table x j }

/-- `free_page`. -/
def freePage (s : Paging) (f : Frame) : Paging :=
  if f < LOW_MEM then s
  else if f < s.highMem then
    { s.setMap f (s.memMap f - 1) with badPage := s.badPage || s.memMap f == 0 }
  else { s with badPage := true }

/-- `free_page` of a page that the kernel holds. -/
def release (s : Paging) (f : Frame) : Paging := (s.setKernel f false).freePage f

/-- `mem_map[MAP_NR(f)]++`, an `unsigned char`. -/
def share (s : Paging) (f : Frame) : Paging := s.setMap f ((s.memMap f + 1) % 256)

/-! ## Swapping -/

/-- `get_swap_page`: the first free slot. -/
def getSwapPage (s : Paging) : Option Nat := (List.range SWAP_BITS).find? fun n => n ≠ 0 && s.free n

/-- `swap_free`, and the `setbit` of `swap_in`. -/
def swapFree (s : Paging) (n : Nat) : Paging :=
  if n = 0 then s
  else if n < SWAP_BITS then { s.setFree n true with badSlot := s.badSlot || s.free n }
  else { s with badSlot := true }

/-- `try_to_swap_out`, up to `write_swap_page`; the page is freed when it is written. -/
def tryToSwapOut (s : Paging) (d i : Nat) : Option Paging :=
  match s.entry d i with
  | .page f _ dirty =>
      if f < LOW_MEM ∨ LOW_MEM + PAGING_PAGES ≤ f then none
      else if dirty then
        if s.memMap f ≠ 1 then none
        else
          match s.getSwapPage with
          | none => none
          | some n =>
              some { ((s.setFree n false).setEntry d i (.swap n)).setKernel f true with
                queue := s.queue ++ [.write n f]
                saved := fun x => if x = n then s.data f else s.saved x }
      else some ((s.setEntry d i .none).freePage f)
  | _ => none

/-- The swap device serves its first request. -/
def complete (s : Paging) : Option Paging :=
  match s.queue with
  | [] => none
  | .write n f :: q => some { s with disk := fun x => if x = n then s.data f else s.disk x, queue := q }
  | .read n f :: q => some { s.setData f (s.disk n) with queue := q }

/-! ## Page tables -/

/-- One turn of the inner loop of `free_page_tables`. -/
def clearEntry (t : Frame) (s : Paging) (i : Nat) : Paging :=
  match s.table t i with
  | .none => s
  | .page f _ _ => (s.setTable t i .none).freePage f
  | .swap n => (s.setTable t i .none).swapFree n

/-- One turn of the outer loop. -/
def freeDir (s : Paging) (d : Nat) : Paging :=
  match s.dir d with
  | none => s
  | some t => ((List.range 1024).foldl (clearEntry t) (s.setDir d none)).freePage t

/-- `free_page_tables`, for `n` entries of the directory from `d` on. -/
def freePageTables (s : Paging) (d n : Nat) : Paging :=
  (List.range n).foldl (fun s k => s.freeDir (d + k)) s

end Paging

/-- The entry of the directory for page `v` of task `t`. -/
def dirOf (t v : Nat) : Nat := TASK_TABLES * t + v / 1024

/-- The entry for page `v` of task `t`. -/
def Paging.at (s : Paging) (t v : Nat) : Entry := s.entry (dirOf t v) (v % 1024)

def Paging.setAt (s : Paging) (t v : Nat) (e : Entry) : Paging := s.setEntry (dirOf t v) (v % 1024) e

/-- What `try_to_share` finds in task `p`: a page that is present and clean. -/
def Paging.sharable (s : Paging) (p v : Nat) : Option Frame :=
  match s.at p v with
  | .page f _ false => if s.highMem ≤ f ∨ f < LOW_MEM then none else some f
  | _ => none

/-- The end of `try_to_share`, for the page `f` it has found: the entry of `p` is read once more. -/
def Paging.shareWith (s : Paging) (t p v : Nat) (f : Frame) : Paging :=
  let e := match s.at p v with
    | .page g _ dirty => .page g false dirty
    | e => e
  ((s.setAt p v e).setAt t v e).share f

/-! ## Tasks -/

/-- What `do_no_page` uses of a `task_struct`. -/
structure Task where
  executable : Option Nat
  library : Option Nat
  endData : Nat
  /-- The entries of the directory that the segment limit covers. -/
  tables : Nat

/-- The file that page `v` is loaded from. -/
def Task.file (k : Task) (v : Nat) : Option Nat :=
  if LIBRARY_OFFSET ≤ v then k.library
  else if v * 4096 < k.endData then k.executable
  else none

/-- `share_page` considers tasks that have the file in the same place. -/
def Task.has (k : Task) (v ino : Nat) : Prop :=
  if v < LIBRARY_OFFSET then k.executable = some ino else k.library = some ino

/-- Where a task is. -/
inductive Proc where
  /-- `task[t]` is `NULL`. -/
  | none
  /-- Not in the memory manager. -/
  | user
  /-- Being made by a `fork`. -/
  | child
  /-- `do_no_page`, before it looks at the page directory. -/
  | fault (v : Nat)
  /-- `do_no_page`, with the page table there and no page. -/
  | noPage (v : Nat)
  /-- `try_to_share` with a page table of its own, for a page of task `p`. -/
  | sharing (v p : Nat) (f : Frame)
  /-- `bread_page`. -/
  | load (v : Nat) (f : Frame)
  /-- `put_page`. -/
  | put (v : Nat) (f : Frame)
  /-- About to call `oom`. -/
  | oom
  /-- `read_swap_page` of `swap_in`. -/
  | swapRead (v n : Nat) (f : Frame)
  /-- `un_wp_page`, with its `new_page`, called from `write_verify` or not. -/
  | unWp (v : Nat) (new : Option Frame) (verify : Bool)
  /-- `copy_page_tables`, at entry `i` of table `k`; `i` is `none` before the table of the child is there. -/
  | fork (c k : Nat) (i : Option Nat)
  /-- `read_swap_page` of `copy_page_tables`. -/
  | forkRead (c k i n : Nat) (f : Frame)
  /-- `do_execve` with pages for the arguments. -/
  | args (pages : List (Nat × Frame))
  /-- `change_ldt`, with `put_dirty_page` for each of them. -/
  | putArgs (pages : List (Nat × Frame))

/-- The pages a task holds inside the kernel. -/
def Proc.frames : Proc → List Frame
  | load _ f | put _ f | swapRead _ _ f | forkRead _ _ _ _ f => [f]
  | unWp _ new _ => new.toList
  | args pages | putArgs pages => pages.map (·.2)
  | _ => []

/-- The memory and the tasks; `verified` are the pages for which `verify_area` has been called. -/
structure Config where
  mem : Paging
  procs : Nat → Proc
  tasks : Nat → Task
  verified : Nat → Nat → Bool

namespace Config

def setProc (c : Config) (t : Nat) (q : Proc) : Config :=
  { c with procs := fun x => if x = t then q else c.procs x }

def setTask (c : Config) (t : Nat) (k : Task) : Config :=
  { c with tasks := fun x => if x = t then k else c.tasks x }

def setVerified (c : Config) (t : Nat) (f : Nat → Bool) : Config :=
  { c with verified := fun x => if x = t then f else c.verified x }

/-- The task goes on to `q` with the memory `s`. -/
def goto (c : Config) (t : Nat) (q : Proc) (s : Paging) : Config := { c.setProc t q with mem := s }

/-- `un_wp_page` returns; a `new_page` that was not needed is freed. -/
def unWpDone (c : Config) (t v : Nat) (new : Option Frame) (verify : Bool) (s : Paging) : Config :=
  let s := match new with
    | none => s
    | some g => s.release g
  let c := c.goto t .user s
  if verify then c.setVerified t fun x => x = v || c.verified t x else c

/-- A page that no task and no request is using. -/
def Idle (c : Config) (f : Frame) : Prop :=
  (∀ t, f ∉ (c.procs t).frames) ∧ ∀ n, .write n f ∉ c.mem.queue ∧ .read n f ∉ c.mem.queue

end Config

/-- The entries `copy_page_tables` copies of a table. -/
def copied (t : Nat) : Nat := if t = 0 then 0xA0 else 1024

/-- Where `oom` may be called, or a task may exit, with no page in hand. -/
def Proc.canExit : Proc → Bool
  | user | oom | fault _ | noPage _ | unWp _ Option.none _ => true
  | _ => false

/-- What the steps below are about, where it matters. -/
inductive Event where
  | quiet
  /-- `try_to_share` has mapped page `v` of task `p` into task `t`. -/
  | shared (t v p : Nat)
  /-- A byte stored by the task itself, or by the kernel for it. -/
  | store (t v o : Nat) (b : Byte)
  | kstore (t v o : Nat) (b : Byte)
  /-- A page filled from the file of a task. -/
  | loaded (k : Task) (v : Nat) (p : Page)
  /-- A child made. -/
  | forked (t c : Nat)
  /-- The memory of a task, or its library, replaced. -/
  | cleared (t : Nat)

/-- One step. `loads` is what `bread_page` leaves in a page, its end cleared by `do_no_page`. The first task only
    forks. -/
inductive Step (loads : Task → Nat → Page → Prop) : Config → Event → Config → Prop
  -- `do_no_page`
  | fault {c : Config} {t v : Nat} (ht : t ≠ 0) (hp : c.procs t = .user) (hv : v < 1024 * (c.tasks t).tables)
      (he : ∀ f rw d, c.mem.at t v ≠ .page f rw d) : Step loads c .quiet (c.setProc t (.fault v))
  | faultSwap {c : Config} {t v n : Nat} {f : Frame} (hp : c.procs t = .fault v) (he : c.mem.at t v = .swap n)
      (hf : c.mem.CanTake f) : Step loads c .quiet
        (c.goto t (.swapRead v n f) { c.mem.take f with queue := c.mem.queue ++ [.read n f] })
  | faultDir {c : Config} {t v : Nat} {f : Frame} (hp : c.procs t = .fault v) (hd : c.mem.dir (dirOf t v) = none)
      (hf : c.mem.CanTake f) : Step loads c .quiet
        (c.goto t (.noPage v) (((c.mem.take f).setKernel f false).setDir (dirOf t v) (some f)))
  | faultNone {c : Config} {t v : Nat} (hp : c.procs t = .fault v) (hd : c.mem.dir (dirOf t v) ≠ none)
      (he : c.mem.at t v = .none) : Step loads c .quiet (c.setProc t (.noPage v))
  | swapIn {c : Config} {t v n : Nat} {f : Frame} (hp : c.procs t = .swapRead v n f)
      (hq : .read n f ∉ c.mem.queue) : Step loads c .quiet
        (c.goto t .user (((c.mem.swapFree n).setAt t v (.page f true true)).setKernel f false))
  | empty {c : Config} {t v : Nat} {f : Frame} (hp : c.procs t = .noPage v) (hfile : (c.tasks t).file v = none)
      (hf : c.mem.CanTake f) : Step loads c .quiet (c.goto t (.put v f) (c.mem.take f))
  | load {c : Config} {t v ino : Nat} {f : Frame} (hp : c.procs t = .noPage v) (hfile : (c.tasks t).file v = some ino)
      (hf : c.mem.CanTake f) : Step loads c .quiet (c.goto t (.load v f) (c.mem.take f))
  | loaded {c : Config} {t v : Nat} {f : Frame} {pg : Page} (hp : c.procs t = .load v f)
      (hl : loads (c.tasks t) v pg) :
      Step loads c (.loaded (c.tasks t) v pg) (c.goto t (.put v f) (c.mem.setData f pg))
  | put {c : Config} {t v : Nat} {f : Frame} (hp : c.procs t = .put v f) (hm : c.mem.memMap f = 1)
      (hd : c.mem.dir (dirOf t v) ≠ none) : Step loads c .quiet
        (c.goto t .user ((c.mem.setAt t v (.page f true false)).setKernel f false))
  | putDir {c : Config} {t v : Nat} {f g : Frame} (hp : c.procs t = .put v f) (hm : c.mem.memMap f = 1)
      (hd : c.mem.dir (dirOf t v) = none) (hg : c.mem.CanTake g) : Step loads c .quiet
        (c.goto t (.put v f) (((c.mem.take g).setKernel g false).setDir (dirOf t v) (some g)))
  | putFail {c : Config} {t v : Nat} {f : Frame} (hp : c.procs t = .put v f)
      (hno : c.mem.memMap f ≠ 1 ∨ c.mem.dir (dirOf t v) = none) :
      Step loads c .quiet (c.goto t .oom (c.mem.release f))
  -- `try_to_share`
  | share {c : Config} {t v p ino : Nat} {f : Frame} (hp : c.procs t = .noPage v)
      (hfile : (c.tasks t).file v = some ino) (hother : p ≠ t ∧ p ≠ 0 ∧ p < NR_TASKS ∧ c.procs p ≠ .none)
      (hhas : (c.tasks p).has v ino) (hs : c.mem.sharable p v = some f) (hd : c.mem.dir (dirOf t v) ≠ none) :
      Step loads c (.shared t v p) (c.goto t .user (c.mem.shareWith t p v f))
  | shareDir {c : Config} {t v p ino : Nat} {f g : Frame} (hp : c.procs t = .noPage v)
      (hfile : (c.tasks t).file v = some ino) (hother : p ≠ t ∧ p ≠ 0 ∧ p < NR_TASKS ∧ c.procs p ≠ .none)
      (hhas : (c.tasks p).has v ino) (hs : c.mem.sharable p v = some f) (hd : c.mem.dir (dirOf t v) = none)
      (hg : c.mem.CanTake g) : Step loads c .quiet
        (c.goto t (.sharing v p f) (((c.mem.take g).setKernel g false).setDir (dirOf t v) (some g)))
  | shareLate {c : Config} {t v p : Nat} {f : Frame} (hp : c.procs t = .sharing v p f) :
      Step loads c (.shared t v p) (c.goto t .user (c.mem.shareWith t p v f))
  -- `un_wp_page`
  | wpFault {c : Config} {t v : Nat} {f : Frame} {d : Bool} (ht : t ≠ 0) (hp : c.procs t = .user)
      (hv : v < 1024 * (c.tasks t).tables) (he : c.mem.at t v = .page f false d) :
      Step loads c .quiet (c.setProc t (.unWp v none false))
  | writeVerify {c : Config} {t v : Nat} {f : Frame} {d : Bool} (ht : t ≠ 0) (hp : c.procs t = .user)
      (he : c.mem.at t v = .page f false d) : Step loads c .quiet (c.setProc t (.unWp v none true))
  | verified {c : Config} {t v : Nat} (ht : t ≠ 0) (hp : c.procs t = .user) (hv : v < 1024 * TASK_TABLES)
      (he : ∀ f d, c.mem.at t v ≠ .page f false d) : Step loads c .quiet
        (c.setVerified t fun x => x = v || c.verified t x)
  | unWpGone {c : Config} {t v : Nat} {new : Option Frame} {ver : Bool} (hp : c.procs t = .unWp v new ver)
      (he : ∀ f rw d, c.mem.at t v ≠ .page f rw d) : Step loads c .quiet (c.unWpDone t v new ver c.mem)
  | unWpAlone {c : Config} {t v : Nat} {new : Option Frame} {ver rw d : Bool} {f : Frame}
      (hp : c.procs t = .unWp v new ver) (he : c.mem.at t v = .page f rw d) (hf : LOW_MEM ≤ f)
      (hm : c.mem.memMap f = 1) :
      Step loads c .quiet (c.unWpDone t v new ver (c.mem.setAt t v (.page f true d)))
  | unWpTake {c : Config} {t v : Nat} {ver rw d : Bool} {f g : Frame} (hp : c.procs t = .unWp v none ver)
      (he : c.mem.at t v = .page f rw d) (hf : f < LOW_MEM ∨ c.mem.memMap f ≠ 1) (hg : c.mem.CanTake g) :
      Step loads c .quiet (c.goto t (.unWp v (some g) ver) (c.mem.take g))
  | unWpCopy {c : Config} {t v : Nat} {ver rw d : Bool} {f g : Frame} (hp : c.procs t = .unWp v (some g) ver)
      (he : c.mem.at t v = .page f rw d) (hf : f < LOW_MEM ∨ c.mem.memMap f ≠ 1) :
      Step loads c .quiet (c.unWpDone t v none ver
        ((((c.mem.setData g (c.mem.data f)).setAt t v (.page g true d)).setKernel g false).freePage f))
  -- `fork`
  | fork {c : Config} {t n : Nat} (hp : c.procs t = .user) (hn : n < NR_TASKS) (hn0 : n ≠ 0)
      (hfree : c.procs n = .none) : Step loads c .quiet
        (((((c.setProc n .child).setTask n (c.tasks t)).setProc t (.fork n 0 none)).setVerified t
          fun _ => false).setVerified n fun _ => false)
  | forkSkip {c : Config} {t n k : Nat} (hp : c.procs t = .fork n k none) (hk : k < (c.tasks t).tables)
      (hd : c.mem.dir (TASK_TABLES * t + k) = none) : Step loads c .quiet (c.setProc t (.fork n (k + 1) none))
  | forkTable {c : Config} {t n k : Nat} {f : Frame} (hp : c.procs t = .fork n k none)
      (hk : k < (c.tasks t).tables) (hd : c.mem.dir (TASK_TABLES * t + k) ≠ none) (hf : c.mem.CanTake f) :
      Step loads c .quiet (c.goto t (.fork n k (some 0))
        (((c.mem.take f).setKernel f false).setDir (TASK_TABLES * n + k) (some f)))
  | forkNone {c : Config} {t n k i : Nat} (hp : c.procs t = .fork n k (some i)) (hi : i < copied t)
      (he : c.mem.entry (TASK_TABLES * t + k) i = .none) :
      Step loads c .quiet (c.setProc t (.fork n k (some (i + 1))))
  | forkPage {c : Config} {t n k i : Nat} {f : Frame} {rw d : Bool} (hp : c.procs t = .fork n k (some i))
      (hi : i < copied t) (he : c.mem.entry (TASK_TABLES * t + k) i = .page f rw d) : Step loads c .quiet
        (c.goto t (.fork n k (some (i + 1)))
          (let s := c.mem.setEntry (TASK_TABLES * n + k) i (.page f false d)
           if f < LOW_MEM then s else (s.setEntry (TASK_TABLES * t + k) i (.page f false d)).share f))
  | forkSwap {c : Config} {t n k i m : Nat} {f : Frame} (hp : c.procs t = .fork n k (some i)) (hi : i < copied t)
      (he : c.mem.entry (TASK_TABLES * t + k) i = .swap m) (hf : c.mem.CanTake f) : Step loads c .quiet
        (c.goto t (.forkRead n k i m f) { c.mem.take f with queue := c.mem.queue ++ [.read m f] })
  | forkSwapped {c : Config} {t n k i m : Nat} {f : Frame} (hp : c.procs t = .forkRead n k i m f)
      (hq : .read m f ∉ c.mem.queue) : Step loads c .quiet
        (c.goto t (.fork n k (some (i + 1)))
          (((c.mem.setEntry (TASK_TABLES * n + k) i (.swap m)).setEntry (TASK_TABLES * t + k) i
            (.page f true true)).setKernel f false))
  | forkNext {c : Config} {t n k i : Nat} (hp : c.procs t = .fork n k (some i)) (hi : copied t ≤ i) :
      Step loads c .quiet (c.setProc t (.fork n (k + 1) none))
  | forkDone {c : Config} {t n k : Nat} (hp : c.procs t = .fork n k none) (hk : (c.tasks t).tables ≤ k) :
      Step loads c (.forked t n) ((c.setProc t .user).setProc n .user)
  | forkFail {c : Config} {t n k : Nat} {i : Option Nat} (hp : c.procs t = .fork n k i) : Step loads c .quiet
        ((c.goto t .user (c.mem.freePageTables (TASK_TABLES * n) (c.tasks t).tables)).setProc n .none)
  -- `exit`, `exec` and `uselib`
  | exit {c : Config} {t : Nat} (ht : t ≠ 0) (hp : (c.procs t).canExit) : Step loads c (.cleared t)
        ((c.goto t .none (c.mem.freePageTables (TASK_TABLES * t) (c.tasks t).tables)).setVerified t fun _ => false)
  | exec {c : Config} {t : Nat} (ht : t ≠ 0) (hp : c.procs t = .user) : Step loads c .quiet
        ((c.setProc t (.args [])).setVerified t fun _ => false)
  | argsTake {c : Config} {t v : Nat} {f : Frame} {pages : List (Nat × Frame)} (hp : c.procs t = .args pages)
      (hv : v < 1024 * TASK_TABLES) (hnew : v ∉ pages.map (·.1)) (hf : c.mem.CanTake f) :
      Step loads c .quiet (c.goto t (.args ((v, f) :: pages)) (c.mem.take f))
  | argsFree {c : Config} {t v : Nat} {f : Frame} {pages : List (Nat × Frame)}
      (hp : c.procs t = .args ((v, f) :: pages)) :
      Step loads c .quiet (c.goto t (.args pages) (c.mem.release f))
  | argsFail {c : Config} {t : Nat} (hp : c.procs t = .args []) : Step loads c .quiet (c.setProc t .user)
  | argsInode {c : Config} {t : Nat} {pages : List (Nat × Frame)} (ino : Nat) (hp : c.procs t = .args pages) :
      Step loads c .quiet (c.setTask t { c.tasks t with executable := some ino })
  | argsDone {c : Config} {t : Nat} {pages : List (Nat × Frame)} (k : Task) (hp : c.procs t = .args pages)
      (hk : k.tables = TASK_TABLES) : Step loads c (.cleared t)
        ((c.goto t (.putArgs pages) (c.mem.freePageTables (TASK_TABLES * t) (c.tasks t).tables)).setTask t k)
  | putArg {c : Config} {t v : Nat} {f : Frame} {pages : List (Nat × Frame)}
      (hp : c.procs t = .putArgs ((v, f) :: pages)) (hd : c.mem.dir (dirOf t v) ≠ none) : Step loads c .quiet
        (c.goto t (.putArgs pages) ((c.mem.setAt t v (.page f true true)).setKernel f false))
  | putArgDir {c : Config} {t v : Nat} {f g : Frame} {pages : List (Nat × Frame)}
      (hp : c.procs t = .putArgs ((v, f) :: pages)) (hd : c.mem.dir (dirOf t v) = none) (hg : c.mem.CanTake g) :
      Step loads c .quiet (c.goto t (.putArgs ((v, f) :: pages))
        (((c.mem.take g).setKernel g false).setDir (dirOf t v) (some g)))
  -- `change_ldt` does not look at what `put_dirty_page` returns: the page stays with the kernel
  | putArgFail {c : Config} {t v : Nat} {f : Frame} {pages : List (Nat × Frame)}
      (hp : c.procs t = .putArgs ((v, f) :: pages)) (hd : c.mem.dir (dirOf t v) = none) :
      Step loads c .quiet (c.setProc t (.putArgs pages))
  | execDone {c : Config} {t : Nat} (hp : c.procs t = .putArgs []) : Step loads c .quiet (c.setProc t .user)
  | useLib {c : Config} {t : Nat} (lib : Option Nat) (ht : t ≠ 0) (hp : c.procs t = .user)
      (hk : (c.tasks t).tables = TASK_TABLES) : Step loads c (.cleared t)
        (((c.goto t .user (c.mem.freePageTables (TASK_TABLES * t + LIBRARY_OFFSET / 1024) 1)).setTask t
          { c.tasks t with library := lib }).setVerified t fun _ => false)
  -- Swapping, and pages for the rest of the kernel
  | swapOut {c : Config} {d i : Nat} {s : Paging} (hd : TASK_TABLES ≤ d) (hi : i < 1024)
      (hs : c.mem.tryToSwapOut d i = some s) : Step loads c .quiet { c with mem := s }
  | complete {c : Config} {s : Paging} (hs : c.mem.complete = some s) : Step loads c .quiet { c with mem := s }
  | kernelTake {c : Config} {f : Frame} (hf : c.mem.CanTake f) : Step loads c .quiet { c with mem := c.mem.take f }
  | kernelFree {c : Config} {f : Frame} (hf : c.mem.kernel f) (hidle : c.Idle f) :
      Step loads c .quiet { c with mem := c.mem.release f }
  -- Stores
  | store {c : Config} {t v o : Nat} {f : Frame} {d : Bool} (b : Byte) (ht : t ≠ 0) (hp : c.procs t = .user)
      (hv : v < 1024 * (c.tasks t).tables) (ho : o < 4096) (he : c.mem.at t v = .page f true d) :
      Step loads c (.store t v o b)
        { c with mem := (c.mem.setAt t v (.page f true true)).setByte f o b }
  | kstore {c : Config} {t v o : Nat} {f : Frame} {rw d : Bool} (b : Byte) (ht : t ≠ 0) (hp : c.procs t = .user)
      (hv : v < 1024 * (c.tasks t).tables) (ho : o < 4096) (hver : c.verified t v)
      (he : c.mem.at t v = .page f rw d) : Step loads c (.kstore t v o b)
        { c with mem := (c.mem.setAt t v (.page f rw true)).setByte f o b }
  | leave {c : Config} {t : Nat} (hp : c.procs t = .user) :
      Step loads c .quiet (c.setVerified t fun _ => false)

end Vm
end Mm
end Linux095
