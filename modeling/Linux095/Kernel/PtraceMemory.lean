import Linux095.Mm.DemandLoad

/-!
# `Kernel.PtraceMemory` — the memory of a traced task (`kernel/ptrace.c`)

`get_long` and `put_long` test an address against the limit of the child's data segment, prepare a page, and access the
word through the segment of the child. The page they prepare is found from the descriptor of the segment, and the
address has no part in it.

* `Desc` — a descriptor, as the processor and as `ptrace` read it;
* `doNoPage`, `writeVerify`, `getLong`, `putLong` — the source's functions; nothing else runs while they do;
* `Meets` — **what the accesses are for**: they stay in the child;
* `Fine` — when they do, as `Kernel.PtracePages` proves.

`get_free_page` is taken by its contract.
-/

namespace Linux095
namespace Kernel
namespace PtraceMemory

open Mm.Vm

abbrev Addr := BitVec 32

/-! ## Segments -/

/-- `struct desc_struct`. -/
structure Desc where
  a : BitVec 32
  b : BitVec 32

def GRANULARITY : BitVec 32 := 0x00800000
def TASK_SIZE : Nat := 0x04000000

namespace Desc

/-- Where the segment begins. -/
def base (d : Desc) : Addr := d.a >>> 16 ||| (d.b &&& 0xff#32) <<< 16 ||| d.b &&& 0xff000000#32

/-- The last offset in the segment. -/
def last (d : Desc) : Nat :=
  let limit := (d.b &&& 0xf0000#32 ||| d.a &&& 0xffff#32).toNat
  if d.b &&& GRANULARITY = 0#32 then limit else limit * 4096 + 4095

/-- `limit`, as `ptrace` computes it. -/
def limit (d : Desc) : BitVec 32 :=
  let limit := d.a &&& 0xffff#32
  if d.b &&& GRANULARITY = 0#32 then limit else limit <<< 12

/-- `address`, as `ptrace` computes it. -/
def address (d : Desc) : Addr := (d.a &&& 0xffff000#32) >>> 8 ||| (d.b &&& 0xff#32) <<< 16 ||| d.b &&& 0xff000000#32

/-- `set_base`. -/
def setBase (d : Desc) (base : Addr) : Desc :=
  ⟨d.a &&& 0xffff#32 ||| base <<< 16, d.b &&& 0x00ffff00#32 ||| (base >>> 16) &&& 0xff#32 ||| base &&& 0xff000000#32⟩

/-- `set_limit`. -/
def setLimit (d : Desc) (limit : BitVec 32) : Desc :=
  let limit := (limit - 1) >>> 12
  ⟨d.a &&& 0xffff0000#32 ||| limit &&& 0xffff#32, d.b &&& 0xfff0ffff#32 ||| limit &&& 0xf0000#32⟩

end Desc

/-- The data segment of the first task. -/
def initLdt : Desc := ⟨0x9f, 0xc0f200⟩

/-! ## Tasks -/

/-- What is used of the task that is traced. -/
structure Tracee where
  /-- `ldt[2]`. -/
  ldt : Desc
  startCode : Addr
  task : Mm.Vm.Task

/-- The entry of the directory for an address. -/
def dirIndex (a : Addr) : Nat := (a >>> 22).toNat

/-- The entry of the page table. -/
def tableIndex (a : Addr) : Nat := ((a >>> 12) &&& 0x3ff#32).toNat

/-- What the page tables say of an address. -/
def lookup (s : Paging) (a : Addr) : Entry := s.entry (dirIndex a) (tableIndex a)

def setLookup (s : Paging) (a : Addr) (e : Entry) : Paging := s.setEntry (dirIndex a) (tableIndex a) e

/-- A page table for an address. -/
def newTable (a : Addr) (g : Frame) (s : Paging) : Paging :=
  ((s.take g).setKernel g false).setDir (dirIndex a) (some g)

section
-- `get_free_page`, and the executables
variable (getFreePage : Paging → Option Frame) (W : Programs)

/-- `put_page`. -/
def putPage (page : Frame) (address : Addr) (s : Paging) : Option Paging :=
  if page < LOW_MEM ∨ s.highMem ≤ page then none
  else if s.memMap page ≠ 1 then none
  else
    match s.dir (dirIndex address) with
    | some _ => some ((setLookup s address (.page page true false)).setKernel page false)
    | none =>
        match getFreePage s with
        | none => none
        | some tmp =>
            some ((setLookup (newTable address tmp s) address (.page page true false)).setKernel page false)

/-- `swap_in`, when nobody else runs. -/
def swapIn (n : Nat) (address : Addr) (s : Paging) : Option Paging :=
  if n = 0 then some s
  else
    match getFreePage s with
    | none => none
    | some page =>
        some ((setLookup (((s.take page).setData page (s.disk n)).swapFree n) address (.page page true true)).setKernel
          page false)

/-- `do_no_page` from the page on, for a task that is not the current one. -/
def loadPage (p : Tracee) (address : Addr) (s : Paging) : Option Paging :=
  let tmp := (address &&& 0xfffff000#32) - p.startCode
  match getFreePage s with
  | none => none
  | some page =>
      match p.task.file (tmp.toNat / 4096) with
      | none => putPage getFreePage page (address &&& 0xfffff000#32) (s.take page)
      | some _ =>
          putPage getFreePage page (address &&& 0xfffff000#32)
            ((s.take page).setData page (W.loadPage p.task (tmp.toNat / 4096)))

/-- `do_no_page`, for a task that is not the current one; `none` ends the current one. -/
def doNoPage (p : Tracee) (address : Addr) (s : Paging) : Option Paging :=
  if TASK_SIZE ≤ (address - p.startCode).toNat then none
  else
    match s.dir (dirIndex address) with
    | some _ =>
        match lookup s address with
        | .swap n => swapIn getFreePage n address s
        | _ => loadPage getFreePage W p address s
    | none =>
        match getFreePage s with
        | none => none
        | some page => loadPage getFreePage W p address (newTable address page s)

/-- `un_wp_page`, with its `new_page`. -/
def unWpRepeat (newPage : Frame) (address : Addr) (s : Paging) : Option Paging :=
  match lookup s address with
  | .page oldPage _ dirty =>
      if s.highMem ≤ oldPage then none
      else if LOW_MEM ≤ oldPage ∧ s.memMap oldPage = 1 then
        some ((setLookup s address (.page oldPage true dirty)).release newPage)
      else
        some (((setLookup (s.setData newPage (s.data oldPage)) address (.page newPage true dirty)).setKernel
          newPage false).freePage oldPage)
  | _ => some (s.release newPage)

/-- `un_wp_page`. -/
def unWpPage (address : Addr) (s : Paging) : Option Paging :=
  match lookup s address with
  | .page oldPage _ dirty =>
      if s.highMem ≤ oldPage then none
      else if LOW_MEM ≤ oldPage ∧ s.memMap oldPage = 1 then some (setLookup s address (.page oldPage true dirty))
      else
        match getFreePage s with
        | none => none
        | some newPage => unWpRepeat newPage address (s.take newPage)
  | _ => some s

/-- `write_verify`. -/
def writeVerify (address : Addr) (s : Paging) : Option Paging :=
  match s.dir (dirIndex address) with
  | none => some s
  | some _ =>
      match lookup s address with
      | .page _ false _ => unWpPage getFreePage address s
      | _ => some s

end

/-! ## Accesses -/

/-- A byte of memory, where there is a page. -/
def readByte (s : Paging) (a : Addr) : Option Byte :=
  match lookup s a with
  | .page f _ _ => some (s.data f (a.toNat % 4096))
  | _ => none

/-- The kernel may write a page that is read-only. -/
def writeByte (s : Paging) (a : Addr) (x : Byte) : Option Paging :=
  match lookup s a with
  | .page f rw _ => some ((setLookup s a (.page f rw true)).setByte f (a.toNat % 4096) x)
  | _ => none

/-- The four offsets are in the segment. -/
def Inside (d : Desc) (addr : Addr) : Prop := addr.toNat + 3 ≤ d.last

instance (d : Desc) (addr : Addr) : Decidable (Inside d addr) := inferInstanceAs (Decidable (_ ≤ _))

/-- The linear address of byte `k` of the word. -/
def byteAddr (d : Desc) (addr : Addr) (k : Nat) : Addr := d.base + addr + BitVec.ofNat 32 k

/-- `get_fs_long`, in a segment; `none` is a fault. -/
def getFsLong (d : Desc) (addr : Addr) (s : Paging) : Option (BitVec 32) :=
  if Inside d addr then do
    let b0 ← readByte s (byteAddr d addr 0)
    let b1 ← readByte s (byteAddr d addr 1)
    let b2 ← readByte s (byteAddr d addr 2)
    let b3 ← readByte s (byteAddr d addr 3)
    return b3 ++ b2 ++ b1 ++ b0
  else none

/-- `put_fs_long`, in a segment. -/
def putFsLong (d : Desc) (addr : Addr) (data : BitVec 32) (s : Paging) : Option Paging :=
  if Inside d addr then
    (List.range 4).foldlM (fun s k => writeByte s (byteAddr d addr k) (data.extractLsb' (8 * k) 8)) s
  else none

/-- How a call ends before the access. -/
inductive Stop where
  /-- It returns `-EIO`. -/
  | eio
  /-- The current task is ended. -/
  | exit
  deriving DecidableEq

section
variable (getFreePage : Paging → Option Frame) (W : Programs)

/-- `get_long`, up to the access: "see if it is present". -/
def prepareGet (p : Tracee) (addr : Addr) (s : Paging) : Except Stop Paging :=
  if p.ldt.limit.sle (addr + 4) then .error .eio
  else
    match s.dir (dirIndex p.ldt.address) with
    | some _ => .ok s
    | none =>
        match doNoPage getFreePage W p p.ldt.address s with
        | none => .error .exit
        | some s => .ok s

/-- `put_long`, up to the access. -/
def preparePut (p : Tracee) (addr : Addr) (s : Paging) : Except Stop Paging :=
  if p.ldt.limit.sle (addr + 4) then .error .eio
  else
    let present :=
      match s.dir (dirIndex p.ldt.address) with
      | some _ => some s
      | none => doNoPage getFreePage W p p.ldt.address s
    match present with
    | none => .error .exit
    | some s =>
        match writeVerify getFreePage p.ldt.address s with
        | none => .error .exit
        | some s => .ok s

/-- `get_long`: what is read, if the access does not fault. -/
def getLong (p : Tracee) (addr : Addr) (s : Paging) : Except Stop (Option (BitVec 32) × Paging) := do
  let s ← prepareGet getFreePage W p addr s
  return (getFsLong p.ldt addr s, s)

/-- `put_long`: the memory at the access, and after it. -/
def putLong (p : Tracee) (addr : Addr) (data : BitVec 32) (s : Paging) : Except Stop (Paging × Option Paging) := do
  let s ← preparePut getFreePage W p addr s
  return (s, putFsLong p.ldt addr data s)

end

/-! ## What the accesses are for -/

/-- The pages of a task; the first one has the low memory. -/
def pages (u : Nat) : Nat := if u = 0 then copied 0 else 1024 * TASK_TABLES

/-- The memory of the tasks other than `t` is the same. -/
structure Same (t : Nat) (s s' : Paging) : Prop where
  entry : ∀ u v, u ≠ t → v < pages u → s'.at u v = s.at u v
  data : ∀ u v f rw b, u ≠ t → v < pages u → s.at u v = .page f rw b → s'.data f = s.data f
  disk : s'.disk = s.disk

/-- There is a page. -/
def IsPage (e : Entry) : Prop := ∃ f rw b, e = .page f rw b

/-- The pages of the word are there. -/
def Present (d : Desc) (addr : Addr) (s : Paging) : Prop := ∀ k < 4, IsPage (lookup s (byteAddr d addr k))

/-- They belong to the child. -/
def Own (d : Desc) (addr : Addr) (s : Paging) : Prop :=
  ∀ k < 4, Private s (dirIndex (byteAddr d addr k)) (tableIndex (byteAddr d addr k))

/-- The two accesses. -/
inductive Access where
  | get
  | put (data : BitVec 32)

section
variable (getFreePage : Paging → Option Frame) (W : Programs)

/-- **What the accesses are for**: a word that is accepted is in the segment, its pages are there, those that are
    written belong to the child, and the other tasks notice nothing. -/
def Meets (p : Tracee) (t : Nat) (addr : Addr) (s : Paging) : Access → Prop
  | .get =>
      match getLong getFreePage W p addr s with
      | .error .eio => True
      | .error .exit => Inside p.ldt addr
      | .ok (word, s') => Inside p.ldt addr ∧ Present p.ldt addr s' ∧ word ≠ none ∧ Same t s s'
  | .put data =>
      match putLong getFreePage W p addr data s with
      | .error .eio => True
      | .error .exit => Inside p.ldt addr
      | .ok (s', after) =>
          Inside p.ldt addr ∧ Present p.ldt addr s' ∧ Own p.ldt addr s' ∧ ∃ s'', after = some s'' ∧ Same t s s''

/-- `get_free_page` fails before the access. -/
def OutOfMemory (p : Tracee) (t : Nat) (s : Paging) (a : Access) : Prop :=
  match s.dir (dirOf t 0), a with
  | none, _ => getFreePage s = none ∨ ∃ g, getFreePage s = some g ∧ getFreePage (newTable p.ldt.address g s) = none
  | some _, .get => False
  | some _, .put _ =>
      getFreePage s = none ∧ ∃ f b, s.at t 0 = .page f false b ∧ ¬(LOW_MEM ≤ f ∧ s.memMap f = 1)

/-- Page `v` of the child is ready for an access: the first page is made so if it is there, or has no page table. -/
def Ready (t : Nat) (s : Paging) (a : Access) (v : Nat) : Prop :=
  if v = 0 then s.dir (dirOf t 0) = none ∨ IsPage (s.at t 0)
  else
    IsPage (s.at t v) ∧
      match a with
      | .get => True
      | .put _ => Private s (dirOf t v) (v % 1024)

/-- When the accesses are what they are for. -/
def Fine (p : Tracee) (t : Nat) (addr : Addr) (s : Paging) (a : Access) : Prop :=
  ¬p.ldt.limit.sle (addr + 4) →
    addr.toNat < 2 ^ 31 - 4 ∧ (OutOfMemory getFreePage p t s a ∨ ∀ k < 4, Ready t s a ((addr.toNat + k) / 4096))

end

end PtraceMemory
end Kernel
end Linux095
