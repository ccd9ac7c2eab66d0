import Linux095.Seq.Program
import Mathlib.Algebra.Group.Nat.Defs

/-!
# `Fs.Exec` — executing a new program (`fs/exec.c`)

`do_execve` reads the header of a file, which may name an interpreter, copies the strings of the arguments and of the
environment into pages of their own, and then gives up the old program: the pages become the top of the new memory, and
below the strings come tables of pointers to them.

* `copyStrings`, `createTables`, `changeLdt` — the source's functions, byte by byte;
* `script` — the part that does the `#!` interpretation;
* `doExecve` — the whole call. `goto restart_interp` is taken once at most, so that both passes are written out.

What the call holds (inodes, buffers and pages) is in the state. A call stops where user memory cannot be read, and
where it reads in the wrong segment or releases what it does not hold.
-/

namespace Linux095
namespace Fs
namespace Exec
open Seq Prog

def PAGE_SIZE : Nat := 4096
def MAX_ARG_PAGES : Nat := 32
def TASK_SIZE : Nat := 0x04000000
def LIBRARY_SIZE : Nat := 0x00400000
def BLOCK_SIZE : Nat := 1024
def NR_OPEN : Nat := 20
def ZMAGIC : Nat := 0o413

def ENOENT : Int := 2
def ENOEXEC : Int := 8
def ENOMEM : Int := 12
def EACCES : Int := 13

abbrev Byte : Type := BitVec 8

/-! ## The state -/

/-- What `fs` is. -/
inductive Seg where
  | user
  | kernel
  deriving DecidableEq

/-- A `char *`: into user memory, where 0 is NULL, or to a string of the kernel. -/
inductive Ptr where
  | user (a : Nat)
  | kernel (l : List Byte)
  deriving DecidableEq

/-- A `char **`. -/
inductive Table where
  | user (a : Nat)
  | kernel (l : List Ptr)

/-- What `do_execve` needs of an inode. -/
structure Inode where
  ino : Nat
  iMode : BitVec 16
  iUid : Nat
  iGid : Nat
  iSize : Nat

structure Sigaction where
  saHandler : Nat
  saMask : BitVec 32
  saFlags : BitVec 32

def SIG_IGN : Nat := 1

/-- What `do_execve` needs of `struct task_struct`. -/
structure Current where
  executable : Option Nat
  signal : BitVec 32
  blocked : BitVec 32
  sigaction : Nat → Sigaction
  filp : Nat → Option Nat
  closeOnExec : BitVec 32
  usedMath : Bool
  endCode : Nat
  endData : Nat
  brk : Nat
  startStack : Nat
  euid : Nat
  suid : Nat
  egid : Nat
  sgid : Nat
  groups : List Nat
  /-- `flags & PF_PTRACED`. -/
  ptraced : Bool

structure State where
  fs : Seg
  /-- The user's memory, and `get_limit(0x17)`. -/
  user : Nat → Byte
  limit : Nat
  /-- The contents of pages from `get_free_page`. -/
  frame : Nat → Nat → Byte
  page : Nat → Nat
  /-- How many inodes have been looked up, buffers read, and pages asked for. -/
  lookups : Nat
  reads : Nat
  allocs : Nat
  /-- What this call holds. -/
  inodes : List Nat
  buffers : List Nat
  frames : List Nat
  current : Current
  /-- `eip[0]`, `eip[1]` and `eip[3]`. -/
  eip : Nat
  cs : Nat
  esp : Nat

/-- What comes from elsewhere. -/
structure World where
  namei : Nat → Option Inode
  bread : Nat → Option (Nat → Byte)
  memory : Nat → Bool
  /-- What is found in memory of the new program that no page has been put into. -/
  fresh : Nat → Byte

/-- Why a call does not return. -/
inductive Off where
  /-- A page fault in user memory that cannot be handled. -/
  | died
  | panic
  | wrongSegment
  | notHeld
  | loop
  deriving DecidableEq

abbrev Call (α : Type) : Type := Prog State Off α

/-! ## Memory -/

/-- The long at `a`. -/
def long (m : Nat → Byte) (a : Nat) : Nat :=
  (m a).toNat + 2 ^ 8 * (m (a + 1)).toNat + 2 ^ 16 * (m (a + 2)).toNat + 2 ^ 24 * (m (a + 3)).toNat

def putLong (v a : Nat) (m : Nat → Byte) : Nat → Byte := fun x =>
  if a ≤ x ∧ x < a + 4 then BitVec.ofNat 8 (v / 2 ^ (8 * (x - a))) else m x

/-- `get_fs_byte(p + k)`. -/
def getFsByte (p : Ptr) (k : Nat) : Call Byte := fun s =>
  match p, s.fs with
  | .user a, .user => if a + k < s.limit then .ok (s.user (a + k), s) else .error .died
  | .kernel l, .kernel => if k ≤ l.length then .ok (l.getD k 0, s) else .error .wrongSegment
  | _, _ => .error .wrongSegment

/-- `get_fs_long(t + i)`. -/
def getFsLong (t : Table) (i : Nat) : Call Ptr := fun s =>
  match t, s.fs with
  | .user a, .user => if a + 4 * i + 3 < s.limit then .ok (.user (long s.user (a + 4 * i)), s) else .error .died
  | .kernel l, .kernel =>
      match l[i]? with
      | some p => .ok (p, s)
      | none => .error .wrongSegment
  | _, _ => .error .wrongSegment

def putFsLong (v a : Nat) : Call Unit := fun s =>
  if s.fs = .user then
    if a + 3 < s.limit then .ok ((), { s with user := putLong v a s.user }) else .error .died
  else .error .wrongSegment

def setFs (v : Seg) : Call Unit := .modify fun s => { s with fs := v }

/-- `if (b) set_fs(v)`. -/
def setFsIf (b : Bool) (v : Seg) : Call Unit := .modify fun s => if b then { s with fs := v } else s

section

variable (w : World)

/-- `namei`. The path is read where `fs` says. -/
def namei (path : Seg) : Call (Option Inode) := fun s =>
  if s.fs = path then
    let found := w.namei s.lookups
    .ok (found, { s with lookups := s.lookups + 1, inodes := found.elim s.inodes fun x => x.ino :: s.inodes })
  else .error .wrongSegment

def iput (x : Inode) : Call Unit := fun s =>
  if x.ino ∈ s.inodes then .ok ((), { s with inodes := s.inodes.erase x.ino }) else .error .notHeld

/-- `bread`, of the first block: the buffer, and what is in it. -/
def bread : Call (Option (Nat × (Nat → Byte))) := fun s =>
  let s' := { s with reads := s.reads + 1 }
  match w.bread s.reads with
  | none => .ok (none, s')
  | some data => .ok (some (s.reads, data), { s' with buffers := s.reads :: s.buffers })

def brelse (bh : Nat) : Call Unit := fun s =>
  if bh ∈ s.buffers then .ok ((), { s with buffers := s.buffers.erase bh }) else .error .notHeld

/-- `get_free_page`. A page is named by how many have been asked for. -/
def getFreePage : Call Nat := fun s =>
  let f := s.allocs + 1
  if w.memory s.allocs then
    .ok (f, { s with
      allocs := f, frames := f :: s.frames, frame := fun x => if x = f then fun _ => 0 else s.frame x })
  else .ok (0, { s with allocs := f })

def freePage (f : Nat) : Call Unit := fun s =>
  if f = 0 then .ok ((), s)
  else if f ∈ s.frames then .ok ((), { s with frames := s.frames.erase f })
  else .error .notHeld

/-! ## `count` and `copy_strings` -/

/-- The loop of `count`. -/
def countLoop (argv : Nat) : Nat → Nat → Call Nat
  | 0, _ => .halt .loop
  | fuel + 1, i => do
      let p ← getFsLong (.user argv) i
      if p = .user 0 then return i else countLoop argv fuel (i + 1)

/-- `count`. Every long that it reads is below the limit. -/
def count (argv : Nat) : Call Nat := do
  if argv = 0 then return 0
  else
    let limit ← .reads State.limit
    countLoop argv (limit + 1) 0

/-- How far a string can be read. -/
def Ptr.room (limit : Nat) : Ptr → Nat
  | .user a => limit - a + 1
  | .kernel l => l.length + 1

/-- `do len++; while (get_fs_byte(tmp++))`. -/
def lenLoop (tmp : Ptr) : Nat → Nat → Call Nat
  | 0, _ => .halt .loop
  | fuel + 1, len => do
      let c ← getFsByte tmp len
      if c = 0 then return len + 1 else lenLoop tmp fuel (len + 1)

/-- The length of a string, with the zero at its end. -/
def strLen (tmp : Ptr) : Call Nat := do
  let limit ← .reads State.limit
  lenLoop tmp (tmp.room limit) 0

/-- `p`, `offset` and `pag`. -/
structure Cursor where
  p : Nat
  offset : Int
  pag : Nat

/-- `page[i]`, which is 0 when there is no memory for it. -/
def findPage (i : Nat) : Call Nat := do
  let pag ← .reads fun s => s.page i
  if pag ≠ 0 then return pag
  else
    let pag ← getFreePage w
    .modify fun s => { s with page := fun x => if x = i then pag else s.page x }
    return pag

/-- `--p`, `--offset` and what follows. -/
def seek (fromKmem : Nat) (oldFs : Seg) (c : Cursor) : Call Cursor := do
  let p := c.p - 1
  let offset := c.offset - 1
  if offset < 0 then
    setFsIf (fromKmem == 2) oldFs
    let pag ← findPage w (p / PAGE_SIZE)
    setFsIf (fromKmem == 2 && pag != 0) .kernel
    return ⟨p, p % PAGE_SIZE, pag⟩
  else return ⟨p, offset, c.pag⟩

/-- `*(pag + offset) = b`. -/
def store (c : Cursor) (b : Byte) (s : State) : State :=
  { s with frame := fun f => if f = c.pag then fun k => if k = c.offset.toNat then b else s.frame f k else s.frame f }

/-- `while (len)`. -/
def copyBytes (fromKmem : Nat) (oldFs : Seg) (tmp : Ptr) : Nat → Cursor → Call (Option Cursor)
  | 0, c => return some c
  | len + 1, c => do
      let c ← seek w fromKmem oldFs c
      if c.pag = 0 then return none
      else
        let b ← getFsByte tmp len
        .modify (store c b)
        copyBytes fromKmem oldFs tmp len c

/-- `while (argc-- > 0)`. -/
def copyLoop (fromKmem : Nat) (oldFs : Seg) (argv : Table) : Nat → Cursor → Call (Option Cursor)
  | 0, c => return some c
  | argc + 1, c => do
      setFsIf (fromKmem == 1) .kernel
      let tmp ← getFsLong argv argc
      if tmp = .user 0 then .halt .panic
      else
        setFsIf (fromKmem == 1) oldFs
        let len ← strLen tmp
        if c.p < len then
          setFs oldFs
          return none
        else
          let copied ← copyBytes w fromKmem oldFs tmp len c
          match copied with
          | none => return none
          | some c => copyLoop fromKmem oldFs argv argc c

/-- `copy_strings`. -/
def copyStrings (argc : Int) (argv : Table) (p fromKmem : Nat) : Call Nat := do
  if p = 0 then return 0
  else
    let oldFs ← .reads State.fs
    setFsIf (fromKmem == 2) .kernel
    let copied ← copyLoop w fromKmem oldFs argv argc.toNat ⟨p, 0, 0⟩
    match copied with
    | none => return 0
    | some c =>
        setFsIf (fromKmem == 2) oldFs
        return c.p

/-! ## The file -/

/-- `bh` and the header, and the ids that the program is to run with. -/
structure Header where
  bh : Nat
  data : Nat → Byte
  eUid : Nat
  eGid : Nat

def S_ISREG (mode : BitVec 16) : Bool := mode &&& 0o170000 == 0o100000
def S_ISUID : BitVec 16 := 0o4000
def S_ISGID : BitVec 16 := 0o2000

/-- `in_group_p`, with the groups up to NOGROUP. -/
def inGroup (t : Current) (gid : Nat) : Bool := gid == t.egid || t.groups.contains gid

/-- The bits of `i_mode` that are for `current`. -/
def modeFor (t : Current) (x : Inode) : BitVec 16 :=
  if t.euid = x.iUid then x.iMode >>> 6 else if inGroup t x.iGid then x.iMode >>> 3 else x.iMode

/-- Whether `current` may execute the file. -/
def mayExec (t : Current) (x : Inode) : Bool :=
  modeFor t x &&& 1 != 0 || (x.iMode &&& 0o111 != 0 && t.euid == 0)

/-- From `restart_interp` to `bread`. The error goes to `exec_error2`. -/
def header (x : Inode) : Call (Except Int Header) := do
  let t ← .reads State.current
  if ¬ S_ISREG x.iMode then return .error (-EACCES)
  else
    let eUid := if t.ptraced then t.euid else if x.iMode &&& S_ISUID ≠ 0 then x.iUid else t.euid
    let eGid := if t.ptraced then t.egid else if x.iMode &&& S_ISGID ≠ 0 then x.iGid else t.egid
    if ¬ mayExec t x then return .error (-EACCES)
    else
      match ← bread w with
      | none => return .error (-EACCES)
      | some (bh, data) => return .ok ⟨bh, data, eUid, eGid⟩

/-- A field of `struct exec`. -/
def Header.field (h : Header) (i : Nat) : Nat := long h.data (4 * i)

/-- `ex` is a program. `N_TXTOFF` is 1024 for ZMAGIC. -/
def Header.good (h : Header) (x : Inode) : Bool :=
  let text := h.field 1
  let data := h.field 2
  let bss := h.field 3
  let syms := h.field 4
  h.field 0 == ZMAGIC && h.field 6 == 0 && h.field 7 == 0 && (text + data + bss) % 2 ^ 32 ≤ 0x3000000 &&
    (text + data + syms + BLOCK_SIZE) % 2 ^ 32 ≤ x.iSize

/-! ## The `#!` interpretation -/

def isBlank (c : Byte) : Bool := c == 0x20 || c == 0x09

/-- `buf`, up to the zero. -/
def scriptBuf (data : Nat → Byte) : List Byte := ((List.range 127).map fun i => data (2 + i)).takeWhile (· != 0)

/-- `cp`, after the blanks at the beginning of the line. -/
def scriptLine (buf : List Byte) : List Byte :=
  if 0x0a ∈ buf then (buf.takeWhile (· != 0x0a)).dropWhile isBlank else []

/-- The loop that finds the end of the interpreter's name: `i_name` and `cp` then. -/
def nameLoop (iName : List Byte) : List Byte → List Byte × List Byte
  | [] => (iName, [])
  | c :: cp => if isBlank c then (iName, c :: cp) else nameLoop (if c = 0x2f then cp else iName) cp

/-- `i_name` and `i_arg`. -/
structure Interp where
  iName : List Byte
  iArg : Option (List Byte)

/-- What the line `cp` says: where `cp` ends there will be a zero. -/
def parse (cp : List Byte) : Interp where
  iName := (nameLoop cp cp).1.take ((nameLoop cp cp).1.length - (nameLoop cp cp).2.length)
  iArg := match (nameLoop cp cp).2 with
    | [] => none
    | _ :: arg => some arg

/-- `if (i_arg)`: the splice, with `p` and `argc`. -/
def spliceArg (iArg : Option (List Byte)) (p : Nat) (argc : Int) : Call (Nat × Int) :=
  match iArg with
  | none => return (p, argc)
  | some arg => do
      let p ← copyStrings w 1 (.kernel [.kernel arg]) p 2
      return (p, argc + 1)

/-- The part that does the `#!` interpretation: the interpreter's inode, `p` and `argc`. The error goes to
`exec_error1`. -/
def script (x : Inode) (h : Header) (filename argv envp : Nat) (argc envc : Int) (p : Nat) :
    Call (Except Int (Inode × Nat × Int)) := do
  brelse h.bh
  iput x
  let cp := scriptLine (scriptBuf h.data)
  if cp = [] then return .error (-ENOEXEC)
  else
    let p ← copyStrings w envc (.user envp) p 0
    let argc := argc - 1
    let p ← copyStrings w argc (.user (argv + 4)) p 0
    let p ← copyStrings w 1 (.kernel [.user filename]) p 1
    let argc := argc + 1
    let (p, argc) ← spliceArg w (parse cp).iArg p argc
    let p ← copyStrings w 1 (.kernel [.kernel (parse cp).iName]) p 2
    let argc := argc + 1
    if p = 0 then return .error (-ENOMEM)
    else
      let oldFs ← .reads State.fs
      setFs .kernel
      match ← namei w .kernel with
      | none =>
          setFs oldFs
          return .error (-ENOENT)
      | some x =>
          setFs oldFs
          return .ok (x, p, argc)

/-! ## The new program -/

/-- `put_dirty_page`. A page table has just been freed, so that there is one for it. -/
def putDirtyPage (page address : Nat) : Call Unit := .modify fun s =>
  { s with
    user := fun a => if address ≤ a ∧ a < address + PAGE_SIZE then s.frame page (a - address) else s.user a
    frames := s.frames.erase page }

/-- The loop of `change_ldt`. -/
def changeLdtLoop : Nat → Nat → Call Unit
  | 0, _ => return
  | i + 1, dataBase => do
      let page ← .reads fun s => s.page i
      if page ≠ 0 then
        putDirtyPage page (dataBase - PAGE_SIZE)
        changeLdtLoop i (dataBase - PAGE_SIZE)
      else changeLdtLoop i (dataBase - PAGE_SIZE)

/-- `change_ldt`. Addresses are in the data segment. -/
def changeLdt : Call Nat := do
  .modify fun s => { s with limit := TASK_SIZE, fs := .user }
  changeLdtLoop MAX_ARG_PAGES (TASK_SIZE - LIBRARY_SIZE)
  return TASK_SIZE

/-- A loop of `create_tables`, over `argc` strings from `p` on: `p` and `argv` then. -/
def tableLoop : Nat → Nat → Nat → Call (Nat × Nat)
  | 0, p, argv => return (p, argv)
  | argc + 1, p, argv => do
      putFsLong p argv
      let len ← strLen (.user p)
      tableLoop argc (p + len) (argv + 4)

/-- `create_tables`. -/
def createTables (p argc envc : Nat) : Call Nat := do
  let envp := p - p % 4 - 4 * (envc + 1)
  let argv := envp - 4 * (argc + 1)
  putFsLong envp (argv - 4)
  putFsLong argv (argv - 8)
  putFsLong argc (argv - 12)
  let (p, argvEnd) ← tableLoop argc p argv
  putFsLong 0 argvEnd
  let (_, envpEnd) ← tableLoop envc p envp
  putFsLong 0 envpEnd
  return argv - 12

/-- What becomes of `current` at the point of no return. -/
def Current.renew (t : Current) (x : Inode) : Current :=
  { t with
    executable := some x.ino
    signal := 0
    sigaction := fun i =>
      ⟨if (t.sigaction i).saHandler = SIG_IGN then SIG_IGN else 0, 0, 0⟩
    filp := fun i => if i < NR_OPEN ∧ t.closeOnExec.getLsbD i then none else t.filp i
    closeOnExec := 0
    usedMath := false }

/-- The end of `do_execve`, from the point of no return on. -/
def commit (x : Inode) (h : Header) (p : Nat) (argc envc : Int) : Call Int := do
  .modify fun s => { s with
    inodes := s.inodes.erase x.ino
    current := s.current.renew x
    -- `free_page_tables`
    user := w.fresh }
  let size ← changeLdt
  let p := p + size - (LIBRARY_SIZE + MAX_ARG_PAGES * PAGE_SIZE)
  let p ← createTables p argc.toNat envc.toNat
  .modify fun s => { s with
    current := { s.current with
      endCode := h.field 1
      endData := (h.field 1 + h.field 2) % 2 ^ 32
      brk := (h.field 1 + h.field 2 + h.field 3) % 2 ^ 32
      startStack := p
      suid := h.eUid, euid := h.eUid, sgid := h.eGid, egid := h.eGid
      -- SIGTRAP
      signal := if s.current.ptraced then s.current.signal ||| 0x10 else s.current.signal }
    eip := h.field 5
    esp := p }
  return 0

/-! ## `do_execve` -/

/-- The loop at `exec_error1`, from `page[i]` on. -/
def freePages : Nat → Nat → Call Unit
  | 0, _ => return
  | n + 1, i => do
      let f ← .reads fun s => s.page i
      freePage f
      freePages n (i + 1)

def execError1 (retval : Int) : Call Int := do
  freePages MAX_ARG_PAGES 0
  return retval

def execError2 (x : Inode) (retval : Int) : Call Int := do
  iput x
  execError1 retval

/-- After the `#!` part: the header is checked, and the strings are copied unless they have been. -/
def load (shBang : Bool) (x : Inode) (h : Header) (argv envp : Nat) (argc envc : Int) (p : Nat) : Call Int := do
  brelse h.bh
  if ¬ h.good x then execError2 x (-ENOEXEC)
  else if shBang then commit w x h p argc envc
  else
    let p ← copyStrings w envc (.user envp) p 0
    let p ← copyStrings w argc (.user argv) p 0
    if p = 0 then execError2 x (-ENOMEM) else commit w x h p argc envc

/-- The file begins with `#!`. -/
def Header.isScript (h : Header) : Bool := h.data 0 == 0x23 && h.data 1 == 0x21

/-- `do_execve`. -/
def doExecve (filename argv envp : Nat) : Call Int := do
  if (← .reads State.cs) % 2 ^ 16 ≠ 0x0f then .halt .panic
  else
    .modify fun s => { s with page := fun _ => 0 }
    let p := PAGE_SIZE * MAX_ARG_PAGES - 4
    match ← namei w .user with
    | none => return -ENOENT
    | some x =>
        let argc ← count argv
        let envc ← count envp
        match ← header w x with
        | .error retval => execError2 x retval
        | .ok h =>
            if h.isScript then
              match ← script w x h filename argv envp argc envc p with
              | .error retval => execError1 retval
              | .ok (x, p, argc) =>
                  match ← header w x with
                  | .error retval => execError2 x retval
                  | .ok h => load w true x h argv envp argc envc p
            else load w false x h argv envp argc envc p

end

end Exec
end Fs
end Linux095
