import Linux095.Coop.Discipline
import Linux095.Fs.Namei

/-!
# `Fs.InodeTable` — inodes in core, under concurrency (`fs/inode.c`, `fs/minix/bitmap.c`)

The functions that make and give up references to inodes, as threads. All of them may sleep: while they wait for an
inode that is locked, and while a block is read.

* `State` — the inode table, what is on the disks, and the files and tasks that hold inodes;
* `iput`, `getEmptyInode`, `iget`, `minixNewInode`, `minixUnlink` — the source's functions.

Nothing is mounted or unmounted, so super blocks are constants, and not locked. The contents of files are left out.
The counts do not overflow: there are 64 tasks and 64 files. Loops take fuel.
-/

namespace Linux095
namespace Fs
namespace Inodes
open Coop
open Namei (inMap)
open Minix.Truncate (S_IFMT hasZones)

/-! ## Data model -/

def NR_FILE : Nat := 64
def NR_OPEN : Nat := 20
def S_IFBLK : BitVec 16 := 0o060000#16

/-- `struct inode`. -/
structure Inode where
  iDev : Dev
  iIno : Ino
  iMode : BitVec 16
  iNlink : BitVec 16
  iSb : Option Nat
  iCount : Nat
  iLock : Bool
  iDirt : Bool
  iPipe : Bool
  iMount : Bool

/-- `memset(inode,0,sizeof(*inode))`. -/
def Inode.zero : Inode := ⟨0, 0, 0, 0, none, 0, false, false, false, false⟩

/-- `struct minix_inode`. -/
structure RawInode where
  iMode : BitVec 16
  iNlinks : BitVec 16

/-- `struct file`. -/
structure File where
  fCount : Nat
  fInode : Option Nat

/-- What has become of a slot of `task[]`. -/
inductive Status where
  | free
  /-- In `sys_fork`. -/
  | newborn
  | live
  | zombie
  deriving DecidableEq, Repr

/-- `struct task_struct`. -/
structure Task where
  status : Status
  filp : Nat → Option Nat
  closeOnExec : Nat → Bool
  pwd : Option Nat
  root : Option Nat
  executable : Option Nat
  library : Option Nat

/-- The tables. The last five fields are not in the kernel, they say what has happened. -/
structure State where
  inode : Nat → Inode
  /-- The raw inodes: the device, the block, and where in the block. -/
  rawInode : Dev → Nat → Nat → RawInode
  /-- The bits of the inode map of a super block. -/
  imap : Nat → Ino → Bool
  lastInode : Nat
  file : Nat → File
  task : Nat → Task
  /-- The process whose `iput` is truncating and freeing an inode. -/
  releasing : Nat → Option Nat
  /-- What has been truncated, and then freed, by `iput`. -/
  released : List (Dev × Ino)
  freed : List (Dev × Ino)
  /-- Some `iget` has found an inode that was being released, or has read in an inode that is not allocated. -/
  late : Bool
  /-- Some task has died with something in its hands. -/
  orphaned : Bool

namespace State

def setInode (s : State) (i : Nat) (f : Inode → Inode) : State :=
  { s with inode := fun x => if x = i then f (s.inode x) else s.inode x }

/-- `inode->i_count++`. -/
def dup (s : State) (i : Nat) : State := s.setInode i fun x => { x with iCount := x.iCount + 1 }

/-- `inode->i_count--`. -/
def drop (s : State) (i : Nat) : State := s.setInode i fun x => { x with iCount := x.iCount - 1 }

def setLock (s : State) (i : Nat) (v : Bool) : State := s.setInode i fun x => { x with iLock := v }

def setDirt (s : State) (i : Nat) (v : Bool) : State := s.setInode i fun x => { x with iDirt := v }

/-- The device and the number of an inode. -/
def key (s : State) (i : Nat) : Dev × Ino := ((s.inode i).iDev, (s.inode i).iIno)

end State

/-! ## Reading and writing inodes -/

/-- `wait_on_inode`. -/
def waitOnInode (i : Nat) : Thread State Unit := .await fun s => !(s.inode i).iLock

/-- `lock_inode`. -/
def lockInode (i : Nat) : Thread State Unit := do
  waitOnInode i
  .modify fun s => s.setLock i true

/-- `unlock_inode`. -/
def unlockInode (i : Nat) : Thread State Unit := .modify fun s => s.setLock i false

/-- `(inode->i_ino-1)/MINIX_INODES_PER_BLOCK`, without the blocks that come before. -/
def inodeBlock (ino : Ino) : Nat := (ino.setWidth 32 - 1).toNat / 32

/-- `(inode->i_ino-1)%MINIX_INODES_PER_BLOCK`. -/
def inodeSlot (ino : Ino) : Nat := (ino.setWidth 32 - 1).toNat % 32

/-- What `minix_read_inode` does once the block `b` of `dev` has been read. -/
def State.readRaw (s : State) (i : Nat) (dev : Dev) (b : Nat) : State :=
  s.setInode i fun x =>
    let raw := s.rawInode dev b (inodeSlot x.iIno)
    { x with iMode := raw.iMode, iNlink := raw.iNlinks }

/-- What `minix_write_inode` does once the block `b` of `dev` has been read. -/
def State.writeRaw (s : State) (i : Nat) (dev : Dev) (b : Nat) : State :=
  let x := s.inode i
  let s1 := { s with rawInode := fun d c r =>
    if d = dev ∧ c = b ∧ r = inodeSlot x.iIno then ⟨x.iMode, x.iNlink⟩ else s.rawInode d c r }
  s1.setDirt i false

/-- `write_inode`, with `minix_write_inode`. -/
def writeInode (i : Nat) : Thread State Unit := do
  lockInode i
  let x ← .reads fun s => s.inode i
  if !x.iDirt ∨ x.iDev = 0 then unlockInode i
  else
    .doze
    .modify fun s => s.writeRaw i x.iDev (inodeBlock x.iIno)
    unlockInode i

/-- `read_inode`, with `minix_read_inode`. -/
def readInode (i : Nat) : Thread State Unit := do
  lockInode i
  let x ← .reads fun s => s.inode i
  .doze
  .modify fun s => s.readRaw i x.iDev (inodeBlock x.iIno)
  unlockInode i

/-- `sync_inodes`, with `n` inodes left from `i` on. -/
def syncInodesFrom : Nat → Nat → Thread State Unit
  | 0, _ => return
  | n + 1, i => do
      waitOnInode i
      let x ← .reads fun s => s.inode i
      if x.iDirt ∧ !x.iPipe then
        writeInode i
        syncInodesFrom n (i + 1)
      else syncInodesFrom n (i + 1)

/-- `sync_dev`, which sleeps while buffers are written. -/
def syncDev : Thread State Unit := do
  .doze
  syncInodesFrom NR_INODE 0
  .doze

/-! ## Releasing inodes -/

/-- `iput` has seen that nobody else has the inode, and that it has no links. -/
def State.beginRelease (s : State) (p i : Nat) : State :=
  { s with releasing := fun x => if x = i then some p else s.releasing x, released := s.key i :: s.released }

/-- `minix_free_inode` clears the bit in the map of the super block `j`. -/
def State.free (s : State) (i j : Nat) : State :=
  { s with
    inode := fun x => if x = i then .zero else s.inode x
    imap := fun x ino => if x = j ∧ ino = (s.inode i).iIno then false else s.imap x ino
    releasing := fun x => if x = i then none else s.releasing x
    freed := s.key i :: s.freed }

/-- `minix_truncate`: blocks are freed, again and again until none is busy. -/
def minixTruncate (i : Nat) : Thread State Unit := do
  let mode ← .reads fun s => (s.inode i).iMode
  if hasZones mode then
    .doze
    .modify fun s => s.setDirt i true
  else return

section
variable (sb : Nat → Namei.SuperBlock)

/-- `minix_free_inode`. -/
def minixFreeInode (i : Nat) : Thread State Unit := do
  let x ← .reads fun s => s.inode i
  if x.iDev = 0 then .modify fun s => s.setInode i fun _ => .zero
  else if 1 < x.iCount then return
  else if x.iNlink ≠ 0 then return
  else
    match x.iSb with
    | none => return
    | some j => if inMap (sb j) x.iIno then .modify fun s => s.free i j else return

/-- `iput` from the label `repeat` on. -/
def putLast (p i : Nat) : Nat → Thread State Unit
  | 0 => .stop
  | fuel + 1 => do
      let x ← .reads fun s => s.inode i
      if 1 < x.iCount then .modify fun s => s.drop i
      else if x.iNlink = 0 then
        .modify fun s => s.beginRelease p i
        minixTruncate i
        minixFreeInode sb i
      else if x.iDirt then
        writeInode i
        waitOnInode i
        putLast p i fuel
      else .modify fun s => s.drop i

/-- The last reference to a pipe takes its page along. -/
def State.dropPipe (s : State) (i : Nat) : State :=
  s.setInode i fun x =>
    if x.iCount = 1 then { x with iCount := 0, iDirt := false, iPipe := false } else { x with iCount := x.iCount - 1 }

/-- `iput`, by the process `p`. The panic "trying to free free inode" is a fault. -/
def iput (p fuel : Nat) : Option Nat → Thread State Unit
  | none => return
  | some i => do
      waitOnInode i
      let x ← .reads fun s => s.inode i
      if x.iCount = 0 then .fault
      else if x.iPipe then .modify fun s => s.dropPipe i
      else if x.iDev = 0 then .modify fun s => s.drop i
      else if x.iMode &&& S_IFMT = S_IFBLK then
        syncDev
        waitOnInode i
        putLast sb p i fuel
      else putLast sb p i fuel

end

/-! ## Getting inodes -/

/-- The search of `get_empty_inode`, and `last_inode` after it: a clean one that is free, or else the last free one. -/
def findEmpty (s : State) : Option Nat × Nat :=
  let l := (List.range NR_INODE).map fun k => (s.lastInode + 1 + k) % NR_INODE
  match l.find? fun i => (s.inode i).iCount = 0 ∧ !(s.inode i).iDirt ∧ !(s.inode i).iLock with
  | some i => (some i, i)
  | none => ((l.filter fun i => (s.inode i).iCount = 0).getLast?, s.lastInode)

/-- `while (inode->i_dirt)` of `get_empty_inode`. -/
def cleanInode (i : Nat) : Nat → Thread State Unit
  | 0 => .stop
  | fuel + 1 => do
      if ← .reads fun s => (s.inode i).iDirt then
        writeInode i
        waitOnInode i
        cleanInode i fuel
      else return

/-- `get_empty_inode`. -/
def getEmptyInode : Nat → Thread State Nat
  | 0 => .stop
  | fuel + 1 => do
      let c ← .reads findEmpty
      .modify fun s => { s with lastInode := c.2 }
      match c.1 with
      | none => .stop
      | some i =>
          waitOnInode i
          cleanInode i fuel
          if ← .when (fun s => (s.inode i).iCount = 0)
              (fun s => some (s.setInode i fun _ => { Inode.zero with iCount := 1 })) then
            return i
          else getEmptyInode fuel

section
variable (sb : Nat → Namei.SuperBlock)

/-- `get_super`. -/
def getSuper (dev : Dev) : Option Nat :=
  if dev = 0 then none else (List.range NR_SUPER).find? fun j => (sb j).sDev == dev

/-- The first inode in core that is `nr` of `dev`. -/
def findInode (s : State) (dev : Dev) (nr : Ino) : Option Nat :=
  (List.range NR_INODE).find? fun i => (s.inode i).iDev == dev && (s.inode i).iIno == nr

/-- The inode `nr` of the super block `j` is there, and in use. -/
def State.allocated (s : State) (j : Nat) (nr : Ino) : Bool := inMap (sb j) nr && s.imap j nr

/-- `iget` takes a reference to what it has found. -/
def State.hit (s : State) (i : Nat) : State := { s.dup i with late := s.late || (s.releasing i).isSome }

/-- `iget` makes `empty` the inode `nr` of `dev`. -/
def State.attach (s : State) (empty j : Nat) (dev : Dev) (nr : Ino) : State :=
  { s.setInode empty fun x => { x with iSb := some j, iDev := dev, iIno := nr } with
    late := s.late || !s.allocated sb j nr }

/-- From an inode that is in core to what is mounted on it, as the end of `iget`. -/
def crossMount (p fuel i empty : Nat) : Thread State (Option Nat) := do
  match (List.range NR_SUPER).find? fun j => (sb j).sCovered == some i with
  | none =>
      iput sb p fuel (some empty)
      return some i
  | some j =>
      iput sb p fuel (some i)
      match (sb j).sMounted with
      | none =>
          iput sb p fuel (some empty)
          return none
      | some m =>
          .modify fun s => s.dup m
          waitOnInode m
          iput sb p fuel (some empty)
          return some m

/-- The loop of `iget`, which starts again when the inode is another one by the time it is unlocked. -/
def scan (p : Nat) (dev : Dev) (nr : Ino) (empty : Nat) : Nat → Thread State (Option Nat)
  | 0 => .stop
  | fuel + 1 => do
      match ← .reads fun s => findInode s dev nr with
      | some i =>
          waitOnInode i
          let x ← .reads fun s => s.inode i
          if x.iDev = dev ∧ x.iIno = nr then
            .modify fun s => s.hit i
            if x.iMount then crossMount sb p fuel i empty
            else
              iput sb p fuel (some empty)
              return some i
          else scan p dev nr empty fuel
      | none =>
          match getSuper sb dev with
          | none =>
              iput sb p fuel (some empty)
              return none
          | some j =>
              .modify fun s => s.attach sb empty j dev nr
              readInode empty
              return some empty

/-- `iget`. -/
def iget (p fuel : Nat) (dev : Dev) (nr : Ino) : Thread State (Option Nat) :=
  if dev = 0 then .stop
  else do
    let empty ← getEmptyInode fuel
    scan sb p dev nr empty fuel

/-! ## Links -/

/-- `minix_new_inode` takes the bit `nr` of the map; what has happened to this number before is over. -/
def State.allocate (s : State) (empty j : Nat) (dev : Dev) (nr : Ino) : State :=
  { s.setInode empty fun x =>
      { x with iSb := some j, iDev := dev, iIno := nr, iNlink := 1, iCount := 1, iDirt := true } with
    imap := fun x ino => if x = j ∧ ino = nr then true else s.imap x ino
    released := s.released.filter fun k => k ≠ (dev, nr)
    freed := s.freed.filter fun k => k ≠ (dev, nr) }

/-- `minix_new_inode`; which zero bit is found is open. -/
def minixNewInode (p fuel : Nat) (dev : Dev) : Thread State (Option Nat) := do
  let empty ← getEmptyInode fuel
  match getSuper sb dev with
  | none =>
      iput sb p fuel (some empty)
      return none
  | some j =>
      let nr ← .any Ino
      if ← .when (fun s => inMap (sb j) nr && !s.imap j nr) (fun s => some (s.allocate empty j dev nr)) then
        return some empty
      else
        iput sb p fuel (some empty)
        return none

/-- `inode->i_nlink--`, and first `inode->i_nlink=1` if there is no link. -/
def State.unlink (s : State) (i : Nat) : State :=
  s.setInode i fun x => { x with iNlink := (if x.iNlink = 0 then 1 else x.iNlink) - 1, iDirt := true }

/-- `minix_unlink`. What the directory says, and whether it may be done, is open. -/
def minixUnlink (p fuel dir : Nat) : Thread State Unit := do
  .doze
  match ← .any (Option Ino) with
  | none => iput sb p fuel (some dir)
  | some nr =>
      let dev ← .reads fun s => (s.inode dir).iDev
      match ← iget sb p fuel dev nr with
      | none => iput sb p fuel (some dir)
      | some i =>
          if ← .any Bool then
            .modify fun s => s.unlink i
            iput sb p fuel (some i)
            iput sb p fuel (some dir)
          else
            iput sb p fuel (some i)
            iput sb p fuel (some dir)

end

end Inodes
end Fs
end Linux095
