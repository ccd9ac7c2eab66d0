import Linux095.Seq.Program
import Linux095.Fs.Types
import Linux095.Fs.Minix.Truncate
import Mathlib.Logic.Relation
import Mathlib.Algebra.BigOperators.Intervals

/-!
# `Fs.Mounts` — inodes and their super blocks (`fs/super.c`, `fs/inode.c`)

An inode is given its super block when it is read in, and keeps it as long as it is in core. When its device is
unmounted the super block is free for another device, while an inode that nobody uses stays where it is until its place
is needed.

* `iget`, `iput`, `minixNewInode`, `readSuper`, `sysMount`, `sysUmount`, `checkDiskChange` — the source's functions, one
  call after the other;
* `Owned` — **an inode that is used or dirty has the super block of its device**;
* `inodes_owned` — so it is, if no device is mounted in another place than before while there are inodes of it in core.

What is on the disks, and whether a disk has been changed, is open. The bitmaps and zones are left out.
-/

namespace Linux095
namespace Fs
namespace Mounts
open Seq Prog Relation
open Minix.Truncate (S_IFMT S_IFDIR hasZones)

def S_IFBLK : BitVec 16 := 0o060000
def MINIX_ROOT_INO : Ino := 1

/-! ## The tables -/

/-- What mounting needs of `struct inode`. -/
structure Inode where
  iDev : Dev
  iIno : Ino
  iMode : BitVec 16
  iNlink : BitVec 16
  iSb : Option Nat
  iCount : Nat
  iDirt : Bool
  iMount : Bool

/-- `memset(inode,0,sizeof(*inode))`. -/
def Inode.zero : Inode := ⟨0, 0, 0, 0, none, 0, false, false⟩

/-- What mounting needs of `struct super_block`. -/
structure Super where
  sDev : Dev
  sCovered : Option Nat
  sMounted : Option Nat
  deriving DecidableEq

/-- What is on a disk of an inode. -/
structure Raw where
  iMode : BitVec 16
  iNlinks : BitVec 16

structure State where
  superBlock : Nat → Super
  inode : Nat → Inode
  lastInode : Nat

namespace State

def setInode (s : State) (i : Nat) (f : Inode → Inode) : State :=
  { s with inode := fun x => if x = i then f (s.inode x) else s.inode x }

def setSuper (s : State) (j : Nat) (f : Super → Super) : State :=
  { s with superBlock := fun x => if x = j then f (s.superBlock x) else s.superBlock x }

/-- `inode->i_count++`. -/
def dup (s : State) (i : Nat) : State := s.setInode i fun x => { x with iCount := x.iCount + 1 }

/-- `inode->i_count--`. -/
def drop (s : State) (i : Nat) : State := s.setInode i fun x => { x with iCount := x.iCount - 1 }

def setDirt (s : State) (i : Nat) (v : Bool) : State := s.setInode i fun x => { x with iDirt := v }

/-- `sync_inodes`: what has no device is not written. -/
def syncInodes (s : State) : State :=
  { s with inode := fun i => { s.inode i with iDirt := (s.inode i).iDirt && (s.inode i).iDev == 0 } }

end State

/-- Why a call does not return. -/
inductive Off where
  | panic
  /-- `while (inode->i_dirt)`, for an inode that has no device. -/
  | loop

abbrev Call (α : Type) : Type := Prog State Off α

/-! ## Inodes in core -/

/-- `get_super`. -/
def getSuper (sb : Nat → Super) (dev : Dev) : Option Nat :=
  if dev = 0 then none else (List.range NR_SUPER).find? fun j => (sb j).sDev == dev

/-- The search of `get_empty_inode`, and `last_inode` after it: a clean one that is free, or else the last free one. -/
def findEmpty (s : State) : Option Nat × Nat :=
  let l := (List.range NR_INODE).map fun k => (s.lastInode + 1 + k) % NR_INODE
  match l.find? fun i => (s.inode i).iCount = 0 ∧ !(s.inode i).iDirt with
  | some i => (some i, i)
  | none => ((l.filter fun i => (s.inode i).iCount = 0).getLast?, s.lastInode)

/-- `get_empty_inode`. -/
def getEmptyInode : Call Nat := do
  let (found, last) ← .reads findEmpty
  match found with
  | none => .halt .panic
  | some i =>
      let x ← .reads fun s => s.inode i
      if x.iDirt ∧ x.iDev = 0 then .halt .loop
      else
        .modify fun s => { s.setInode i fun _ => { Inode.zero with iCount := 1 } with lastInode := last }
        return i

/-- `iput`; `freed` is whether `minix_free_inode` finds the inode in the map. It does not matter for an inode without a
device or with more than one reference, where it is `false`. -/
def iput (freed : Bool) : Option Nat → Call Unit
  | none => return
  | some i => do
      let x ← .reads fun s => s.inode i
      if x.iCount = 0 then .halt .panic
      else if x.iDev = 0 then .modify fun s => s.drop i
      else
        .modify fun s => if x.iMode &&& S_IFMT = S_IFBLK then s.syncInodes else s
        if 1 < x.iCount then .modify fun s => s.drop i
        else if x.iNlink = 0 then
          .modify fun s => if hasZones x.iMode then s.setDirt i true else s
          .modify fun s => if freed then s.setInode i fun _ => .zero else s
        else .modify fun s => (s.setDirt i false).drop i

/-- The first inode in core that is `nr` of `dev`. -/
def findInode (s : State) (dev : Dev) (nr : Ino) : Option Nat :=
  (List.range NR_INODE).find? fun i => (s.inode i).iDev == dev && (s.inode i).iIno == nr

/-- From an inode that is in core to what is mounted on it, as the end of `iget`. -/
def crossMount (i empty : Nat) : Call (Option Nat) := do
  match ← .reads fun s => (List.range NR_SUPER).find? fun j => (s.superBlock j).sCovered == some i with
  | none =>
      iput false (some empty)
      return some i
  | some j =>
      iput false (some i)
      match ← .reads fun s => (s.superBlock j).sMounted with
      | none =>
          iput false (some empty)
          return none
      | some m =>
          .modify fun s => s.dup m
          iput false (some empty)
          return some m

/-- `iget`, where `raw` is on the disk. -/
def iget (dev : Dev) (nr : Ino) (raw : Raw) : Call (Option Nat) := do
  if dev = 0 then .halt .panic
  else
    let empty ← getEmptyInode
    match ← .reads fun s => findInode s dev nr with
    | some i =>
        .modify fun s => s.dup i
        let x ← .reads fun s => s.inode i
        if x.iMount then crossMount i empty
        else
          iput false (some empty)
          return some i
    | none =>
        match ← .reads fun s => getSuper s.superBlock dev with
        | none =>
            iput false (some empty)
            return none
        | some j =>
            .modify fun s => s.setInode empty fun x =>
              { x with iSb := some j, iDev := dev, iIno := nr, iMode := raw.iMode, iNlink := raw.iNlinks }
            return some empty

/-- `minix_new_inode`: the number is what is found in the map, if there is one. -/
def minixNewInode (dev : Dev) (nr : Option Ino) : Call (Option Nat) := do
  let empty ← getEmptyInode
  match ← .reads fun s => getSuper s.superBlock dev with
  | none =>
      iput false (some empty)
      return none
  | some j =>
      .modify fun s => s.setInode empty fun x => { x with iSb := some j }
      match nr with
      | none =>
          iput false (some empty)
          return none
      | some nr =>
          .modify fun s => s.setInode empty fun x =>
            { x with iDev := dev, iIno := nr, iNlink := 1, iCount := 1, iDirt := true }
          return some empty

/-! ## Super blocks -/

/-- `MAJOR`. -/
def major (dev : Dev) : BitVec 16 := dev >>> 8

section

variable (rootDev : Dev)

/-- `put_super`. -/
def putSuper (dev : Dev) (s : State) : State :=
  if dev = rootDev then s
  else
    match getSuper s.superBlock dev with
    | none => s
    | some j => if (s.superBlock j).sCovered ≠ none then s else s.setSuper j fun x => { x with sDev := 0 }

/-- `invalidate_inodes`. -/
def invalidateInodes (dev : Dev) (s : State) : State :=
  { s with
    inode := fun i => if (s.inode i).iDev = dev then { s.inode i with iDev := 0, iDirt := false } else s.inode i }

/-- `check_disk_change`; `changed` is `floppy_change`. A device is in one super block. -/
def checkDiskChange (dev : Dev) (changed : Bool) (s : State) : State :=
  if major dev ≠ 2 ∨ !changed then s else invalidateInodes dev (putSuper rootDev dev s)

/-- The first super block that is free. -/
def freeSuper (sb : Nat → Super) : Option Nat := (List.range NR_SUPER).find? fun j => (sb j).sDev == 0

/-- `read_super`; `good` is whether there is a file system that can be read. -/
def readSuper (dev : Dev) (changed good : Bool) : Call (Option Nat) := do
  if dev = 0 then return none
  else
    .modify (checkDiskChange rootDev dev changed)
    match ← .reads fun s => getSuper s.superBlock dev with
    | some j => return some j
    | none =>
        match ← .reads fun s => freeSuper s.superBlock with
        | none => return none
        | some j =>
            .modify fun s => s.setSuper j fun _ => ⟨if good then dev else 0, none, none⟩
            return if good then some j else none

/-- `sys_mount`, from `dir_i` on. -/
def sysMount (dev : Dev) (dir : Nat) (changed good freed : Bool) (raw : Raw) : Call Unit := do
  let x ← .reads fun s => s.inode dir
  if x.iCount ≠ 1 ∨ x.iIno = MINIX_ROOT_INO then iput freed (some dir)
  else if x.iMode &&& S_IFMT ≠ S_IFDIR then iput freed (some dir)
  else
    match ← readSuper rootDev dev changed good with
    | none => iput freed (some dir)
    | some j =>
        let sb ← .reads fun s => s.superBlock j
        let x ← .reads fun s => s.inode dir
        if sb.sCovered ≠ none then iput freed (some dir)
        else if x.iMount then iput freed (some dir)
        else
          let root ← iget dev MINIX_ROOT_INO raw
          .modify fun s => s.setSuper j fun sb => { sb with sMounted := root }
          match root with
          | none => iput freed (some dir)
          | some _ =>
              .modify fun s => s.setSuper j fun sb => { sb with sCovered := some dir }
              .modify fun s => s.setInode dir fun x => { x with iMount := true, iDirt := true }

/-- `sys_umount` finds an inode of the device in use. -/
def busy (s : State) (dev : Dev) (mounted : Option Nat) : Bool :=
  (List.range NR_INODE).any fun i =>
    (s.inode i).iDev == dev && (s.inode i).iCount != 0 && !(mounted == some i && (s.inode i).iCount == 1)

/-- `sys_umount`, from `dev` on; `freedCovered` and `freedRoot` are for the two `iput`s. -/
def sysUmount (dev : Dev) (freedCovered freedRoot : Bool) : Call Unit := do
  if dev = rootDev then return
  else
    match ← .reads fun s => getSuper s.superBlock dev with
    | none => return
    | some j =>
        let sb ← .reads fun s => s.superBlock j
        match sb.sCovered with
        | none => return
        | some c =>
            if ← .reads fun s => busy s dev sb.sMounted then return
            else
              .modify fun s => s.setInode c fun x => { x with iMount := false }
              iput freedCovered (some c)
              .modify fun s => s.setSuper j fun sb => { sb with sCovered := none }
              let mounted ← .reads fun s => (s.superBlock j).sMounted
              iput freedRoot mounted
              .modify fun s => s.setSuper j fun sb => { sb with sMounted := none }
              .modify (putSuper rootDev dev)
              .modify State.syncInodes

end

/-! ## Runs -/

/-- The tables, and how many references to each inode the processes have. -/
structure Config where
  tables : State
  held : Nat → Nat

def Config.gain (held : Nat → Nat) : Option Nat → Nat → Nat
  | none => held
  | some i => Function.update held i (held i + 1)

def Config.lose (held : Nat → Nat) (i : Nat) : Nat → Nat := Function.update held i (held i - 1)

section

variable (rootDev : Dev) (canMount canUmount : State → Dev → Bool → Prop)

/-- One call, on behalf of a process that has what it needs. `canMount` and `canUmount` say which devices are mounted
and unmounted. -/
inductive Step : Config → Config → Prop
  /-- `lookup` in a directory, as `open` and `namei` do. -/
  | lookup {s s' : State} {held : Nat → Nat} {o : Option Nat} (dir : Nat) (nr : Ino) (raw : Raw) (hdir : 0 < held dir)
      (hrun : iget (s.inode dir).iDev nr raw s = .ok (o, s')) : Step ⟨s, held⟩ ⟨s', Config.gain held o⟩
  /-- `lookup` of "..": from the root of a file system to what it covers. -/
  | dotdot {s s' : State} {held : Nat → Nat} {j c : Nat} (dir : Nat) (hdir : 0 < held dir)
      (hsb : (s.inode dir).iSb = some j) (hmounted : (s.superBlock j).sMounted = some dir)
      (hrun : iput false (some dir) s = .ok ((), s')) (hcovered : (s'.superBlock j).sCovered = some c) :
      Step ⟨s, held⟩ ⟨s'.dup c, Config.gain (Config.lose held dir) (some c)⟩
  /-- `minix_create` and so on. -/
  | create {s s' : State} {held : Nat → Nat} {o : Option Nat} (dir : Nat) (nr : Option Ino) (hdir : 0 < held dir)
      (hrun : minixNewInode (s.inode dir).iDev nr s = .ok (o, s')) : Step ⟨s, held⟩ ⟨s', Config.gain held o⟩
  | put {s s' : State} {held : Nat → Nat} (i : Nat) (freed : Bool) (hi : 0 < held i)
      (hrun : iput freed (some i) s = .ok ((), s')) : Step ⟨s, held⟩ ⟨s', Config.lose held i⟩
  | dup {s : State} {held : Nat → Nat} (i : Nat) (hi : 0 < held i) :
      Step ⟨s, held⟩ ⟨s.dup i, Config.gain held (some i)⟩
  /-- `write`, `chmod`, `link`, `unlink` and so on. -/
  | write {s : State} {held : Nat → Nat} (i : Nat) (mode nlink : BitVec 16) (hi : 0 < held i) : Step ⟨s, held⟩
      ⟨s.setInode i fun x => { x with iMode := mode, iNlink := nlink, iDirt := true }, held⟩
  | sync {s : State} {held : Nat → Nat} : Step ⟨s, held⟩ ⟨s.syncInodes, held⟩
  /-- `minix_open` of a block device. -/
  | openDev {s : State} {held : Nat → Nat} (dev : Dev) (changed : Bool) :
      Step ⟨s, held⟩ ⟨checkDiskChange rootDev dev changed s, held⟩
  | mount {s s' : State} {held : Nat → Nat} (dev : Dev) (dir : Nat) (changed good freed : Bool) (raw : Raw)
      (hdir : 0 < held dir) (hok : canMount s dev changed)
      (hrun : sysMount rootDev dev dir changed good freed raw s = .ok ((), s')) :
      Step ⟨s, held⟩ ⟨s', Config.lose held dir⟩
  | umount {s s' : State} {held : Nat → Nat} (dev : Dev) (freedCovered freedRoot : Bool)
      (hok : canUmount s dev freedRoot) (hrun : sysUmount rootDev dev freedCovered freedRoot s = .ok ((), s')) :
      Step ⟨s, held⟩ ⟨s', held⟩

end

/-- After `mount_root`: the first task has the root as its root and its working directory. -/
def boot (rootDev : Dev) (raw : Raw) : Config where
  tables :=
    { superBlock := fun j => if j = 0 then ⟨rootDev, some 1, some 1⟩ else ⟨0, none, none⟩
      inode := fun i =>
        if i = 1 then ⟨rootDev, MINIX_ROOT_INO, raw.iMode, raw.iNlinks, some 0, 4, false, false⟩ else .zero
      lastInode := 1 }
  held := fun i => if i = 1 then 2 else 0

/-! ## What is claimed -/

/-- **An inode that is used or dirty has the super block of its device**, the only one. -/
def Owned (s : State) : Prop := ∀ i, (s.inode i).iDev ≠ 0 → 0 < (s.inode i).iCount ∨ (s.inode i).iDirt = true →
  ∃ j < NR_SUPER, (s.inode i).iSb = some j ∧ ∀ k < NR_SUPER, (s.superBlock k).sDev = (s.inode i).iDev ↔ k = j

/-- The inodes of `dev` that are in core have the super block that is about to be taken for it. -/
def Clear (rootDev : Dev) (s : State) (dev : Dev) (changed : Bool) : Prop :=
  let s := checkDiskChange rootDev dev changed s
  getSuper s.superBlock dev = none → ∀ j, freeSuper s.superBlock = some j →
    ∀ i, (s.inode i).iDev = dev → (s.inode i).iSb = some j

/-- The root directory of `dev` has links, or is in the inode map of `dev`. -/
def Rooted (s : State) (dev : Dev) (freedRoot : Bool) : Prop :=
  ∀ j, getSuper s.superBlock dev = some j → ∀ m, (s.superBlock j).sMounted = some m →
    (s.inode m).iNlink ≠ 0 ∨ freedRoot = true

end Mounts
end Fs
end Linux095
