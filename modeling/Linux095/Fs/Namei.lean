import Linux095.Seq.Program
import Linux095.Fs.Minix.DirEntry
import Linux095.Fs.Minix.Truncate

/-!
# `Fs.Namei` — path resolution (`fs/namei.c`, `fs/minix/namei.c`, `fs/inode.c`)

`_namei` takes a path apart and looks its components up one after the other; a symbolic link on the way is resolved
by `_namei` itself, from the directory the link is in. Every function here uses up references and makes new ones.

* `iput`, `iget`, `lookup`, `followLink`, `dirNamei`, `namei` — the source's functions;
* `Graph` — what is on the disks, which does not change; `State` — the inodes in core and `link_count`.

A pathname is a list of bytes, and ends at a NUL or where the list does. The counts do not overflow: there are 64 tasks
and 64 files. An inode is read and written in no time, and `i_dirt`, `i_lock`, the times and `last_inode`, which decide
when it is and which of the unused inodes `get_empty_inode` takes, are left out.
-/

namespace Linux095
namespace Fs
namespace Namei
open Seq Minix.DirEntry
open Minix.Truncate (S_IFMT S_IFLNK S_IFDIR)

/-! ## Data model -/

def MINIX_ROOT_INO : Ino := 1
def MAY_EXEC : BitVec 16 := 1

/-- `struct inode`. -/
structure Inode where
  iDev : Dev
  iIno : Ino
  iMode : BitVec 16
  iUid : BitVec 16
  iGid : BitVec 16
  iNlink : BitVec 16
  iSize : BitVec 32
  /-- `i_data[0]`. -/
  iData0 : Block
  iSb : Option Nat
  iCount : Nat
  iMount : Bool
  iPipe : Bool
  /-- `i_op` is `minix_inode_operations`. -/
  iOp : Bool

/-- `memset(inode,0,sizeof(*inode))`. -/
def Inode.zero : Inode := ⟨0, 0, 0, 0, 0, 0, 0, 0, none, 0, false, false, false⟩

/-- `struct super_block`. -/
structure SuperBlock where
  sDev : Dev
  sNinodes : BitVec 16
  /-- Whether the block of the inode map is there. -/
  sImap : Nat → Bool
  sCovered : Option Nat
  sMounted : Option Nat

/-- `struct minix_inode`. -/
structure RawInode where
  iMode : BitVec 16
  iUid : BitVec 16
  iGid : BitVec 16
  iNlinks : BitVec 16
  iSize : BitVec 32
  iZone0 : Block

/-- The inodes in core, and the `link_count` of the task. -/
structure State where
  inode : Nat → Inode
  linkCount : Nat

/-- What stays as it is during a call: the disks, what is mounted, and who calls. What cannot be read is `none`. -/
structure Graph where
  rawInode : Dev → Ino → Option RawInode
  /-- The entries of a directory. -/
  entry : Dev → Ino → Nat → Option Slot
  /-- The block of a symbolic link. -/
  body : Dev → Block → Option (List Byte)
  superBlock : Nat → SuperBlock
  /-- The unused inode that `get_empty_inode` would take. -/
  lastInode : State → Nat
  root : Nat
  pwd : Nat
  euid : BitVec 16
  egid : BitVec 16
  groups : List (BitVec 16)

/-- Why a call does not return. -/
inductive Stop where
  /-- "No free inodes in mem". -/
  | noFreeInodes
  /-- "iput: trying to free free inode". -/
  | freeFreeInode
  /-- "iget with dev==0". -/
  | noDevice
  /-- "unable to read i-node block". -/
  | readInode
  /-- Never: the recursion has no end. -/
  | endless
  deriving DecidableEq, Repr

abbrev Call (α : Type) : Type := Prog State Stop α

namespace State

def setInode (s : State) (i : Nat) (f : Inode → Inode) : State :=
  { s with inode := fun x => if x = i then f (s.inode x) else s.inode x }

/-- `inode->i_count++`. -/
def dup (s : State) (i : Nat) : State := s.setInode i fun x => { x with iCount := x.iCount + 1 }

/-- `inode->i_count--`. -/
def drop (s : State) (i : Nat) : State := s.setInode i fun x => { x with iCount := x.iCount - 1 }

end State

/-! ## Inodes -/

section
variable (g : Graph)

/-- `get_super`. -/
def getSuper (dev : Dev) : Option Nat :=
  if dev = 0 then none else (List.range NR_SUPER).find? fun j => (g.superBlock j).sDev == dev

/-- `minix_free_inode` finds the bit of the inode. -/
def inMap (sb : SuperBlock) (ino : Ino) : Bool :=
  1 ≤ ino.toNat ∧ ino.toNat ≤ sb.sNinodes.toNat ∧ sb.sImap (ino.toNat >>> 13)

/-- `minix_truncate` and `minix_free_inode`, for an inode with one reference and no link. -/
def freeInode (i : Nat) (x : Inode) : Call Unit :=
  match x.iSb with
  | none => return
  | some j => if inMap (g.superBlock j) x.iIno then .modify fun s => s.setInode i fun _ => .zero else return

/-- `iput`. -/
def iput : Option Nat → Call Unit
  | none => return
  | some i => do
      let x ← .reads fun s => s.inode i
      if x.iCount = 0 then .halt .freeFreeInode
      else if x.iPipe then
        .modify fun s => s.drop i
        if x.iCount = 1 then .modify fun s => s.setInode i fun x => { x with iPipe := false }
      else if x.iDev = 0 then .modify fun s => s.drop i
      else if 1 < x.iCount then .modify fun s => s.drop i
      else if x.iNlink = 0 then freeInode g i x
      else .modify fun s => s.drop i

/-- The inode that `get_empty_inode` finds. -/
def unusedInode (s : State) : Option Nat :=
  if g.lastInode s < NR_INODE ∧ (s.inode (g.lastInode s)).iCount = 0 then some (g.lastInode s)
  else (List.range NR_INODE).find? fun x => (s.inode x).iCount == 0

/-- `get_empty_inode`. -/
def getEmptyInode : Call Nat := do
  match ← .reads (unusedInode g) with
  | none => .halt .noFreeInodes
  | some i =>
      .modify fun s => s.setInode i fun _ => { Inode.zero with iCount := 1 }
      return i

/-- `read_inode` of an inode that has been zeroed. -/
def readInode (i : Nat) : Call Unit := do
  let x ← .reads fun s => s.inode i
  match g.rawInode x.iDev x.iIno with
  | none => .halt .readInode
  | some raw =>
      .modify fun s => s.setInode i fun x =>
        { x with iMode := raw.iMode, iUid := raw.iUid, iGid := raw.iGid, iNlink := raw.iNlinks, iSize := raw.iSize
                 iData0 := raw.iZone0, iOp := true }

/-- The first inode in core that is `nr` of `dev`. -/
def findInode (s : State) (dev : Dev) (nr : Ino) : Option Nat :=
  (List.range NR_INODE).find? fun i => (s.inode i).iDev == dev && (s.inode i).iIno == nr

/-- From an inode that is in core, with a reference, to what is mounted on it. -/
def crossMount (i : Nat) : Call (Option Nat) := do
  let mounted ← .reads fun s => (s.inode i).iMount
  if mounted then
    match (List.range NR_SUPER).find? fun j => (g.superBlock j).sCovered == some i with
    | none => return some i
    | some j =>
        iput g (some i)
        match (g.superBlock j).sMounted with
        | none => return none
        | some m =>
            .modify fun s => s.dup m
            return some m
  else return some i

/-- `iget`. -/
def iget (dev : Dev) (nr : Ino) : Call (Option Nat) := do
  if dev = 0 then .halt .noDevice
  else
    let empty ← getEmptyInode g
    match ← .reads fun s => findInode s dev nr with
    | some i =>
        .modify fun s => s.dup i
        let inode ← crossMount g i
        iput g (some empty)
        return inode
    | none =>
        match getSuper g dev with
        | none =>
            iput g (some empty)
            return none
        | some j =>
            .modify fun s => s.setInode empty fun x => { x with iSb := some j, iDev := dev, iIno := nr }
            readInode g empty
            return some empty

/-! ## Directories -/

/-- `in_group_p`. -/
def inGroup (gid : BitVec 16) : Bool := gid == g.egid || g.groups.contains gid

/-- `permission`. -/
def permission (x : Inode) (mask : BitVec 16) : Bool :=
  if x.iDev ≠ 0 ∧ x.iNlink = 0 then false
  else
    let mode := if g.euid = x.iUid then x.iMode >>> 6 else if inGroup g x.iGid then x.iMode >>> 3 else x.iMode
    mode &&& mask &&& 0o007 == mask || g.euid == 0

/-- `minix_find_entry`. A block that cannot be read is passed over, unless it is the first. -/
def findEntry (x : Inode) (name : List Byte) : Option Slot :=
  if x.iData0 = 0 ∨ (g.entry x.iDev x.iIno 0).isNone then none
  else
    (List.range (x.iSize.toNat / 16)).findSome? fun i =>
      (g.entry x.iDev x.iIno i).filter fun de => minixMatch (name.take MINIX_NAME_LEN) de

/-- `minix_lookup`; `none` for an error. -/
def minixLookup (dir : Nat) (name : List Byte) : Call (Option Nat) := do
  let x ← .reads fun s => s.inode dir
  if x.iMode &&& S_IFMT ≠ S_IFDIR then
    iput g (some dir)
    return none
  else
    match findEntry g x name with
    | none =>
        iput g (some dir)
        return none
    | some de =>
        let result ← iget g x.iDev de.inode
        iput g (some dir)
        return result

def isDotdot (name : List Byte) : Bool := name == [46, 46]

/-- The end of `lookup`, from `if (!dir)` on. -/
def lookupIn (dir : Option Nat) (name : List Byte) : Call (Option Nat) :=
  match dir with
  | none => return none
  | some dir => do
      let x ← .reads fun s => s.inode dir
      if permission g x MAY_EXEC = false then
        iput g (some dir)
        return none
      else if name = [] then return some dir
      else if x.iOp = false then
        iput g (some dir)
        return none
      else minixLookup g dir name

/-- `lookup`, which uses up `dir`; `none` for an error. -/
def lookup (dir : Nat) (name : List Byte) : Call (Option Nat) := do
  if isDotdot name then
    if dir = g.root then lookupIn g (some dir) (name.take 1)
    else
      let x ← .reads fun s => s.inode dir
      match x.iSb with
      | none => lookupIn g (some dir) name
      | some j =>
          if (g.superBlock j).sMounted = some dir then
            iput g (some dir)
            match (g.superBlock j).sCovered with
            | none => lookupIn g none name
            | some c =>
                .modify fun s => s.dup c
                lookupIn g (some c) name
          else lookupIn g (some dir) name
  else lookupIn g (some dir) name

/-! ## Paths -/

section
-- `_namei(body, dir, 1)`
variable (namei : List Byte → Nat → Call (Option Nat))

/-- `minix_follow_link`; `dir` and `inode` are used up. -/
def minixFollowLink (dir inode : Nat) : Call (Option Nat) := do
  let x ← .reads fun s => s.inode inode
  if x.iMode &&& S_IFMT ≠ S_IFLNK then
    iput g (some dir)
    return some inode
  else
    let linkCount ← .reads State.linkCount
    let body := if linkCount > 5 ∨ x.iData0 = 0 then none else g.body x.iDev x.iData0
    match body with
    | none =>
        iput g (some dir)
        iput g (some inode)
        return none
    | some path =>
        iput g (some inode)
        .modify fun s => { s with linkCount := s.linkCount + 1 }
        let inode ← namei path dir
        .modify fun s => { s with linkCount := s.linkCount - 1 }
        return inode

/-- `follow_link`, where neither pointer is NULL. -/
def followLink (dir inode : Nat) : Call (Option Nat) := do
  let x ← .reads fun s => s.inode inode
  if x.iOp = false then
    iput g (some dir)
    return some inode
  else minixFollowLink g namei dir inode

/-- The loop of `dir_namei`: `thisname` is the part of the component that has been read. The directory, and the name
    within it. -/
def walk : Nat → List Byte → List Byte → Call (Option (Nat × List Byte))
  | base, thisname, [] => return some (base, thisname)
  | base, thisname, c :: pathname =>
      if c = 0 then return some (base, thisname)
      else if c = 47 then do
        .modify fun s => s.dup base
        match ← lookup g base thisname with
        | none =>
            iput g (some base)
            return none
        | some inode =>
            match ← followLink g namei base inode with
            | none => return none
            | some base => walk base [] pathname
      else walk base (thisname ++ [c]) pathname

/-- `if (!base) { base = current->pwd; base->i_count++; }`. -/
def startAt : Option Nat → Call Nat
  | some base => return base
  | none => do
      .modify fun s => s.dup g.pwd
      return g.pwd

/-- `dir_namei`. -/
def dirNamei (pathname : List Byte) (base : Option Nat) : Call (Option (Nat × List Byte)) := do
  let base ← startAt g base
  if pathname.head? = some 47 then
    iput g (some base)
    .modify fun s => s.dup g.root
    walk g namei g.root [] pathname.tail
  else walk g namei base [] pathname

/-- The body of `_namei`. -/
def nameiBody (pathname : List Byte) (base : Option Nat) (followLinks : Bool) : Call (Option Nat) := do
  match ← dirNamei g namei pathname base with
  | none => return none
  | some (base, basename) =>
      .modify fun s => s.dup base
      match ← lookup g base basename with
      | none =>
          iput g (some base)
          return none
      | some inode =>
          if followLinks then followLink g namei base inode
          else
            iput g (some base)
            return some inode

end

/-- `_namei`, with the depth of the recursion bounded. -/
def namei : Nat → List Byte → Option Nat → Bool → Call (Option Nat)
  | 0 => fun _ _ _ => .halt .endless
  | depth + 1 => nameiBody g fun path dir => namei depth path (some dir) true

end

end Namei
end Fs
end Linux095
