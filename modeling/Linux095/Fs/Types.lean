import Linux095.X86.Cpu

/-!
# `Fs.Types` — the records of `linux/fs.h`

Pointers into a table are indices, and `NULL` is `none`. Wait queues and operation tables are left out.
Devices are `dev_t`, sixteen bits, as `b_dev`, `s_dev` and `i_dev` store them and as every caller passes them.
-/

namespace Linux095
namespace Fs

abbrev Dev := BitVec 16
abbrev Ino := BitVec 16
abbrev Block := BitVec 32

def NR_INODE : Nat := 128
def NR_SUPER : Nat := 8
def NR_HASH : Nat := 307
def BLOCK_SIZE : Nat := 1024

/-- `struct buffer_head`. -/
structure BufferHead where
  bData : X86.Addr
  bBlocknr : Block
  bDev : Dev
  bUptodate : Bool
  bDirt : Bool
  bCount : BitVec 8
  bLock : Bool
  bPrev : Option Nat
  bNext : Option Nat
  bPrevFree : Option Nat
  bNextFree : Option Nat

/-- `struct inode`. `i_data` holds the zone numbers of a file and the device number of a device inode. -/
structure Inode where
  iDev : Dev
  iIno : Ino
  iMode : BitVec 16
  iNlink : BitVec 16
  iUid : BitVec 16
  iGid : BitVec 16
  iRdev : Dev
  iSize : BitVec 32
  iAtime : BitVec 32
  iMtime : BitVec 32
  iCtime : BitVec 32
  iData : Nat → BitVec 32
  iSb : Option Nat
  iCount : BitVec 16
  iLock : Bool
  iDirt : Bool
  iPipe : Bool
  iMount : Bool
  iSeek : Bool
  iUpdate : Bool

/-- `memset(inode,0,sizeof(*inode))`. -/
def Inode.zero : Inode :=
  ⟨0, 0, 0, 0, 0, 0, 0, 0, 0, 0, 0, fun _ => 0, none, 0, false, false, false, false, false, false⟩

/-- `struct super_block`. -/
structure SuperBlock where
  sNinodes : BitVec 16
  sNzones : BitVec 16
  sImapBlocks : BitVec 16
  sZmapBlocks : BitVec 16
  sFirstdatazone : BitVec 16
  sLogZoneSize : BitVec 16
  sMaxSize : BitVec 32
  sMagic : BitVec 16
  sImap : Nat → Option Nat
  sZmap : Nat → Option Nat
  sDev : Dev
  sCovered : Option Nat
  sMounted : Option Nat
  sTime : BitVec 32
  sLock : Bool
  sRdOnly : Bool
  sDirt : Bool

def SuperBlock.zero : SuperBlock :=
  ⟨0, 0, 0, 0, 0, 0, 0, 0, fun _ => none, fun _ => none, 0, none, none, 0, false, false, false⟩

end Fs
end Linux095
