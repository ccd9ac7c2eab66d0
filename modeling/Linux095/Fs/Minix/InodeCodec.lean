import Linux095.Bytes.Record
import Linux095.Fs.Types
import Mathlib.Data.BitVec
import Mathlib.Tactic.IntervalCases

/-!
# `Fs.Minix.InodeCodec` — inodes on disk (`fs/minix/inode.c`)

An inode is kept on disk in 32 bytes, which have one byte for the group and one for the number of links, where the inode
in core has two of each. There are 32 of them in a block.

* `minixReadInode`, `minixWriteInode` — the source's functions, byte by byte; `Op` — what is done to an inode otherwise;
* `load_raw_iff` — what is read back is what has been written, if and only if the group and the links fit;
* `inode_codec_iff` — **so it is for every inode that there can be**, and the other inodes of the block stay as they
  are.
-/

namespace Linux095
namespace Fs
namespace Minix
namespace InodeCodec
open Bytes

/-! ## The source's functions -/

/-- `sizeof (struct minix_inode)`. -/
def RAW_SIZE : Nat := 32
def MINIX_INODES_PER_BLOCK : Nat := BLOCK_SIZE / RAW_SIZE

/-- `S_ISCHR(mode) || S_ISBLK(mode)`. -/
def isDevice (mode : BitVec 16) : Bool := mode &&& 0o170000 == 0o020000 || mode &&& 0o170000 == 0o060000

structure Buffer where
  bData : Memory
  bDirt : Bool

/-- The buffers, by device and block, where `none` cannot be read, and `super_block[]`. -/
structure State where
  buffer : Dev → Nat → Option Buffer
  superBlock : Nat → SuperBlock

def State.setBuffer (s : State) (dev : Dev) (block : Nat) (bh : Buffer) : State :=
  { s with buffer := fun d b => if d = dev ∧ b = block then some bh else s.buffer d b }

/-- `i_ino - 1`, which is divided by an unsigned number. -/
def index (ino : Ino) : Nat := (ino.setWidth 32 - 1).toNat

def rawBlock (sb : SuperBlock) (ino : Ino) : Nat :=
  2 + sb.sImapBlocks.toNat + sb.sZmapBlocks.toNat + index ino / MINIX_INODES_PER_BLOCK

/-- `(struct minix_inode *) bh->b_data + (i_ino-1)%MINIX_INODES_PER_BLOCK`. -/
def rawInode (ino : Ino) : Nat := RAW_SIZE * (index ino % MINIX_INODES_PER_BLOCK)

/-- What `minix_read_inode` takes from the raw inode at `raw`. -/
def load (raw : Nat) (m : Memory) (x : Inode) : Inode :=
  let time := BitVec.ofNat 32 (get 4 (raw + 8) m)
  let x := { x with
    iMode := BitVec.ofNat 16 (get 2 raw m)
    iUid := BitVec.ofNat 16 (get 2 (raw + 2) m)
    iGid := BitVec.ofNat 16 (get 1 (raw + 12) m)
    iNlink := BitVec.ofNat 16 (get 1 (raw + 13) m)
    iSize := BitVec.ofNat 32 (get 4 (raw + 4) m)
    iMtime := time, iAtime := time, iCtime := time }
  if isDevice x.iMode then { x with iRdev := BitVec.ofNat 16 (get 2 (raw + 14) m) }
  else { x with iData := fun k => if k < 9 then BitVec.ofNat 32 (get 2 (raw + 14 + 2 * k) m) else x.iData k }

/-- `struct minix_inode` up to `i_zone`, and the values that `minix_write_inode` stores there. -/
def rawFields (x : Inode) : List (Nat × Nat) :=
  [(2, x.iMode.toNat), (2, x.iUid.toNat), (4, x.iSize.toNat), (4, x.iMtime.toNat), (1, x.iGid.toNat),
    (1, x.iNlink.toNat)]

/-- What it stores in `i_zone`. -/
def rawZones (x : Inode) : List (Nat × Nat) :=
  if isDevice x.iMode then [(2, x.iRdev.toNat)] else (List.range 9).map fun k => (2, (x.iData k).toNat)

/-- `minix_read_inode`; `none` is the panic. -/
def minixReadInode (s : State) (x : Inode) : Option Inode := do
  let sb ← x.iSb
  let bh ← s.buffer x.iDev (rawBlock (s.superBlock sb) x.iIno)
  return load (rawInode x.iIno) bh.bData x

/-- `minix_write_inode`; `none` is the panic. -/
def minixWriteInode (s : State) (x : Inode) : Option (State × Inode) := do
  let sb ← x.iSb
  let block := rawBlock (s.superBlock sb) x.iIno
  let bh ← s.buffer x.iDev block
  let data := putAll (rawFields x ++ rawZones x) (rawInode x.iIno) bh.bData
  return (s.setBuffer x.iDev block ⟨data, true⟩, { x with iDirt := false })

/-! ## What there can be in core -/

/-- The fields that `minix_new_inode` sets. -/
def minixNewInode (dev : Dev) (ino : Ino) (sb : Nat) (euid egid : BitVec 16) (now : BitVec 32) : Inode :=
  { Inode.zero with
    iCount := 1, iNlink := 1, iDev := dev, iUid := euid, iGid := egid, iDirt := true, iIno := ino
    iMtime := now, iAtime := now, iCtime := now, iSb := some sb }

/-- What is done to the stored fields of an inode. -/
inductive Op where
  /-- `minix_link`, and `minix_mkdir` and `do_minix_rename` for a parent. -/
  | linkInc
  /-- `minix_unlink`, `minix_rmdir` and `do_minix_rename`, and a creation that fails. -/
  | linkDec
  /-- `minix_mkdir`, `minix_rmdir` and `minix_unlink`. -/
  | setNlink (n : BitVec 16)
  /-- `sys_chown`: two `int`s. -/
  | chown (uid gid : BitVec 32)
  /-- `sys_chmod`. -/
  | chmod (mode : BitVec 16)
  /-- `minix_create`, `minix_mkdir` and `minix_symlink`. -/
  | create (mode : BitVec 16)
  /-- `minix_mknod`: the mode and the device are `int`s. -/
  | mknod (euid : BitVec 16) (mode rdev : BitVec 32)
  /-- `sys_utime` and everybody who sets `i_mtime` to `CURRENT_TIME`. -/
  | utime (t : BitVec 32)
  /-- `minix_file_write`, `minix_add_entry`, `minix_truncate` and so on. -/
  | resize (n : BitVec 32)
  /-- `i_data[k] = minix_new_block()`, a zone below `s_nzones`. -/
  | newZone (k : Nat) (z : BitVec 16)
  /-- `minix_truncate`. -/
  | freeZone (k : Nat)

def Op.run (x : Inode) : Op → Inode
  | .linkInc => { x with iNlink := x.iNlink + 1 }
  | .linkDec => { x with iNlink := x.iNlink - 1 }
  | .setNlink n => { x with iNlink := n }
  | .chown uid gid => { x with iUid := uid.setWidth 16, iGid := gid.setWidth 16 }
  | .chmod mode => { x with iMode := mode &&& 0o7777 ||| x.iMode &&& ~~~ 0o7777 }
  | .create mode => { x with iMode := mode }
  | .mknod euid mode rdev =>
      let x := { x with iUid := euid, iMode := mode.setWidth 16 }
      if isDevice (mode.setWidth 16) then { x with iRdev := rdev.setWidth 16 } else x
  | .utime t => { x with iMtime := t }
  | .resize n => { x with iSize := n }
  | .newZone k z => { x with iData := fun j => if j = k then z.setWidth 32 else x.iData j }
  | .freeZone k => { x with iData := fun j => if j = k then 0 else x.iData j }

/-- The inodes that there can be in core. -/
inductive Reachable : Inode → Prop
  | new (dev : Dev) (ino : Ino) (sb : Nat) (euid egid : BitVec 16) (now : BitVec 32) :
      Reachable (minixNewInode dev ino sb euid egid now)
  /-- `get_empty_inode` and `minix_read_inode`. -/
  | read (s : State) (dev : Dev) (ino : Ino) (sb : Nat) {x : Inode}
      (hx : minixReadInode s { Inode.zero with iDev := dev, iIno := ino, iSb := some sb, iCount := 1 } = some x) :
      Reachable x
  | op {x : Inode} (hx : Reachable x) (o : Op) : Reachable (o.run x)

section

variable {x y : Inode} {raw : Nat} {m : Memory} {s s' : State}

/-! ## What is read back -/

/-- What has been stored of `x` is in `y`. -/
structure Restored (x y : Inode) : Prop where
  mode : y.iMode = x.iMode
  uid : y.iUid = x.iUid
  gid : y.iGid = x.iGid
  size : y.iSize = x.iSize
  nlink : y.iNlink = x.iNlink
  mtime : y.iMtime = x.iMtime
  /-- The device of a device inode, and the zones of another. -/
  rdev : isDevice x.iMode = true → y.iRdev = x.iRdev
  zones : isDevice x.iMode = false → ∀ k < 9, y.iData k = x.iData k

/-- The zones fit into `unsigned short`. -/
def ZonesFit (x : Inode) : Prop := ∀ k, (x.iData k).toNat < 2 ^ 16

theorem size_raw_le (x : Inode) : size (rawFields x ++ rawZones x) ≤ RAW_SIZE := by
  unfold rawZones
  split
  · simp [size, rawFields, RAW_SIZE]
  · rw [size_append, size_map]
    exact Nat.le_refl 32

/-- A field before the zones. -/
theorem get_field {i n v : Nat} (h : (rawFields x)[i]? = some (n, v)) {off : Nat}
    (hoff : size ((rawFields x).take i) = off) :
    get n (raw + off) (putAll (rawFields x ++ rawZones x) raw m) = v % 256 ^ n := by
  have hi : i < (rawFields x).length := (List.getElem?_eq_some_iff.1 h).1
  have hget := get_putAll (a := raw) (m := m) (l := rawFields x ++ rawZones x) (i := i)
    ((List.getElem?_append_left hi).trans h)
  rwa [List.take_append_of_le_length hi.le, hoff] at hget

/-- A byte keeps a word of 16 bits if and only if it fits. -/
theorem byte_iff (v : BitVec 16) : BitVec.ofNat 16 (v.toNat % 256 ^ 1) = v ↔ v.toNat < 256 := by
  rw [← BitVec.toNat_inj, BitVec.toNat_ofNat]
  have hv := v.isLt
  omega

theorem word16 (v : BitVec 16) : BitVec.ofNat 16 (v.toNat % 256 ^ 2) = v := by
  have hfits : v.toNat < 256 ^ 2 := v.isLt
  rw [Nat.mod_eq_of_lt hfits, BitVec.ofNat_toNat, BitVec.setWidth_eq]

theorem word32 (v : BitVec 32) : BitVec.ofNat 32 (v.toNat % 256 ^ 4) = v := by
  have hfits : v.toNat < 256 ^ 4 := v.isLt
  rw [Nat.mod_eq_of_lt hfits, BitVec.ofNat_toNat, BitVec.setWidth_eq]

/-- The zones, which are behind the other fields. -/
theorem get_zone (raw : Nat) (m : Memory) {k v : Nat} (h : (rawZones x)[k]? = some (2, v))
    (hsize : size ((rawZones x).take k) = 2 * k) :
    get 2 (raw + 14 + 2 * k) (putAll (rawFields x ++ rawZones x) raw m) = v % 256 ^ 2 := by
  have hfield : (rawFields x ++ rawZones x)[(rawFields x).length + k]? = some (2, v) := by
    rw [List.getElem?_append_right (Nat.le_add_right _ k), Nat.add_sub_cancel_left]
    exact h
  have hget := get_putAll (a := raw) (m := m) hfield
  rwa [List.take_length_add_append, size_append, hsize, ← Nat.add_assoc] at hget

/-- The six fields before the zones. -/
theorem get_fields (x : Inode) (raw : Nat) (m : Memory) :
    let m' := putAll (rawFields x ++ rawZones x) raw m
    get 2 (raw + 0) m' = x.iMode.toNat % 256 ^ 2 ∧ get 2 (raw + 2) m' = x.iUid.toNat % 256 ^ 2 ∧
      get 4 (raw + 4) m' = x.iSize.toNat % 256 ^ 4 ∧ get 4 (raw + 8) m' = x.iMtime.toNat % 256 ^ 4 ∧
      get 1 (raw + 12) m' = x.iGid.toNat % 256 ^ 1 ∧ get 1 (raw + 13) m' = x.iNlink.toNat % 256 ^ 1 :=
  ⟨get_field (i := 0) rfl rfl, get_field (i := 1) rfl rfl, get_field (i := 2) rfl rfl, get_field (i := 3) rfl rfl,
    get_field (i := 4) rfl rfl, get_field (i := 5) rfl rfl⟩

theorem load_fields (raw : Nat) (m : Memory) (y : Inode) :
    (load raw m y).iMode = BitVec.ofNat 16 (get 2 (raw + 0) m) ∧
    (load raw m y).iUid = BitVec.ofNat 16 (get 2 (raw + 2) m) ∧
    (load raw m y).iSize = BitVec.ofNat 32 (get 4 (raw + 4) m) ∧
    (load raw m y).iMtime = BitVec.ofNat 32 (get 4 (raw + 8) m) ∧
    (load raw m y).iGid = BitVec.ofNat 16 (get 1 (raw + 12) m) ∧
    (load raw m y).iNlink = BitVec.ofNat 16 (get 1 (raw + 13) m) := by
  unfold load
  dsimp only
  split <;> exact ⟨rfl, rfl, rfl, rfl, rfl, rfl⟩

theorem load_rdev (h : isDevice (load raw m y).iMode = true) :
    (load raw m y).iRdev = BitVec.ofNat 16 (get 2 (raw + 14 + 2 * 0) m) := by
  rw [(load_fields raw m y).1] at h
  unfold load
  exact congrArg Inode.iRdev (if_pos h)

theorem load_data (h : isDevice (load raw m y).iMode = false) {k : Nat} (hk : k < 9) :
    (load raw m y).iData k = BitVec.ofNat 32 (get 2 (raw + 14 + 2 * k) m) := by
  rw [(load_fields raw m y).1] at h
  have hload : (load raw m y).iData = fun k =>
      if k < 9 then BitVec.ofNat 32 (get 2 (raw + 14 + 2 * k) m) else y.iData k := by
    unfold load
    exact congrArg Inode.iData (if_neg (Bool.eq_false_iff.1 h))
  rw [hload]
  exact if_pos hk

/-- **What is read back is what has been written**, if and only if the group and the number of links fit into a byte. -/
theorem load_raw_iff (hzones : ZonesFit x) :
    Restored x (load raw (putAll (rawFields x ++ rawZones x) raw m) y) ↔
      x.iGid.toNat < 256 ∧ x.iNlink.toNat < 256 := by
  obtain ⟨gmode, guid, gsize, gmtime, ggid, gnlink⟩ := get_fields x raw m
  obtain ⟨m', hm'⟩ : ∃ m', m' = putAll (rawFields x ++ rawZones x) raw m := ⟨_, rfl⟩
  have hzone := fun {k v : Nat} (h : (rawZones x)[k]? = some (2, v)) (hs : size ((rawZones x).take k) = 2 * k) =>
    hm' ▸ get_zone raw m h hs
  rw [← hm'] at gmode guid gsize gmtime ggid gnlink ⊢
  obtain ⟨hmode, huid, hsize, hmtime, hgid, hnlink⟩ := load_fields raw m' y
  rw [gmode, word16] at hmode
  rw [guid, word16] at huid
  rw [gsize, word32] at hsize
  rw [gmtime, word32] at hmtime
  rw [ggid] at hgid
  rw [gnlink] at hnlink
  constructor
  · intro h
    exact ⟨(byte_iff x.iGid).1 (hgid.symm.trans h.gid), (byte_iff x.iNlink).1 (hnlink.symm.trans h.nlink)⟩
  · rintro ⟨hg, hn⟩
    refine ⟨hmode, huid, hgid.trans ((byte_iff x.iGid).2 hg), hsize, hnlink.trans ((byte_iff x.iNlink).2 hn), hmtime,
      fun hdev => ?_, fun hdev k hk => ?_⟩
    · have hfirst : (rawZones x)[0]? = some (2, x.iRdev.toNat) := by
        unfold rawZones
        rw [if_pos hdev]
        rfl
      rw [load_rdev (hmode ▸ hdev), hzone hfirst rfl, word16]
    · have hk' : (rawZones x)[k]? = some (2, (x.iData k).toNat) := by
        unfold rawZones
        rw [if_neg (Bool.eq_false_iff.1 hdev), List.getElem?_map, List.getElem?_range hk]
        rfl
      have hbefore : size ((rawZones x).take k) = 2 * k := by
        unfold rawZones
        rw [if_neg (Bool.eq_false_iff.1 hdev), ← List.map_take, List.take_range, Nat.min_eq_left hk.le, size_map]
      have hfits : (x.iData k).toNat < 256 ^ 2 := hzones k
      rw [load_data (hmode ▸ hdev) hk, hzone hk' hbefore, Nat.mod_eq_of_lt hfits, BitVec.ofNat_toNat,
        BitVec.setWidth_eq]

/-! ## The other inodes of a block -/

theorem index_inj {n n' : Ino} (h : index n = index n') : n = n' := by
  unfold index at h
  have hsub := BitVec.toNat_inj.1 h
  have hwide := (BitVec.sub_left_inj 1).1 hsub
  apply BitVec.toNat_inj.1
  have htoNat := congrArg BitVec.toNat hwide
  have hn := n.isLt
  have hn' := n'.isLt
  rw [BitVec.toNat_setWidth, BitVec.toNat_setWidth] at htoNat
  omega

/-- Two inodes are in two blocks, or one behind the other. -/
theorem raw_disjoint {sb : SuperBlock} {n n' : Ino} (hne : n ≠ n') (hblock : rawBlock sb n = rawBlock sb n') :
    rawInode n + RAW_SIZE ≤ rawInode n' ∨ rawInode n' + RAW_SIZE ≤ rawInode n := by
  have hindex : index n ≠ index n' := fun h => hne (index_inj h)
  have hper : MINIX_INODES_PER_BLOCK = 32 := rfl
  unfold rawBlock at hblock
  unfold rawInode RAW_SIZE
  rw [hper] at hblock ⊢
  omega

/-- A byte of the raw inode `n`. -/
def rawByte (s : State) (dev : Dev) (sb : SuperBlock) (n : Ino) (i : Nat) : Option (BitVec 8) :=
  (s.buffer dev (rawBlock sb n)).map fun bh => bh.bData (rawInode n + i)

/-- **Reading an inode inverts writing it**, and the other inodes stay as they are. -/
structure Codec (s : State) (x : Inode) (s' : State) : Prop where
  restores : ∀ y, y.iDev = x.iDev → y.iIno = x.iIno → y.iSb = x.iSb →
    ∃ y', minixReadInode s' y = some y' ∧ Restored x y'
  others : ∀ sb, x.iSb = some sb → ∀ n, n ≠ x.iIno → ∀ i < RAW_SIZE,
    rawByte s' x.iDev (s.superBlock sb) n i = rawByte s x.iDev (s.superBlock sb) n i

/-- What `minix_write_inode` does. -/
theorem write_spec {x' : Inode} (h : minixWriteInode s x = some (s', x')) : ∃ sb bh, x.iSb = some sb ∧
    s.buffer x.iDev (rawBlock (s.superBlock sb) x.iIno) = some bh ∧
    s' = s.setBuffer x.iDev (rawBlock (s.superBlock sb) x.iIno)
      ⟨putAll (rawFields x ++ rawZones x) (rawInode x.iIno) bh.bData, true⟩ := by
  unfold minixWriteInode at h
  obtain ⟨sb, hsb, h⟩ := Option.bind_eq_some_iff.1 h
  obtain ⟨bh, hbh, h⟩ := Option.bind_eq_some_iff.1 h
  exact ⟨sb, bh, hsb, hbh, (congrArg Prod.fst (Option.some_inj.1 h)).symm⟩

theorem codec_iff (hzones : ZonesFit x) {x' : Inode} (hwrite : minixWriteInode s x = some (s', x')) :
    Codec s x s' ↔ x.iGid.toNat < 256 ∧ x.iNlink.toNat < 256 := by
  obtain ⟨sb, bh, hsb, hbh, rfl⟩ := write_spec hwrite
  obtain ⟨block, hblock⟩ : ∃ block, block = rawBlock (s.superBlock sb) x.iIno := ⟨_, rfl⟩
  obtain ⟨m, hm⟩ : ∃ m, m = putAll (rawFields x ++ rawZones x) (rawInode x.iIno) bh.bData := ⟨_, rfl⟩
  rw [← hblock] at hbh ⊢
  rw [← hm]
  have hread : ∀ y, y.iDev = x.iDev → y.iIno = x.iIno → y.iSb = x.iSb →
      minixReadInode (s.setBuffer x.iDev block ⟨m, true⟩) y = some (load (rawInode x.iIno) m y) := by
    intro y hdev hino hy
    have hbuffer : (s.setBuffer x.iDev block ⟨m, true⟩).buffer x.iDev block = some ⟨m, true⟩ := if_pos ⟨rfl, rfl⟩
    unfold minixReadInode
    rw [hy, hsb, hdev, hino, Option.bind_eq_bind, Option.bind_some]
    dsimp only [State.setBuffer] at hbuffer ⊢
    rw [← hblock, hbuffer]
    rfl
  constructor
  · intro h
    obtain ⟨y', hy', hrestored⟩ := h.restores x rfl rfl rfl
    rw [hread x rfl rfl rfl] at hy'
    cases hy'
    rw [hm] at hrestored
    exact (load_raw_iff hzones).1 hrestored
  · intro h
    refine ⟨fun y hdev hino hy => ⟨_, hread y hdev hino hy, ?_⟩, fun sb' hsb' n hne i hi => ?_⟩
    · rw [hm]
      exact (load_raw_iff hzones).2 h
    · have hsame : sb' = sb := Option.some_inj.1 (hsb'.symm.trans hsb)
      rw [hsame]
      unfold rawByte
      by_cases hn : rawBlock (s.superBlock sb) n = block
      · have hbuffer : (s.setBuffer x.iDev block ⟨m, true⟩).buffer x.iDev block = some ⟨m, true⟩ := if_pos ⟨rfl, rfl⟩
        rw [hn, hbuffer, hbh, hm]
        -- The raw inode that is written is elsewhere in the block.
        have hsize := size_raw_le x
        have hapart := raw_disjoint hne (hn.trans hblock)
        exact congrArg some (putAll_other (by omega))
      · have hbuffer : (s.setBuffer x.iDev block ⟨m, true⟩).buffer x.iDev (rawBlock (s.superBlock sb) n) =
            s.buffer x.iDev (rawBlock (s.superBlock sb) n) := if_neg fun hno => hn hno.2
        rw [hbuffer]

/-! ## Every inode -/

theorem Op.zonesFit (h : ZonesFit x) (o : Op) : ZonesFit (o.run x) := by
  intro k
  cases o with
  | newZone j z =>
      unfold Op.run
      dsimp only
      split
      · rw [BitVec.toNat_setWidth]
        exact (Nat.mod_le _ _).trans_lt z.isLt
      · exact h k
  | freeZone j =>
      unfold Op.run
      dsimp only
      split
      · exact Nat.two_pow_pos 16
      · exact h k
  | mknod euid mode rdev =>
      unfold Op.run
      dsimp only
      split <;> exact h k
  | _ => exact h k

theorem load_zonesFit (h : ZonesFit y) : ZonesFit (load raw m y) := by
  intro k
  unfold load
  dsimp only
  split
  · exact h k
  · dsimp only
    split
    · have hword : get 2 (raw + 14 + 2 * k) m < 256 ^ 2 := get_lt
      rw [BitVec.toNat_ofNat]
      exact (Nat.mod_le _ _).trans_lt hword
    · exact h k

/-- What `minix_read_inode` comes to. -/
theorem read_spec {y' : Inode} (h : minixReadInode s y = some y') : ∃ m, y' = load (rawInode y.iIno) m y := by
  unfold minixReadInode at h
  obtain ⟨sb, -, h⟩ := Option.bind_eq_some_iff.1 h
  obtain ⟨bh, -, h⟩ := Option.bind_eq_some_iff.1 h
  exact ⟨bh.bData, (Option.some_inj.1 h).symm⟩

theorem Reachable.zonesFit (hx : Reachable x) : ZonesFit x := by
  induction hx with
  | new => exact fun _ => Nat.two_pow_pos 16
  | read s dev ino sb hx =>
      obtain ⟨m, rfl⟩ := read_spec hx
      exact load_zonesFit fun _ => Nat.two_pow_pos 16
  | op _ o ih => exact o.zonesFit ih

/-- **Writing an inode and reading it again** gives what has been stored, for every inode that there can be, if and only
if its group and its number of links are below 256. -/
theorem inode_codec_iff (hx : Reachable x) {x' : Inode} (hwrite : minixWriteInode s x = some (s', x')) :
    Codec s x s' ↔ x.iGid.toNat < 256 ∧ x.iNlink.toNat < 256 :=
  codec_iff hx.zonesFit hwrite

end

/-! ### A new file -/

/-- A machine that can read every block. -/
def machine : State := ⟨fun _ _ => some ⟨fun _ => 0, false⟩, fun _ => SuperBlock.zero⟩

/-- A file of the super-user. -/
def file : Inode := minixNewInode 1 2 0 0 0 0

/-- What is written of an inode of `machine`. -/
def written (x : Inode) : State :=
  machine.setBuffer x.iDev (rawBlock SuperBlock.zero x.iIno)
    ⟨putAll (rawFields x ++ rawZones x) (rawInode x.iIno) fun _ => 0, true⟩

theorem inode_codec_file : Codec machine file (written file) := by
  have hwrite : minixWriteInode machine file = some (written file, { file with iDirt := false }) := rfl
  exact (inode_codec_iff (.new 1 2 0 0 0 0) hwrite).2 ⟨by decide, by decide⟩

/-- **A group from 256 on is lost**: there is one byte for it. -/
theorem chown_loses_group : ∃ x, Reachable x ∧ x = (Op.chown 0 256).run file ∧
    minixWriteInode machine x = some (written x, { x with iDirt := false }) ∧ ¬ Codec machine x (written x) := by
  have hreach : Reachable ((Op.chown 0 256).run file) := .op (.new 1 2 0 0 0 0) _
  refine ⟨_, hreach, rfl, rfl, fun h => ?_⟩
  have hfits := (codec_iff hreach.zonesFit rfl).1 h
  exact absurd hfits.1 (by decide)

end InodeCodec
end Minix
end Fs
end Linux095
