import Linux095.Fs.Minix.DirEntry
import Linux095.Fs.Minix.FileDev

/-!
# `Fs.Minix.DirMap` — a directory as a finite map (`fs/minix/namei.c`)

A directory is a file of sixteen-byte entries. Three functions scan it, each with a pointer into the block it is in
and a number for the entry: at the end of a block the number tells which block is next.

* `minixFindEntry`, `minixAddEntry`, `emptyDir` — the source's functions, on the files of `FileDev`;
* `entry`, `pos` — an entry by its number, and where it lies;
* `Dir` — a directory: all its blocks are there, and no name is twice in it;
* `find_eq`, `addEntry_spec`, `emptyDir_eq` — each scan in terms of the entries;
* `directory_is_map` — **a directory is a finite map from names to entries.**
-/

namespace Linux095
namespace Fs
namespace Minix
namespace DirMap

open Zones FileDev
open DirEntry (minixMatch minixMatch_iff MINIX_NAME_LEN ENTRIES_PER_BLOCK NameOk)

/-- `struct minix_dir_entry`. -/
abbrev Entry := DirEntry.Slot

/-- `sizeof(struct minix_dir_entry)`. -/
def ENTRY_SIZE : Nat := 16

/-- A `struct minix_dir_entry *` into the buffer of a zone: entry `k` of the block. -/
structure De where
  zone : Nat
  k : Nat
  deriving DecidableEq

/-- The `unsigned short` in two bytes. -/
def halfword (lo hi : Byte) : BitVec 16 := BitVec.ofNat 16 (lo.toNat + 256 * hi.toNat)

def bytesOf (n : BitVec 16) : List Byte := [BitVec.ofNat 8 n.toNat, BitVec.ofNat 8 (n.toNat / 256)]

/-- The entry in sixteen bytes. -/
def decode (byte : Nat → Byte) : Entry where
  inode := halfword (byte 0) (byte 1)
  name := fun y => if y < MINIX_NAME_LEN then byte (2 + y) else 0

/-- `*de`. -/
def entryAt (vol : Volume) (de : De) : Entry := decode fun o => vol.block de.zone (ENTRY_SIZE * de.k + o)

/-- `de->inode = n`. -/
def putInode (de : De) (n : BitVec 16) (s : Files) : Files :=
  { s with vol := FileDev.store s.vol de.zone (ENTRY_SIZE * de.k) (bytesOf n) }

/-- `de->name[i]=(i<namelen)?get_fs_byte(name+i):0`. -/
def putName (de : De) (name : List Byte) (s : Files) : Files :=
  { s with
    vol := FileDev.store s.vol de.zone (ENTRY_SIZE * de.k + 2)
      ((List.range MINIX_NAME_LEN).map fun i => name.getD i 0) }

/-- What each turn of the scans begins with: past the end of a block, the one of entry `i` is next. -/
def turn (create : Bool) (ino i : Nat) (de : De) (vol : Volume) : Option (De × Volume) :=
  if ENTRIES_PER_BLOCK ≤ de.k then
    (vol.bmap create ino (i / ENTRIES_PER_BLOCK)).map fun r => (⟨r.1, 0⟩, r.2)
  else some (de, vol)

/-- The loop of `minix_find_entry`. A block that is missing leaves no buffer to compare the pointer with: if entries
    are left, the next turn reads through `NULL`. -/
def findLoop (name : List Byte) (ino entries : Nat) (s : Files) : Nat → Nat → De → Option (Option De)
  | 0, _, _ => some none
  | fuel + 1, i, de =>
      if entries ≤ i then some none
      else
        match turn false ino i de s.vol with
        | none => none
        | some (de, _) =>
            if de.zone = 0 then if entries ≤ i + ENTRIES_PER_BLOCK then some none else none
            else if minixMatch name (entryAt s.vol de) then some (some de)
            else findLoop name ino entries s fuel (i + 1) ⟨de.zone, de.k + 1⟩

/-- `dir->i_size / sizeof(struct minix_dir_entry)`. -/
def entries (s : Files) (ino : Nat) : Nat := s.iSize ino / ENTRY_SIZE

/-- `minix_find_entry`, of which `NULL` is `some none`. -/
def minixFindEntry (name : List Byte) (ino : Nat) (s : Files) : Option (Option De) :=
  if s.vol.iData ino 0 = 0 then some none
  else findLoop (name.take MINIX_NAME_LEN) ino (entries s ino) s (entries s ino) 0 ⟨s.vol.iData ino 0, 0⟩

/-- An entry past the end is a new one. -/
def extend (ino i : Nat) (de : De) (s : Files) : Files :=
  if s.iSize ino ≤ i * ENTRY_SIZE then setSize (putInode de 0 s) ino ((i + 1) * ENTRY_SIZE) else s

/-- The loop of `minix_add_entry`. -/
def addLoop (name : List Byte) (ino : Nat) : Nat → Nat → De → Files → Option (Option De × Files)
  | 0, _, _, _ => none
  | fuel + 1, i, de, s =>
      match turn true ino i de s.vol with
      | none => none
      | some (de, vol) =>
          let s : Files := { s with vol := vol }
          if de.zone = 0 then some (none, s)
          else
            let s := extend ino i de s
            if (entryAt s.vol de).inode = 0 then some (some de, putName de name s)
            else addLoop name ino fuel (i + 1) ⟨de.zone, de.k + 1⟩ s

/-- `minix_add_entry`, which finds a place after the last entry if not before. -/
def minixAddEntry (name : List Byte) (ino : Nat) (s : Files) : Option (Option De × Files) :=
  if name = [] then some (none, s)
  else if s.vol.iData ino 0 = 0 then some (none, s)
  else addLoop (name.take MINIX_NAME_LEN) ino (entries s ino + 2) 0 ⟨s.vol.iData ino 0, 0⟩ s

/-- The loop of `empty_dir`. -/
def emptyLoop (ino len : Nat) (s : Files) : Nat → Nat → De → Option Bool
  | 0, _, _ => some true
  | fuel + 1, nr, de =>
      if len ≤ nr then some true
      else
        match turn false ino nr de s.vol with
        | none => none
        | some (de', _) =>
            if de'.zone = 0 then emptyLoop ino len s fuel (nr + ENTRIES_PER_BLOCK) de
            else if (entryAt s.vol de').inode ≠ 0 then some false
            else emptyLoop ino len s fuel (nr + 1) ⟨de'.zone, de'.k + 1⟩

/-- `strcmp(".",de->name)` is 0. -/
def isDot (e : Entry) : Prop := e.name 0 = 46 ∧ e.name 1 = 0

/-- `strcmp("..",de->name)` is 0. -/
def isDotDot (e : Entry) : Prop := e.name 0 = 46 ∧ e.name 1 = 46 ∧ e.name 2 = 0

instance (e : Entry) : Decidable (isDot e) := inferInstanceAs (Decidable (_ ∧ _))

instance (e : Entry) : Decidable (isDotDot e) := inferInstanceAs (Decidable (_ ∧ _ ∧ _))

/-- `empty_dir`. -/
def emptyDir (ino : Nat) (s : Files) : Option Bool :=
  let z := s.vol.iData ino 0
  if entries s ino < 2 ∨ z = 0 then some false
  else if (entryAt s.vol ⟨z, 0⟩).inode.toNat ≠ ino ∨ (entryAt s.vol ⟨z, 1⟩).inode = 0 ∨
      ¬ isDot (entryAt s.vol ⟨z, 0⟩) ∨ ¬ isDotDot (entryAt s.vol ⟨z, 1⟩) then some false
  else emptyLoop ino (entries s ino) s (entries s ino) 2 ⟨z, 2⟩

/-! ## Entries by their numbers -/

/-- Where entry `i` of a directory lies. -/
def pos (s : Files) (ino i : Nat) : De := ⟨blockZone s.vol ino (i / ENTRIES_PER_BLOCK), i % ENTRIES_PER_BLOCK⟩

/-- Entry `i`. -/
def entry (s : Files) (ino i : Nat) : Entry :=
  decode fun o => blockByte s.vol ino (i / ENTRIES_PER_BLOCK) (ENTRY_SIZE * (i % ENTRIES_PER_BLOCK) + o)

/-- The number of entries that a file can hold. -/
def maxEntries : Nat := ENTRIES_PER_BLOCK * maxBlock

/-- **A directory**: a file of whole entries, with a zone for each of them, whose live entries have different names. -/
structure Dir (s : Files) (ino : Nat) : Prop where
  wf : Wf s
  size : s.iSize ino = ENTRY_SIZE * entries s ino
  first : blockZone s.vol ino 0 ≠ 0
  solid : ∀ i < entries s ino, blockZone s.vol ino (i / ENTRIES_PER_BLOCK) ≠ 0
  unique : ∀ i j n, i < entries s ino → j < entries s ino → (entry s ino i).inode ≠ 0 → (entry s ino j).inode ≠ 0 →
    (entry s ino i).Named n → (entry s ino j).Named n → i = j

theorem div_lt {i : Nat} (h : i < maxEntries) : i / ENTRIES_PER_BLOCK < maxBlock := by
  unfold maxEntries ENTRIES_PER_BLOCK at *
  omega

theorem entries_le {s : Files} (h : Wf s) (ino : Nat) : entries s ino ≤ maxEntries := by
  have := h.size ino
  unfold entries maxEntries maxPos BLOCK_SIZE ENTRY_SIZE ENTRIES_PER_BLOCK at *
  omega

theorem pos_k_lt (s : Files) (ino i : Nat) : (pos s ino i).k < ENTRIES_PER_BLOCK := Nat.mod_lt _ (by decide)

/-- The pointer to entry `i` points to entry `i`. -/
theorem entryAt_pos {s : Files} {ino i : Nat} (h0 : blockZone s.vol ino (i / ENTRIES_PER_BLOCK) ≠ 0) :
    entryAt s.vol (pos s ino i) = entry s ino i := by
  unfold entryAt entry blockByte
  simp only [h0, if_false]
  rfl

/-- The pointer of a scan that is at entry `i`: it may still be at the end of the block before. -/
def Cursor (s : Files) (ino i : Nat) (de : De) : Prop :=
  (de = pos s ino i ∧ i < maxEntries ∧ blockZone s.vol ino (i / ENTRIES_PER_BLOCK) ≠ 0) ∨
    (de.k = ENTRIES_PER_BLOCK ∧ i % ENTRIES_PER_BLOCK = 0)

namespace Cursor

variable {s : Files} {ino i : Nat} {de : De}

theorem first (h : Dir s ino) : Cursor s ino 0 ⟨s.vol.iData ino 0, 0⟩ := .inl ⟨rfl, by decide, h.first⟩

theorem next (hi : i < maxEntries) (h0 : blockZone s.vol ino (i / ENTRIES_PER_BLOCK) ≠ 0) :
    Cursor s ino (i + 1) ⟨(pos s ino i).zone, (pos s ino i).k + 1⟩ := by
  unfold maxEntries at hi
  unfold Cursor maxEntries pos ENTRIES_PER_BLOCK at *
  by_cases hend : (i + 1) % 64 = 0
  · refine .inr ⟨?_, hend⟩
    dsimp only
    omega
  · have hblock : (i + 1) / 64 = i / 64 := by omega
    have hk : i % 64 + 1 = (i + 1) % 64 := by omega
    rw [hblock, hk]
    exact .inl ⟨rfl, by omega, h0⟩

/-- In a block that is there a turn finds its entry. -/
theorem turn_eq (h : Cursor s ino i de) (create : Bool) (hi : i < maxEntries)
    (h0 : blockZone s.vol ino (i / ENTRIES_PER_BLOCK) ≠ 0) :
    turn create ino i de s.vol = some (pos s ino i, s.vol) := by
  unfold turn
  rcases h with ⟨rfl, -, -⟩ | ⟨hk, hmod⟩
  · rw [if_neg (Nat.not_le.mpr (pos_k_lt s ino i))]
  · rw [if_pos hk.ge, bmap_present create (div_lt hi) h0]
    unfold pos
    rw [hmod]
    rfl

end Cursor

/-! ## `minix_find_entry` -/

section find
variable {s : Files} {ino : Nat} {name : List Byte}

/-- Entry `j` is one of the directory, and `minix_match` takes it for the name. -/
def Hit (s : Files) (ino : Nat) (name : List Byte) (j : Nat) : Prop :=
  j < entries s ino ∧ minixMatch name (entry s ino j)

instance (j : Nat) : Decidable (Hit s ino name j) := inferInstanceAs (Decidable (_ ∧ _))

theorem findLoop_eq (h : Dir s ino) {fuel i : Nat} {de : De} (hde : Cursor s ino i de)
    (hfuel : entries s ino ≤ i + fuel) :
    findLoop name ino (entries s ino) s fuel i de =
      some (((List.range' i fuel).find? (Hit s ino name ·)).map (pos s ino)) := by
  induction fuel generalizing i de with
  | zero => rfl
  | succ fuel ih =>
    unfold findLoop
    rw [List.range'_succ, List.find?_cons]
    by_cases hi : entries s ino ≤ i
    · rw [if_pos hi]
      have hnone : (List.range' (i + 1) fuel).find? (Hit s ino name ·) = none := by
        refine List.find?_eq_none.mpr fun j hj hhit => ?_
        have hlt := (of_decide_eq_true hhit).1
        have := List.mem_range'.mp hj
        omega
      have hmiss : ¬ Hit s ino name i := fun hhit => absurd hhit.1 (by omega)
      simp [hmiss, hnone]
    · have h0 := h.solid i (by omega)
      have hmax := entries_le h.wf ino
      rw [if_neg hi, hde.turn_eq false (by omega) h0]
      dsimp only
      have hzone : (pos s ino i).zone ≠ 0 := h0
      rw [if_neg hzone, entryAt_pos h0]
      by_cases hm : minixMatch name (entry s ino i)
      · have hhit : Hit s ino name i := ⟨by omega, hm⟩
        simp [hm, hhit]
      · have hmiss : ¬ Hit s ino name i := fun hhit => hm hhit.2
        simp only [hm, hmiss, if_false, decide_false]
        exact ih (.next (by omega) h0) (by omega)

/-- **The scan** finds the first entry that matches. -/
theorem find_eq (h : Dir s ino) : minixFindEntry name ino s =
    some (((List.range (entries s ino)).find? (Hit s ino (name.take MINIX_NAME_LEN) ·)).map (pos s ino)) := by
  unfold minixFindEntry
  rw [if_neg (show ¬ s.vol.iData ino 0 = 0 from h.first), findLoop_eq h (.first h) (by omega), List.range_eq_range']

theorem Hit.unique (h : Dir s ino) (hname : NameOk name) {i j : Nat} (hi : Hit s ino name i) (hj : Hit s ino name j) :
    i = j := by
  have hi' := (minixMatch_iff hname.ne hname.length hname.noZero).mp hi.2
  have hj' := (minixMatch_iff hname.ne hname.length hname.noZero).mp hj.2
  exact h.unique i j name hi.1 hj.1 hi'.1 hj'.1 hi'.2 hj'.2

theorem find_none_iff (h : Dir s ino) :
    minixFindEntry name ino s = some none ↔ ∀ j, ¬ Hit s ino (name.take MINIX_NAME_LEN) j := by
  rw [find_eq h, Option.some.injEq, Option.map_eq_none_iff, List.find?_eq_none]
  constructor
  · intro hnone j hhit
    exact hnone j (List.mem_range.mpr hhit.1) (decide_eq_true hhit)
  · exact fun hnone j _ hhit => hnone j (of_decide_eq_true hhit)

theorem Hit.of_find {l : List Nat} {j : Nat} (h : l.find? (Hit s ino name ·) = some j) : Hit s ino name j := by
  have hfound := List.find?_some h
  exact of_decide_eq_true hfound

theorem find_some_iff (h : Dir s ino) (hname : NameOk (name.take MINIX_NAME_LEN)) {d : De} :
    minixFindEntry name ino s = some (some d) ↔ ∃ j, Hit s ino (name.take MINIX_NAME_LEN) j ∧ d = pos s ino j := by
  rw [find_eq h, Option.some.injEq, Option.map_eq_some_iff]
  constructor
  · rintro ⟨j, hj, rfl⟩
    exact ⟨j, .of_find hj, rfl⟩
  · rintro ⟨j, hhit, rfl⟩
    cases hf : (List.range (entries s ino)).find? (Hit s ino (name.take MINIX_NAME_LEN) ·) with
    | none =>
      exact absurd (decide_eq_true hhit) (List.find?_eq_none.mp hf j (List.mem_range.mpr hhit.1))
    | some i => exact ⟨i, rfl, congrArg _ (Hit.unique h hname (.of_find hf) hhit)⟩

theorem find_total (name : List Byte) (h : Dir s ino) : ∃ r, minixFindEntry name ino s = some r := ⟨_, find_eq h⟩

/-- Two directories with the same hits for a name answer the same. -/
theorem find_congr {s' : Files} (h : Dir s ino) (h' : Dir s' ino) (hname : NameOk (name.take MINIX_NAME_LEN))
    (hhit : ∀ j, Hit s' ino (name.take MINIX_NAME_LEN) j ↔ Hit s ino (name.take MINIX_NAME_LEN) j)
    (hpos : ∀ j < entries s ino, pos s' ino j = pos s ino j) :
    minixFindEntry name ino s' = minixFindEntry name ino s := by
  obtain ⟨r, hr⟩ := find_total name h
  rw [hr]
  cases r with
  | none => exact (find_none_iff h').mpr fun j hj => (find_none_iff h).mp hr j ((hhit j).mp hj)
  | some d =>
    obtain ⟨j, hj, rfl⟩ := (find_some_iff h hname).mp hr
    exact (find_some_iff h' hname).mpr ⟨j, (hhit j).mpr hj, (hpos j hj.1).symm⟩

end find

/-! ## Writing to an entry -/

/-- Entry `i` of a directory is written to. -/
structure Written (s s' : Files) (ino i : Nat) : Prop where
  owned : Owned s'.vol
  size : s'.iSize = s.iSize
  zone : ∀ b < maxBlock, blockZone s'.vol ino b = blockZone s.vol ino b
  others : ∀ j < maxEntries, j ≠ i → entry s' ino j = entry s ino j

theorem Written.pos_eq {s s' : Files} {ino i j : Nat} (h : Written s s' ino i) (hj : j < maxEntries) :
    pos s' ino j = pos s ino j := by
  unfold pos
  rw [h.zone _ (div_lt hj)]

theorem decode_congr {f g : Nat → Byte} (h : ∀ o < ENTRY_SIZE, f o = g o) : decode f = decode g := by
  unfold decode
  unfold ENTRY_SIZE at h
  rw [h 0 (by decide), h 1 (by decide)]
  congr 1
  funext y
  by_cases hy : y < MINIX_NAME_LEN
  · rw [if_pos hy, if_pos hy, h _ (by unfold MINIX_NAME_LEN at hy; omega)]
  · rw [if_neg hy, if_neg hy]

theorem halfword_bytesOf (n : BitVec 16) : halfword (BitVec.ofNat 8 n.toNat) (BitVec.ofNat 8 (n.toNat / 256)) = n := by
  have := n.isLt
  unfold halfword
  refine BitVec.eq_of_toNat_eq ?_
  rw [BitVec.toNat_ofNat, BitVec.toNat_ofNat, BitVec.toNat_ofNat]
  omega

theorem decode_inode {f g : Nat → Byte} {n : BitVec 16}
    (h : ∀ o < ENTRY_SIZE, f o = if o < 2 then (bytesOf n).getD o 0 else g o) :
    decode f = ⟨n, (decode g).name⟩ := by
  unfold ENTRY_SIZE at h
  unfold decode
  rw [h 0 (by decide), h 1 (by decide)]
  refine congrArg₂ DirEntry.Slot.mk (halfword_bytesOf n) ?_
  funext y
  dsimp only
  by_cases hy : y < MINIX_NAME_LEN
  · rw [if_pos hy, if_pos hy, h _ (by unfold MINIX_NAME_LEN at hy; omega), if_neg (by omega)]
  · rw [if_neg hy, if_neg hy]

/-- A name as `minix_add_entry` stores it. -/
def padded (name : List Byte) (y : Nat) : Byte := if y < MINIX_NAME_LEN then name.getD y 0 else 0

theorem decode_name {f g : Nat → Byte} {name : List Byte}
    (h : ∀ o < ENTRY_SIZE, f o = if 2 ≤ o then name.getD (o - 2) 0 else g o) :
    decode f = ⟨(decode g).inode, padded name⟩ := by
  unfold ENTRY_SIZE at h
  unfold decode
  rw [h 0 (by decide), h 1 (by decide)]
  refine congrArg₂ DirEntry.Slot.mk rfl ?_
  funext y
  unfold padded
  by_cases hy : y < MINIX_NAME_LEN
  · rw [if_pos hy, if_pos hy, h _ (by unfold MINIX_NAME_LEN at hy; omega), if_pos (by omega), Nat.add_sub_cancel_left]
  · rw [if_neg hy, if_neg hy]

section write
variable {s : Files} {ino i : Nat}

/-- The bytes of an entry after a write to entry `i`. -/
theorem blockByte_write (h : Owned s.vol) (hi : i < maxEntries)
    (h0 : blockZone s.vol ino (i / ENTRIES_PER_BLOCK) ≠ 0) (off : Nat) (data : List Byte)
    (hfit : off + data.length ≤ ENTRY_SIZE) {j o : Nat} (hj : j < maxEntries) (ho : o < ENTRY_SIZE) :
    blockByte (FileDev.store s.vol (pos s ino i).zone (ENTRY_SIZE * (pos s ino i).k + off) data) ino
        (j / ENTRIES_PER_BLOCK) (ENTRY_SIZE * (j % ENTRIES_PER_BLOCK) + o) =
      if j = i ∧ off ≤ o ∧ o < off + data.length then data.getD (o - off) 0
      else blockByte s.vol ino (j / ENTRIES_PER_BLOCK) (ENTRY_SIZE * (j % ENTRIES_PER_BLOCK) + o) := by
  unfold pos
  dsimp only
  rw [blockByte_store h (div_lt hi) h0 _ _ (div_lt hj)]
  unfold ENTRY_SIZE ENTRIES_PER_BLOCK at *
  by_cases hin : j = i ∧ off ≤ o ∧ o < off + data.length
  · obtain ⟨rfl, hlo, hhi⟩ := hin
    rw [if_pos ⟨rfl, rfl, by omega, by omega⟩, if_pos ⟨rfl, hlo, hhi⟩]
    congr 1
    omega
  · rw [if_neg hin, if_neg]
    rintro ⟨-, hblock, hlo, hhi⟩
    exact hin ⟨by omega, by omega, by omega⟩

theorem written (h : Owned s.vol) (hi : i < maxEntries) (h0 : blockZone s.vol ino (i / ENTRIES_PER_BLOCK) ≠ 0)
    (off : Nat) (data : List Byte) (hfit : off + data.length ≤ ENTRY_SIZE) :
    Written s
      { s with vol := FileDev.store s.vol (pos s ino i).zone (ENTRY_SIZE * (pos s ino i).k + off) data } ino i where
  owned := store_owned h (div_lt hi) h0 _ _
  size := rfl
  zone b hb := zoneAt_of_vals (store_vals h (div_lt hi) h0 _ _) (slotPath_ok hb)
  others j hj hne := decode_congr fun o ho => by
    dsimp only
    rw [blockByte_write h hi h0 off data hfit hj ho, if_neg fun hc => hne hc.1]

theorem bytesOf_fit (n : BitVec 16) : 0 + (bytesOf n).length ≤ ENTRY_SIZE := by simp [bytesOf, ENTRY_SIZE]

theorem putInode_written (h : Owned s.vol) (hi : i < maxEntries)
    (h0 : blockZone s.vol ino (i / ENTRIES_PER_BLOCK) ≠ 0) (n : BitVec 16) :
    Written s (putInode (pos s ino i) n s) ino i := written h hi h0 0 (bytesOf n) (bytesOf_fit n)

theorem entry_putInode (h : Owned s.vol) (hi : i < maxEntries)
    (h0 : blockZone s.vol ino (i / ENTRIES_PER_BLOCK) ≠ 0) (n : BitVec 16) :
    entry (putInode (pos s ino i) n s) ino i = ⟨n, (entry s ino i).name⟩ := by
  refine decode_inode fun o ho => ?_
  refine (blockByte_write h hi h0 0 (bytesOf n) (bytesOf_fit n) hi ho).trans ?_
  simp [bytesOf]

theorem name_fit (name : List Byte) :
    2 + ((List.range MINIX_NAME_LEN).map fun i => name.getD i 0).length ≤ ENTRY_SIZE := by
  simp [MINIX_NAME_LEN, ENTRY_SIZE]

theorem putName_written (h : Owned s.vol) (hi : i < maxEntries)
    (h0 : blockZone s.vol ino (i / ENTRIES_PER_BLOCK) ≠ 0) (name : List Byte) :
    Written s (putName (pos s ino i) name s) ino i := written h hi h0 2 _ (name_fit name)

theorem entry_putName (h : Owned s.vol) (hi : i < maxEntries)
    (h0 : blockZone s.vol ino (i / ENTRIES_PER_BLOCK) ≠ 0) (name : List Byte) :
    entry (putName (pos s ino i) name s) ino i = ⟨(entry s ino i).inode, padded name⟩ := by
  refine decode_name fun o ho => ?_
  refine (blockByte_write h hi h0 2 _ (name_fit name) hi ho).trans ?_
  unfold ENTRY_SIZE at ho
  by_cases h2 : 2 ≤ o
  · rw [if_pos ⟨rfl, h2, by simp [MINIX_NAME_LEN]; omega⟩, if_pos h2, List.getD_eq_getElem?_getD, List.getElem?_map,
      List.getElem?_range (by unfold MINIX_NAME_LEN; omega)]
    rfl
  · rw [if_neg (fun hc => h2 hc.2.1), if_neg h2]

end write

/-! ## `minix_add_entry` -/

/-- Entry `j` is free, or new, and all before it are live. -/
structure FirstFree (s : Files) (ino j : Nat) : Prop where
  le : j ≤ entries s ino
  free : j < entries s ino → (entry s ino j).inode = 0
  live : ∀ i < j, (entry s ino i).inode ≠ 0

/-- Entry `j` has got the name, and `n` as its inode. -/
structure Added (s s' : Files) (ino : Nat) (name : List Byte) (j : Nat) (n : BitVec 16) : Prop where
  wf : Wf s'
  size : s'.iSize ino = ENTRY_SIZE * max (entries s ino) (j + 1)
  zone : ∀ b < maxBlock, blockZone s.vol ino b ≠ 0 → blockZone s'.vol ino b = blockZone s.vol ino b
  lt : j < maxEntries
  here : blockZone s'.vol ino (j / ENTRIES_PER_BLOCK) ≠ 0
  entry : entry s' ino j = ⟨n, padded name⟩
  others : ∀ i < entries s ino, i ≠ j → DirMap.entry s' ino i = DirMap.entry s ino i

theorem Added.pos_eq {s s' : Files} {ino i j : Nat} {name : List Byte} {n : BitVec 16}
    (h : Added s s' ino name j n) (hi : i < maxEntries) (h0 : blockZone s.vol ino (i / ENTRIES_PER_BLOCK) ≠ 0) :
    pos s' ino i = pos s ino i := by
  unfold pos
  rw [h.zone _ (div_lt hi) h0]

section add
variable {s : Files} {ino i : Nat} {name : List Byte}

/-- The name goes into a free entry. -/
theorem added_free (name : List Byte) (h : Dir s ino) (hi : i < entries s ino) (hfree : (entry s ino i).inode = 0) :
    Added s (putName (pos s ino i) name s) ino name i 0 := by
  have hmax := entries_le h.wf ino
  have h0 := h.solid i hi
  have hw := putName_written h.wf.owned (by omega) h0 name
  refine ⟨⟨hw.owned, fun x => hw.size ▸ h.wf.size x⟩, ?_, fun b hb _ => hw.zone b hb, by omega, ?_, ?_, ?_⟩
  · rw [hw.size, h.size, max_eq_left (by omega)]
  · rw [hw.zone _ (div_lt (by omega))]
    exact h0
  · rw [entry_putName h.wf.owned (by omega) h0, hfree]
  · exact fun j hj hne => hw.others j (by omega) hne

theorem entry_of_grows {vol : Volume} (h : Grows s.vol vol) (hi : i < maxEntries) :
    entry { s with vol := vol } ino i = entry s ino i := by
  unfold entry
  congr 1
  funext o
  exact h.bytes _ _ _ (div_lt hi)

/-- The name goes into a new entry. -/
theorem added_new (name : List Byte) (h : Dir s ino) {vol : Volume} (hg : Grows s.vol vol)
    (hn : entries s ino < maxEntries)
    (h0 : blockZone vol ino (entries s ino / ENTRIES_PER_BLOCK) ≠ 0) :
    let s1 : Files := { s with vol := vol }
    let de := pos s1 ino (entries s ino)
    (entryAt (extend ino (entries s ino) de s1).vol de).inode = 0 ∧
      pos (putName de name (extend ino (entries s ino) de s1)) ino (entries s ino) = de ∧
      Added s (putName de name (extend ino (entries s ino) de s1)) ino name (entries s ino) 0 := by
  intro s1 de
  have hextend : extend ino (entries s ino) de s1 =
      setSize (putInode de 0 s1) ino ((entries s ino + 1) * ENTRY_SIZE) := by
    refine if_pos ?_
    show s.iSize ino ≤ _
    rw [h.size, Nat.mul_comm]
  rw [hextend]
  set s2 := setSize (putInode de 0 s1) ino ((entries s ino + 1) * ENTRY_SIZE) with hs2
  have hw1 : Written s1 (putInode de 0 s1) ino (entries s ino) := putInode_written hg.owned hn h0 0
  have hzone2 : ∀ b < maxBlock, blockZone s2.vol ino b = blockZone vol ino b := hw1.zone
  have hpos2 : pos s2 ino (entries s ino) = de := by
    unfold pos
    rw [hzone2 _ (div_lt hn)]
    rfl
  have h02 : blockZone s2.vol ino (entries s ino / ENTRIES_PER_BLOCK) ≠ 0 := by
    rw [hzone2 _ (div_lt hn)]
    exact h0
  have hentry2 : (entry s2 ino (entries s ino)).inode = 0 :=
    congrArg DirEntry.Slot.inode (entry_putInode (s := s1) hg.owned hn h0 0)
  have howned2 : Owned s2.vol := hw1.owned
  have hw2 : Written s2 (putName de name s2) ino (entries s ino) := hpos2 ▸ putName_written howned2 hn h02 name
  refine ⟨?_, ?_, ?_⟩
  · rw [← hpos2, entryAt_pos h02]
    exact hentry2
  · unfold pos
    rw [hw2.zone _ (div_lt hn), hzone2 _ (div_lt hn)]
    rfl
  · refine ⟨⟨hw2.owned, fun x => ?_⟩, ?_, fun b hb hne => ?_, hn, ?_, ?_, fun j hj hne => ?_⟩
    · rw [hw2.size]
      show (if x = ino then _ else s.iSize x) ≤ maxPos
      by_cases hx : x = ino
      · rw [if_pos hx]
        unfold maxEntries maxPos BLOCK_SIZE ENTRY_SIZE ENTRIES_PER_BLOCK at *
        omega
      · rw [if_neg hx]
        exact h.wf.size x
    · rw [hw2.size, max_eq_right (by omega), Nat.mul_comm]
      exact if_pos rfl
    · rw [hw2.zone b hb, hzone2 b hb]
      exact hg.zoneAt_eq (slotPath_ok hb) hne
    · rw [hw2.zone _ (div_lt hn)]
      exact h02
    · have hname := entry_putName howned2 hn h02 name
      rw [hpos2] at hname
      rw [hname, hentry2]
    · rw [hw2.others j (by omega) hne]
      exact (hw1.others j (by omega) hne).trans (entry_of_grows hg (by omega))

/-- What `minix_add_entry` has done when it returns: there is no zone left, or the name is in the first free entry. -/
def Placed (s : Files) (ino : Nat) (name : List Byte) (r : Option De × Files) : Prop :=
  (r.1 = none ∧ Full r.2.vol ∧ ∀ i < entries s ino, (entry s ino i).inode ≠ 0) ∨
    ∃ j, FirstFree s ino j ∧ r.1 = some (pos r.2 ino j) ∧ Added s r.2 ino name j 0

/-- The turn past the last entry: a new entry in the last block or in a new one. -/
theorem addLoop_end (h : Dir s ino) {fuel : Nat} {de : De} (hde : Cursor s ino (entries s ino) de)
    (hlive : ∀ i < entries s ino, (entry s ino i).inode ≠ 0) :
    (∃ r, addLoop name ino (fuel + 1) (entries s ino) de s = some r ∧ Placed s ino name r) ∨
      (addLoop name ino (fuel + 1) (entries s ino) de s = none ∧ entries s ino = maxEntries) := by
  have hfirst : FirstFree s ino (entries s ino) := ⟨le_rfl, fun hlt => absurd hlt (lt_irrefl _), hlive⟩
  -- with a zone for the new entry, the name goes there
  have hplace : ∀ {vol : Volume} {de' : De}, turn true ino (entries s ino) de s.vol = some (de', vol) →
      Grows s.vol vol → entries s ino < maxEntries → de' = pos { s with vol := vol } ino (entries s ino) →
      de'.zone ≠ 0 → ∃ r, addLoop name ino (fuel + 1) (entries s ino) de s = some r ∧ Placed s ino name r := by
    rintro vol _ hturn hg hlt rfl h0
    obtain ⟨hinode, hpos, hadded⟩ := added_new name h hg hlt h0
    refine ⟨(some (pos { s with vol := vol } ino (entries s ino)), _), ?_,
      .inr ⟨_, hfirst, congrArg some hpos.symm, hadded⟩⟩
    unfold addLoop
    rw [hturn]
    exact (if_neg h0).trans (if_pos hinode)
  rcases hde with ⟨rfl, hlt, h0⟩ | ⟨hk, hmod⟩
  · refine .inl (hplace ?_ (.refl h.wf.owned) hlt rfl h0)
    exact if_neg (Nat.not_le.mpr (pos_k_lt s ino _))
  · have hturn : turn true ino (entries s ino) de s.vol =
        (s.vol.bmap true ino (entries s ino / ENTRIES_PER_BLOCK)).map fun r => (⟨r.1, 0⟩, r.2) := if_pos hk.ge
    rcases (entries_le h.wf ino).lt_or_eq with hlt | heq
    · obtain ⟨z, vol, hbmap, hmap⟩ := bmap_grows h.wf.owned true ino (div_lt hlt)
      rw [hbmap] at hturn
      by_cases h0 : z = 0
      · refine .inl ⟨(none, { s with vol := vol }), ?_, .inl ⟨rfl, hmap.full rfl h0, hlive⟩⟩
        unfold addLoop
        rw [hturn]
        exact if_pos h0
      · refine .inl (hplace hturn hmap.grows hlt ?_ h0)
        unfold pos
        rw [hmod, hmap.zone]
    · refine .inr ⟨?_, heq⟩
      have hbmap : s.vol.bmap true ino (entries s ino / ENTRIES_PER_BLOCK) = none := by
        refine if_pos ?_
        rw [heq]
        decide
      rw [hbmap] at hturn
      unfold addLoop
      rw [hturn]
      rfl

/-- **The loop** finds the first free entry, or makes one. -/
theorem addLoop_spec (h : Dir s ino) {fuel : Nat} {de : De} (hde : Cursor s ino i de) (hi : i ≤ entries s ino)
    (hlive : ∀ j < i, (entry s ino j).inode ≠ 0) (hfuel : entries s ino < i + fuel) :
    (∃ r, addLoop name ino fuel i de s = some r ∧ Placed s ino name r) ∨
      (addLoop name ino fuel i de s = none ∧ entries s ino = maxEntries ∧
        ∀ j < entries s ino, (entry s ino j).inode ≠ 0) := by
  induction fuel generalizing i de with
  | zero => omega
  | succ fuel ih =>
    have hmax := entries_le h.wf ino
    rcases hi.lt_or_eq with hlt | rfl
    · have h0 := h.solid i hlt
      have hkeep : extend ino i (pos s ino i) s = s := by
        refine if_neg ?_
        rw [h.size]
        unfold ENTRY_SIZE
        omega
      have hzone : (pos s ino i).zone ≠ 0 := h0
      have hstep : addLoop name ino (fuel + 1) i de s =
          if (entry s ino i).inode = 0 then some (some (pos s ino i), putName (pos s ino i) name s)
          else addLoop name ino fuel (i + 1) ⟨(pos s ino i).zone, (pos s ino i).k + 1⟩ s := by
        rw [addLoop, hde.turn_eq true (by omega) h0]
        dsimp only
        rw [if_neg hzone, hkeep, entryAt_pos h0]
      by_cases hfree : (entry s ino i).inode = 0
      · rw [hstep, if_pos hfree]
        have hadded := added_free name h hlt hfree
        exact .inl ⟨_, rfl, .inr ⟨i, ⟨hlt.le, fun _ => hfree, hlive⟩, congrArg some (hadded.pos_eq hadded.lt h0).symm,
          hadded⟩⟩
      · rw [hstep, if_neg hfree]
        refine ih (.next (by omega) h0) hlt (fun j hj => ?_) (by omega)
        rcases Nat.lt_succ_iff_lt_or_eq.mp hj with hj | rfl
        · exact hlive j hj
        · exact hfree
    · rcases addLoop_end h hde hlive with hr | ⟨hnone, heq⟩
      · exact .inl hr
      · exact .inr ⟨hnone, heq, hlive⟩

/-- **`minix_add_entry`** returns, unless the directory is as long as a file can be and has no free entry. -/
theorem addEntry_spec (h : Dir s ino) (hne : name ≠ []) :
    (∃ r, minixAddEntry name ino s = some r ∧ Placed s ino (name.take MINIX_NAME_LEN) r) ∨
      (minixAddEntry name ino s = none ∧ entries s ino = maxEntries ∧
        ∀ j < entries s ino, (entry s ino j).inode ≠ 0) := by
  unfold minixAddEntry
  rw [if_neg hne, if_neg (show ¬ s.vol.iData ino 0 = 0 from h.first)]
  exact addLoop_spec h (.first h) (Nat.zero_le _) (fun j hj => absurd hj (Nat.not_lt_zero j)) (by omega)

end add

/-! ## `empty_dir` -/

section empty
variable {s : Files} {ino i : Nat}

theorem emptyLoop_eq (h : Dir s ino) {fuel : Nat} {de : De} (hde : Cursor s ino i de)
    (hfuel : entries s ino ≤ i + fuel) :
    emptyLoop ino (entries s ino) s fuel i de =
      some (decide (∀ j < entries s ino, i ≤ j → (entry s ino j).inode = 0)) := by
  induction fuel generalizing i de with
  | zero =>
    have hall : ∀ j < entries s ino, i ≤ j → (entry s ino j).inode = 0 := fun j hj hij => by omega
    rw [decide_eq_true hall]
    rfl
  | succ fuel ih =>
    unfold emptyLoop
    by_cases hi : entries s ino ≤ i
    · have hall : ∀ j < entries s ino, i ≤ j → (entry s ino j).inode = 0 := fun j hj hij => by omega
      rw [if_pos hi, decide_eq_true hall]
    · have hmax := entries_le h.wf ino
      have h0 := h.solid i (by omega)
      have hzone : (pos s ino i).zone ≠ 0 := h0
      rw [if_neg hi, hde.turn_eq false (by omega) h0]
      dsimp only
      rw [if_neg hzone, entryAt_pos h0]
      by_cases hfree : (entry s ino i).inode = 0
      · rw [if_neg (not_not.mpr hfree), ih (.next (by omega) h0) (by omega)]
        congr 2
        refine propext ⟨fun hall j hj hij => ?_, fun hall j hj hij => hall j hj (by omega)⟩
        rcases hij.lt_or_eq with hlt | rfl
        · exact hall j hj hlt
        · exact hfree
      · rw [if_pos hfree, decide_eq_false fun hall => hfree (hall i (by omega) le_rfl)]

/-- The first two entries of a directory. -/
structure Dots (s : Files) (ino : Nat) : Prop where
  two : 2 ≤ entries s ino
  self : (entry s ino 0).inode.toNat = ino
  parent : (entry s ino 1).inode ≠ 0
  dot : isDot (entry s ino 0)
  dotdot : isDotDot (entry s ino 1)

/-- **`empty_dir`** tells whether there are other entries. -/
theorem emptyDir_eq (h : Dir s ino) (hdots : Dots s ino) :
    emptyDir ino s = some (decide (∀ j < entries s ino, 2 ≤ j → (entry s ino j).inode = 0)) := by
  have htwo := hdots.two
  have hfirst : ¬ s.vol.iData ino 0 = 0 := h.first
  have he0 : entryAt s.vol ⟨s.vol.iData ino 0, 0⟩ = entry s ino 0 := entryAt_pos (i := 0) h.first
  have he1 : entryAt s.vol ⟨s.vol.iData ino 0, 1⟩ = entry s ino 1 := entryAt_pos (i := 1) h.first
  unfold emptyDir
  dsimp only
  rw [if_neg (by omega), he0, he1, if_neg]
  · have hcursor : Cursor s ino 2 ⟨s.vol.iData ino 0, 2⟩ := .inl ⟨rfl, by decide, h.first⟩
    exact emptyLoop_eq h hcursor (by omega)
  · rintro (hne | hne | hne | hne)
    · exact hne hdots.self
    · exact hdots.parent hne
    · exact hne hdots.dot
    · exact hne hdots.dotdot

end empty

/-! ## A finite map -/

/-- The name as an entry keeps it. -/
def key (name : List Byte) : List Byte := name.take MINIX_NAME_LEN

/-- A component of a path. -/
structure Name (name : List Byte) : Prop where
  ne : name ≠ []
  noZero : 0 ∉ name

theorem Name.ok {name : List Byte} (h : Name name) : NameOk (key name) where
  ne hnil := by
    rcases List.take_eq_nil_iff.mp hnil with h0 | h0
    · cases h0
    · exact h.ne h0
  length := List.length_take_le _ _
  noZero hz := h.noZero (List.mem_of_mem_take hz)

theorem named_padded {name : List Byte} (h : NameOk name) (n : BitVec 16) :
    (⟨n, padded name⟩ : Entry).Named name := by
  refine ⟨h.length, h.noZero, fun hlt => ?_, fun k b hk => ?_⟩
  · show padded name name.length = 0
    unfold padded
    rw [if_pos hlt, List.getD_eq_default _ _ le_rfl]
  · have hlt := (List.getElem?_eq_some_iff.mp hk).1
    have hlen := h.length
    show padded name k = b
    unfold padded
    rw [if_pos (by omega), List.getD_eq_getElem?_getD, hk]
    rfl

section map
variable {s s' : Files} {ino j : Nat} {name other : List Byte} {n : BitVec 16}

namespace Added

/-- The inode is filled in. -/
theorem putInode (h : Added s s' ino name j 0) (hs : Dir s ino) (n : BitVec 16) :
    Added s (putInode (pos s' ino j) n s') ino name j n := by
  have hw := putInode_written h.wf.owned h.lt h.here n
  have hmax := entries_le hs.wf ino
  refine ⟨⟨hw.owned, fun x => hw.size ▸ h.wf.size x⟩, ?_, fun b hb h0 => ?_, h.lt, ?_, ?_, fun i hi hne => ?_⟩
  · rw [hw.size, h.size]
  · rw [hw.zone b hb, h.zone b hb h0]
  · rw [hw.zone _ (div_lt h.lt)]
    exact h.here
  · rw [entry_putInode h.wf.owned h.lt h.here n, h.entry]
  · rw [hw.others i (by omega) hne, h.others i hi hne]

theorem entries_eq (h : Added s s' ino name j n) : entries s' ino = max (entries s ino) (j + 1) := by
  show s'.iSize ino / ENTRY_SIZE = _
  rw [h.size]
  unfold ENTRY_SIZE
  omega

/-- An entry of the new directory is the new one or an old one. -/
theorem cases {i : Nat} (h : Added s s' ino name j n) (hfree : FirstFree s ino j) (hi : i < entries s' ino) :
    i = j ∨ i ≠ j ∧ i < entries s ino := by
  have hle := hfree.le
  rw [h.entries_eq] at hi
  omega

/-- The hits for a name are the new entry, if it is its, and the old hits. -/
theorem hit_iff (h : Added s s' ino name j n) (hfree : FirstFree s ino j) (hname : NameOk name) (hother : NameOk other)
    (hn : n ≠ 0) (i : Nat) : Hit s' ino other i ↔ (i = j ∧ other = name) ∨ Hit s ino other i := by
  have hmatch : ∀ e : Entry, minixMatch other e ↔ e.inode ≠ 0 ∧ e.Named other := fun e =>
    minixMatch_iff hother.ne hother.length hother.noZero
  unfold Hit
  constructor
  · rintro ⟨hi, hm⟩
    rcases h.cases hfree hi with rfl | ⟨hne, hlt⟩
    · rw [h.entry] at hm
      exact .inl ⟨rfl, ((hmatch _).mp hm).2.inj (named_padded hname n)⟩
    · rw [h.others i hlt hne] at hm
      exact .inr ⟨hlt, hm⟩
  · have hle := h.entries_eq
    rintro (⟨rfl, rfl⟩ | ⟨hlt, hm⟩)
    · refine ⟨by omega, ?_⟩
      rw [h.entry]
      exact (hmatch _).mpr ⟨hn, named_padded hname n⟩
    · refine ⟨by omega, ?_⟩
      have hne : i ≠ j := by
        rintro rfl
        exact hm.1 (hfree.free hlt)
      rw [h.others i hlt hne]
      exact hm

/-- **The directory stays one**: the name was not in it. -/
theorem dir (h : Added s s' ino name j n) (hs : Dir s ino) (hfree : FirstFree s ino j) (hname : NameOk name)
    (habsent : ∀ i, ¬ Hit s ino name i) : Dir s' ino := by
  have hmax := entries_le hs.wf ino
  have habsent' : ∀ i < entries s ino, (DirMap.entry s ino i).inode ≠ 0 → ¬ (DirMap.entry s ino i).Named name :=
    fun i hi h0 hnamed => habsent i ⟨hi, (minixMatch_iff hname.ne hname.length hname.noZero).mpr ⟨h0, hnamed⟩⟩
  refine ⟨h.wf, ?_, ?_, fun i hi => ?_, fun i k m hi hk h0 h0' hm hm' => ?_⟩
  · rw [h.entries_eq, h.size]
  · rw [h.zone 0 (by decide) hs.first]
    exact hs.first
  · rcases h.cases hfree hi with rfl | ⟨-, hlt⟩
    · exact h.here
    · rw [h.zone _ (div_lt (by omega)) (hs.solid i hlt)]
      exact hs.solid i hlt
  · rcases h.cases hfree hi with rfl | ⟨hne, hlt⟩ <;> rcases h.cases hfree hk with rfl | ⟨hne', hlt'⟩
    · rfl
    · rw [h.entry] at hm
      rw [h.others k hlt' hne'] at hm' h0'
      obtain rfl := hm.inj (named_padded hname n)
      exact absurd hm' (habsent' k hlt' h0')
    · rw [h.entry] at hm'
      rw [h.others i hlt hne] at hm h0
      obtain rfl := hm'.inj (named_padded hname n)
      exact absurd hm (habsent' i hlt h0)
    · rw [h.others i hlt hne] at hm h0
      rw [h.others k hlt' hne'] at hm' h0'
      exact hs.unique i k m hlt hlt' h0 h0' hm hm'

end Added

/-- What a scan finds after a name has been added. -/
theorem find_added (hs : Dir s ino) (hfree : FirstFree s ino j) (hname : Name name)
    (hadded : Added s s' ino (key name) j n) (hn : n ≠ 0) (habsent : minixFindEntry name ino s = some none) :
    Dir s' ino ∧ minixFindEntry name ino s' = some (some (pos s' ino j)) ∧
      ∀ other, Name other → key other ≠ key name → minixFindEntry other ino s' = minixFindEntry other ino s := by
  have hdir := hadded.dir hs hfree hname.ok ((find_none_iff hs).mp habsent)
  have hmax := entries_le hs.wf ino
  refine ⟨hdir, ?_, fun other hother hne => ?_⟩
  · exact (find_some_iff hdir hname.ok).mpr
      ⟨j, (hadded.hit_iff hfree hname.ok hname.ok hn j).mpr (.inl ⟨rfl, rfl⟩), rfl⟩
  · refine find_congr hs hdir hother.ok (fun i => ?_) fun i hi => hadded.pos_eq (by omega) (hs.solid i hi)
    rw [← key, hadded.hit_iff hfree hname.ok hother.ok hn]
    exact ⟨fun hi => hi.resolve_left fun hc => hne hc.2, .inr⟩

/-- What a scan finds after an entry has been cleared. -/
theorem find_cleared (hs : Dir s ino) (hname : Name name) {de : De}
    (hfind : minixFindEntry name ino s = some (some de)) :
    Dir (putInode de 0 s) ino ∧ minixFindEntry name ino (putInode de 0 s) = some none ∧
      ∀ other, Name other → key other ≠ key name →
        minixFindEntry other ino (putInode de 0 s) = minixFindEntry other ino s := by
  obtain ⟨j, hhit, rfl⟩ := (find_some_iff hs hname.ok).mp hfind
  have hmax := entries_le hs.wf ino
  have hlt := hhit.1
  have h0 := hs.solid j hlt
  have hw := putInode_written hs.wf.owned (by omega) h0 0
  have hentry := entry_putInode hs.wf.owned (by omega) h0 0
  have hentries : entries (putInode (pos s ino j) 0 s) ino = entries s ino := rfl
  have hgone : ∀ {m i}, Hit (putInode (pos s ino j) 0 s) ino m i → i ≠ j := by
    rintro m i hi rfl
    have hm := hi.2
    rw [hentry] at hm
    exact hm.1 rfl
  have hdir : Dir (putInode (pos s ino j) 0 s) ino := by
    refine ⟨⟨hw.owned, hs.wf.size⟩, hs.size, ?_, fun i hi => ?_, fun i k m hi hk hi0 hk0 hm hm' => ?_⟩
    · rw [hw.zone 0 (by decide)]
      exact hs.first
    · rw [hw.zone _ (div_lt (by omega))]
      exact hs.solid i hi
    · have hne : ∀ {i}, (entry (putInode (pos s ino j) 0 s) ino i).inode ≠ 0 → i ≠ j := by
        rintro i hi rfl
        rw [hentry] at hi
        exact hi rfl
      have hij := hne hi0
      have hkj := hne hk0
      rw [hw.others i (by omega) hij] at hi0 hm
      rw [hw.others k (by omega) hkj] at hk0 hm'
      exact hs.unique i k m hi hk hi0 hk0 hm hm'
  have hold : ∀ {m i}, i ≠ j → (Hit (putInode (pos s ino j) 0 s) ino m i ↔ Hit s ino m i) := by
    intro m i hne
    unfold Hit
    rw [hentries]
    refine and_congr_right fun hi => ?_
    rw [hw.others i (by omega) hne]
  refine ⟨hdir, (find_none_iff hdir).mpr fun i hi => ?_, fun other hother hne => ?_⟩
  · exact hgone hi (Hit.unique hs hname.ok ((hold (hgone hi)).mp hi) hhit)
  · refine find_congr hs hdir hother.ok (fun i => ?_) fun i hi => ?_
    · by_cases hij : i = j
      · subst hij
        refine iff_of_false (fun hi => hgone hi rfl) fun hi => hne ?_
        have hm := (minixMatch_iff hother.ok.ne hother.ok.length hother.ok.noZero).mp hi.2
        have hm' := (minixMatch_iff hname.ok.ne hname.ok.length hname.ok.noZero).mp hhit.2
        exact hm.2.inj hm'.2
      · exact hold hij
    · exact hw.pos_eq (hi.trans_le hmax)

/-- **A directory is a finite map from names to entries**, as far as the first `MINIX_NAME_LEN` bytes of a name go.
    A name that is added is found where it was put, one that is cleared is not found any more, and all others are
    found as before; a free entry is used again before the directory grows, which it does while there are zones;
    and `empty_dir` sees every entry after the first two. -/
theorem directory_is_map (h : Dir s ino) :
    (∀ name de s' n, Name name → n ≠ 0 → minixFindEntry name ino s = some none →
      minixAddEntry name ino s = some (some de, s') →
      Dir (putInode de n s') ino ∧ minixFindEntry name ino (putInode de n s') = some (some de) ∧
        ∀ other, Name other → key other ≠ key name →
          minixFindEntry other ino (putInode de n s') = minixFindEntry other ino s) ∧
    (∀ name, Name name → entries s ino < maxEntries →
      ∃ r, minixAddEntry name ino s = some r ∧ (r.1 = none → Full r.2.vol)) ∧
    (∀ name de, Name name → minixFindEntry name ino s = some (some de) →
      Dir (putInode de 0 s) ino ∧ minixFindEntry name ino (putInode de 0 s) = some none ∧
        ∀ other, Name other → key other ≠ key name →
          minixFindEntry other ino (putInode de 0 s) = minixFindEntry other ino s) ∧
    (∀ name i, Name name → i < entries s ino → (entry s ino i).inode = 0 →
      ∃ j s', minixAddEntry name ino s = some (some (pos s ino j), s') ∧ j < entries s ino ∧
        (entry s ino j).inode = 0 ∧ s'.iSize ino = s.iSize ino) ∧
    (Dots s ino → (emptyDir ino s = some true ↔ ∀ i < entries s ino, 2 ≤ i → (entry s ino i).inode = 0)) := by
  refine ⟨?_, ?_, fun name de hname hfind => find_cleared h hname hfind, ?_, fun hdots => ?_⟩
  · intro name de s' n hname hn habsent hadd
    rcases addEntry_spec h hname.ne with ⟨r, hr, hplaced⟩ | ⟨hr, -⟩
    · obtain rfl := Option.some.inj (hadd.symm.trans hr)
      rcases hplaced with ⟨hnone, -⟩ | ⟨j, hfree, hde, hadded⟩
      · cases hnone
      · dsimp only at hde hadded
        obtain rfl := Option.some.inj hde
        have hfill := hadded.putInode h n
        obtain ⟨hdir, hfound, hothers⟩ := find_added h hfree hname hfill hn habsent
        refine ⟨hdir, ?_, hothers⟩
        have hw := putInode_written hadded.wf.owned hadded.lt hadded.here n
        rw [hw.pos_eq hadded.lt] at hfound
        exact hfound
    · rw [hadd] at hr
      cases hr
  · intro name hname hlt
    rcases addEntry_spec h hname.ne with ⟨r, hr, hplaced⟩ | ⟨-, heq, -⟩
    · refine ⟨r, hr, fun hnone => ?_⟩
      rcases hplaced with ⟨-, hfull, -⟩ | ⟨j, -, hde, -⟩
      · exact hfull
      · rw [hnone] at hde
        cases hde
    · omega
  · intro name i hname hi h0
    rcases addEntry_spec h hname.ne with ⟨r, hr, hplaced⟩ | ⟨-, -, hlive⟩
    · rcases hplaced with ⟨-, -, hlive⟩ | ⟨j, hfree, hde, hadded⟩
      · exact absurd h0 (hlive i hi)
      · have hmax := entries_le h.wf ino
        have hj : j < entries s ino := by
          by_contra hge
          exact hfree.live i (by omega) h0
        refine ⟨j, r.2, ?_, hj, hfree.free hj, ?_⟩
        · rw [hr, ← hadded.pos_eq (by omega) (h.solid j hj), ← hde]
        · rw [hadded.size, h.size, max_eq_left hj]
    · exact absurd h0 (hlive i hi)
  · rw [emptyDir_eq h hdots, Option.some.injEq, decide_eq_true_eq]

end map

/-- The entries `.` and `..` of the root directory, as they are on the disk. -/
def dots : List Byte := [1, 0, 46] ++ List.replicate 13 0 ++ ([1, 0, 46, 46] ++ List.replicate 12 0)

/-- A file system with a root directory. -/
def newDir : Files := (minixFileWrite 1 ⟨0, false⟩ dots newFiles).elim newFiles fun r => r.2.2

theorem newDir_dir : Dir newDir 1 := by
  have hwf : Wf newDir := by
    have hserve : ∃ r, serve (.write 1 ⟨0, false⟩ dots) newFiles = some r ∧ r.2 = newDir := by
      refine serve_returns newFiles_wf ?_ |>.imp fun r hr => ⟨hr, ?_⟩
      · show 0 + dots.length ≤ maxPos
        decide
      · unfold newDir
        unfold serve at hr
        cases hw : minixFileWrite 1 ⟨0, false⟩ dots newFiles with
        | none => simp [hw] at hr
        | some w =>
          simp [hw] at hr
          rw [← hr]
          rfl
    obtain ⟨r, hr, hdir⟩ := hserve
    exact hdir ▸ (serve_refines newFiles_wf hr).1
  have hentries : entries newDir 1 = 2 := by decide +kernel
  have h0 : blockZone newDir.vol 1 0 ≠ 0 := by decide +kernel
  refine ⟨hwf, by decide +kernel, h0, fun i hi => ?_, fun i j n hi hj _ _ hni hnj => ?_⟩
  · have hblock : i / ENTRIES_PER_BLOCK = 0 := by
      unfold ENTRIES_PER_BLOCK
      omega
    rw [hblock]
    exact h0
  · have hdot : (entry newDir 1 0).Named [46] := by
      refine (minixMatch_iff (by decide) (by decide) (by decide)).mp ?_ |>.2
      decide +kernel
    have hdotdot : (entry newDir 1 1).Named [46, 46] := by
      refine (minixMatch_iff (by decide) (by decide) (by decide)).mp ?_ |>.2
      decide +kernel
    rw [hentries] at hi hj
    obtain rfl | rfl : i = 0 ∨ i = 1 := by omega
    · obtain rfl | rfl : j = 0 ∨ j = 1 := by omega
      · rfl
      · have hne := (hni.inj hdot).symm.trans (hnj.inj hdotdot)
        cases hne
    · obtain rfl | rfl : j = 0 ∨ j = 1 := by omega
      · have hne := (hni.inj hdotdot).symm.trans (hnj.inj hdot)
        cases hne
      · rfl

/-- A name added to a new directory. -/
theorem directory_is_map_new : ∃ de s', minixAddEntry [97] 1 newDir = some (some de, s') ∧
    minixFindEntry [97] 1 (putInode de 5 s') = some (some de) ∧
    minixFindEntry [46, 46] 1 (putInode de 5 s') = minixFindEntry [46, 46] 1 newDir := by
  have hadd : (minixAddEntry [97] 1 newDir).map Prod.fst = some (some (pos newDir 1 2)) := by decide +kernel
  obtain ⟨⟨de, s'⟩, hs, rfl⟩ := Option.map_eq_some_iff.mp hadd
  have habsent : minixFindEntry [97] 1 newDir = some none := by decide +kernel
  have hmap := (directory_is_map newDir_dir).1 [97] _ s' 5 ⟨by decide, by decide⟩ (by decide) habsent hs
  exact ⟨_, s', hs, hmap.2.1, hmap.2.2 [46, 46] ⟨by decide, by decide⟩ (by decide)⟩

end DirMap
end Minix
end Fs
end Linux095
