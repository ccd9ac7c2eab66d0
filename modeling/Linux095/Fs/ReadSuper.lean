import Linux095.Seq.Program
import Linux095.Fs.Types

/-!
# `Fs.ReadSuper` — reading a super block (`fs/super.c`, `fs/minix/bitmap.c`)

`read_super` takes the super block of a disk as it is, and reads as many blocks of the maps as that says there are, into
two arrays of eight. Whoever made the disk decides about the numbers.

* `readSuper` — the source's function, with all accesses to the arrays and through the pointers in them;
  `freeBlockMap`, `newBlockMap` — what `minix_free_block` and `minix_new_block` find in the arrays later;
* `Safe` — **nothing but the arrays is written, no pointer is NULL, nothing is left behind by a call that fails, and the
  maps are there for all zones after one that does not**;
* `readSuper_safe_iff` — for which disks that is so.

Before, `read_super` calls `check_disk_change`. The device has no other buffers in this model than its blocks, and what
is in them is left out, but for the bits that `read_super` sets itself.
-/

namespace Linux095
namespace Fs
namespace ReadSuper
open Seq Prog

/-- `MINIX_I_MAP_SLOTS` and `MINIX_Z_MAP_SLOTS`. -/
def MAP_SLOTS : Nat := 8
def MINIX_SUPER_MAGIC : BitVec 16 := 0x137F

/-- `struct minix_super_block`. -/
structure DSuper where
  sNinodes : BitVec 16
  sNzones : BitVec 16
  sImapBlocks : BitVec 16
  sZmapBlocks : BitVec 16
  sFirstdatazone : BitVec 16
  sLogZoneSize : BitVec 16
  sMaxSize : BitVec 32
  sMagic : BitVec 16

/-- `s_imap` or `s_zmap`. -/
inductive Map where
  | imap
  | zmap
  deriving DecidableEq

/-- `struct super_block`; a buffer is the number of its block. -/
structure Super where
  d : DSuper
  map : Map → Nat → Option Nat
  sDev : Dev
  sLock : Bool

/-- A device: which of its blocks can be read, and what is in block 1. -/
structure Disk where
  readable : Nat → Bool
  super : DSuper

/-- The super blocks, and the buffers of the device: `b_count`, and the first byte of the data. -/
structure State where
  superBlock : Nat → Super
  bCount : Nat → Nat
  data : Nat → BitVec 8

/-- What goes wrong. -/
inductive Off where
  /-- An element is written, or read, that the array does not have. -/
  | outOfBounds
  | nullPointer
  /-- "Trying to free free buffer". -/
  | freeFree
  /-- "trying to free block not in datazone". -/
  | notInDatazone
  deriving DecidableEq

abbrev Call (α : Type) : Type := Prog State Off α

namespace State

def setSuper (s : State) (j : Nat) (f : Super → Super) : State :=
  { s with superBlock := fun x => if x = j then f (s.superBlock x) else s.superBlock x }

def setCount (s : State) (b : Nat) (f : Nat → Nat) : State :=
  { s with bCount := fun x => if x = b then f (s.bCount x) else s.bCount x }

end State

/-- `s->s_imap[i] = bh`. -/
def Super.setMap (sb : Super) (m : Map) (i : Nat) (bh : Option Nat) : Super :=
  { sb with map := fun m' x => if m' = m ∧ x = i then bh else sb.map m' x }

section

variable (disk : Disk)

def bread (block : Nat) : Call (Option Nat) :=
  if disk.readable block then do
    .modify fun s => s.setCount block (· + 1)
    return some block
  else return none

def brelse : Option Nat → Call Unit
  | none => return
  | some b => do
      if (← .reads fun s => s.bCount b) = 0 then .halt .freeFree
      else .modify fun s => s.setCount b (· - 1)

/-- The loops that read the maps; `n` blocks are to come. What is returned is `block`. -/
def readMaps (m : Map) (j : Nat) : Nat → Nat → Nat → Call Nat
  | 0, _, block => return block
  | n + 1, i, block => do
      let bh ← bread disk block
      if MAP_SLOTS ≤ i then .halt .outOfBounds
      else
        .modify fun s => s.setSuper j fun sb => sb.setMap m i bh
        match bh with
        | none => return block
        | some _ => readMaps m j n (i + 1) (block + 1)

/-- The loops that release them, from the slot `i` on. -/
def releaseMaps (m : Map) (j : Nat) : Nat → Nat → Call Unit
  | 0, _ => return
  | n + 1, i => do
      brelse (← .reads fun s => (s.superBlock j).map m i)
      releaseMaps m j n (i + 1)

/-- `s->s_imap[0]->b_data[0] |= 1`. -/
def setFirst (m : Map) (j : Nat) : Call Unit := do
  match ← .reads fun s => (s.superBlock j).map m 0 with
  | none => .halt .nullPointer
  | some b => .modify fun s => { s with data := fun x => if x = b then s.data x ||| 1 else s.data x }

/-- `s->s_dev = 0` and `free_super`. -/
def giveUp (j : Nat) : Call Unit := .modify fun s => s.setSuper j fun sb => { sb with sDev := 0, sLock := false }

/-- `read_super`, from where it has found the free slot `j`. -/
def fillSuper (dev : Dev) (j : Nat) : Call (Option Nat) := do
  .modify fun s => s.setSuper j fun sb => { sb with sDev := dev, sLock := true }
  match ← bread disk 1 with
  | none =>
      giveUp j
      return none
  | some bh =>
      .modify fun s => s.setSuper j fun sb => { sb with d := disk.super }
      brelse (some bh)
      if disk.super.sMagic ≠ MINIX_SUPER_MAGIC then
        giveUp j
        return none
      else
        .modify fun s => s.setSuper j fun sb => { sb with map := fun m i => if i < MAP_SLOTS then none else sb.map m i }
        let block ← readMaps disk .imap j disk.super.sImapBlocks.toNat 0 2
        let block ← readMaps disk .zmap j disk.super.sZmapBlocks.toNat 0 block
        if block ≠ 2 + disk.super.sImapBlocks.toNat + disk.super.sZmapBlocks.toNat then
          releaseMaps .imap j MAP_SLOTS 0
          releaseMaps .zmap j MAP_SLOTS 0
          giveUp j
          return none
        else
          setFirst .imap j
          setFirst .zmap j
          .modify fun s => s.setSuper j fun sb => { sb with sLock := false }
          return some j

/-- `get_super`. -/
def getSuper (s : State) (dev : Dev) : Option Nat :=
  if dev = 0 then none else (List.range NR_SUPER).find? fun j => (s.superBlock j).sDev == dev

/-- The first super block that is free. -/
def freeSuper (s : State) : Option Nat := (List.range NR_SUPER).find? fun j => (s.superBlock j).sDev == 0

/-- `read_super`. -/
def readSuper (dev : Dev) : Call (Option Nat) := do
  if dev = 0 then return none
  else
    match ← .reads fun s => getSuper s dev with
    | some j => return some j
    | none =>
        match ← .reads freeSuper with
        | none => return none
        | some j => fillSuper disk dev j

end

/-! ## What is wanted of it -/

/-- The buffer that `minix_free_block` clears a bit in. -/
def freeBlockMap (sb : Super) (block : Nat) : Except Off Nat :=
  if block < sb.d.sFirstdatazone.toNat ∨ sb.d.sNzones.toNat ≤ block then .error .notInDatazone
  else
    let zone := (block - sb.d.sFirstdatazone.toNat + 1) >>> 13
    if MAP_SLOTS ≤ zone then .error .outOfBounds
    else (sb.map .zmap zone).elim (.error .nullPointer) .ok

/-- The buffer that `minix_new_block` takes a bit from, and its index; `ffz` is `find_first_zero` of its data. -/
def newBlockMap (ffz : Nat → Nat) (sb : Super) : Option (Nat × Nat) :=
  (List.range 8).findSome? fun i => (sb.map .zmap i).bind fun bh => if ffz bh < 8192 then some (i, bh) else none

/-- What a call that fails leaves behind: nothing. -/
structure Clean (s s' : State) : Prop where
  count : s'.bCount = s.bCount
  super : ∀ j, s'.superBlock j = s.superBlock j ∨ (s'.superBlock j).sDev = 0 ∧ (s'.superBlock j).sLock = false

/-- A super block with its maps. -/
structure Usable (dev : Dev) (j : Nat) (s s' : State) : Prop where
  dev : (s'.superBlock j).sDev = dev
  lock : (s'.superBlock j).sLock = false
  /-- The buffers are held. -/
  held : ∀ m i b, (s'.superBlock j).map m i = some b → i < MAP_SLOTS → s.bCount b < s'.bCount b
  free : ∀ block, (s'.superBlock j).d.sFirstdatazone.toNat ≤ block → block < (s'.superBlock j).d.sNzones.toNat →
    ∃ b, freeBlockMap (s'.superBlock j) block = .ok b
  new : ∀ ffz i b, newBlockMap ffz (s'.superBlock j) = some (i, b) →
    i < MAP_SLOTS ∧ (s'.superBlock j).map .zmap i = some b

/-- **`read_super` keeps to its arrays and to what it has read, and leaves things clean or usable.** A super block that
is there already is not read. -/
def Safe (disk : Disk) (dev : Dev) (s : State) : Prop :=
  (readSuper disk dev).Ends s (fun _ => False) fun o s' =>
    (o = none → Clean s s') ∧ ∀ j, o = some j → getSuper s dev = none → Usable dev j s s'

/-- **The condition**: neither loop comes to a ninth slot, and if all blocks of the maps can be read, there is one of
each map, and those of the zone map are enough for the zones. -/
def Admissible (disk : Disk) : Prop :=
  let d := disk.super
  disk.readable 1 = true → d.sMagic = MINIX_SUPER_MAGIC →
    (MAP_SLOTS < d.sImapBlocks.toNat → ∃ i < MAP_SLOTS, disk.readable (2 + i) = false) ∧
    (MAP_SLOTS < d.sZmapBlocks.toNat → ∃ i < d.sImapBlocks.toNat + MAP_SLOTS, disk.readable (2 + i) = false) ∧
    ((∀ i < d.sImapBlocks.toNat + d.sZmapBlocks.toNat, disk.readable (2 + i) = true) →
      0 < d.sImapBlocks.toNat ∧ 0 < d.sZmapBlocks.toNat ∧
        d.sNzones.toNat - d.sFirstdatazone.toNat < d.sZmapBlocks.toNat * 8192)

/-! ## The loops -/

/-- How many blocks can be read from `b` on, of `n`. -/
def readRun (disk : Disk) : Nat → Nat → Nat
  | _, 0 => 0
  | b, n + 1 => if disk.readable b then readRun disk (b + 1) n + 1 else 0

section

variable {disk : Disk} {b n i j k : Nat} {s s' : State} {m : Map}

theorem readRun_le (disk : Disk) (b n : Nat) : readRun disk b n ≤ n := by
  induction n generalizing b with
  | zero => exact Nat.le_refl 0
  | succ n ih =>
      unfold readRun
      split
      · exact Nat.succ_le_succ (ih (b + 1))
      · exact Nat.zero_le _

theorem readRun_eq_iff : readRun disk b n = n ↔ ∀ i < n, disk.readable (b + i) = true := by
  induction n generalizing b with
  | zero => exact ⟨fun _ i hi => absurd hi (Nat.not_lt_zero i), fun _ => rfl⟩
  | succ n ih =>
      unfold readRun
      split
      · next hb =>
          rw [Nat.succ.injEq, ih]
          refine ⟨fun h i hi => ?_, fun h i hi => ?_⟩
          · cases i with
            | zero => exact hb
            | succ i =>
                have hi' := h i (Nat.lt_of_succ_lt_succ hi)
                rwa [Nat.add_assoc, Nat.add_comm 1 i] at hi'
          · have hi' := h (i + 1) (Nat.succ_lt_succ hi)
            rwa [Nat.add_comm i 1, ← Nat.add_assoc] at hi'
      · next hb => exact ⟨fun h => absurd h (Nat.succ_ne_zero n).symm, fun h => absurd (h 0 (Nat.succ_pos n)) hb⟩

/-- The slots from `i` on are filled with `k` buffers from `b` on. -/
structure Filled (m : Map) (j i b k : Nat) (s s' : State) : Prop where
  others : ∀ x, x ≠ j → s'.superBlock x = s.superBlock x
  fields : ∃ f, s'.superBlock j = { s.superBlock j with map := f }
  otherMap : ∀ m', m' ≠ m → (s'.superBlock j).map m' = (s.superBlock j).map m'
  before : ∀ x < i, (s'.superBlock j).map m x = (s.superBlock j).map m x
  slots : ∀ x < k, (s'.superBlock j).map m (i + x) = some (b + x)
  after : ∀ x, i + k ≤ x → (s.superBlock j).map m x = none → (s'.superBlock j).map m x = none
  count : ∀ x, s'.bCount x = s.bCount x + if b ≤ x ∧ x < b + k then 1 else 0

/-- The loop comes to a ninth slot if eight blocks can be read and there are more to come. -/
def Over (disk : Disk) (b n i : Nat) : Prop := MAP_SLOTS - i < n ∧ readRun disk b (MAP_SLOTS - i) = MAP_SLOTS - i

theorem over_succ (hi : i < MAP_SLOTS) (hb : disk.readable b = true) :
    Over disk b (n + 1) i ↔ Over disk (b + 1) n (i + 1) := by
  unfold Over
  have hslots : MAP_SLOTS - i = MAP_SLOTS - (i + 1) + 1 := by omega
  rw [hslots, readRun, if_pos hb, Nat.succ.injEq, Nat.add_lt_add_iff_right]

/-- One slot is filled. -/
theorem Filled.first (s : State) (m : Map) (j i b : Nat) :
    Filled m j i b 1 s ((s.setCount b (· + 1)).setSuper j fun sb => sb.setMap m i (some b)) := by
  have hself : ((s.setCount b (· + 1)).setSuper j fun sb => sb.setMap m i (some b)).superBlock j =
      (s.superBlock j).setMap m i (some b) := if_pos rfl
  refine ⟨fun x hx => if_neg hx, ⟨_, hself⟩, fun m' hm => ?_, fun x hx => ?_, fun x hx => ?_, fun x hx hnone => ?_,
    fun x => ?_⟩
  · rw [hself]
    exact funext fun x => if_neg fun h => hm h.1
  · rw [hself]
    exact if_neg fun h => by omega
  · rw [hself, Nat.lt_one_iff.1 hx]
    exact if_pos ⟨rfl, rfl⟩
  · rw [hself]
    exact (if_neg fun h => by omega).trans hnone
  · have hcount : ((s.setCount b (· + 1)).setSuper j fun sb => sb.setMap m i (some b)).bCount x =
        if x = b then s.bCount x + 1 else s.bCount x := rfl
    rw [hcount]
    split <;> split <;> omega

theorem Filled.trans {s'' : State} {k' : Nat} (h : Filled m j i b k s s')
    (h' : Filled m j (i + k) (b + k) k' s' s'') : Filled m j i b (k + k') s s'' := by
  obtain ⟨f, hf⟩ := h.fields
  obtain ⟨f', hf'⟩ := h'.fields
  refine ⟨fun x hx => (h'.others x hx).trans (h.others x hx), ⟨f', by rw [hf', hf]⟩,
    fun m' hm => (h'.otherMap m' hm).trans (h.otherMap m' hm),
    fun x hx => (h'.before x (by omega)).trans (h.before x hx), fun x hx => ?_, fun x hx hnone => ?_, fun x => ?_⟩
  · by_cases hxk : x < k
    · exact (h'.before (i + x) (by omega)).trans (h.slots x hxk)
    · have hslot := h'.slots (x - k) (by omega)
      have hi : i + k + (x - k) = i + x := by omega
      have hb : b + k + (x - k) = b + x := by omega
      rwa [hi, hb] at hslot
  · exact h'.after x (by omega) (h.after x (by omega) hnone)
  · rw [h'.count, h.count, Nat.add_assoc]
    congr 1
    split <;> split <;> split <;> omega

theorem readMaps_spec (hi : i ≤ MAP_SLOTS) :
    (readMaps disk m j n i b).Ends s (fun e => e = .outOfBounds ∧ Over disk b n i) fun r s' =>
      ¬ Over disk b n i ∧ r = b + readRun disk b n ∧ Filled m j i b (readRun disk b n) s s' := by
  induction n generalizing i b s with
  | zero =>
      refine .pure ⟨fun h => absurd h.1 (Nat.not_lt_zero _), rfl, fun _ _ => rfl, ⟨_, rfl⟩, fun _ _ => rfl,
        fun _ _ => rfl, fun x hx => absurd hx (Nat.not_lt_zero x), fun _ _ h => h, fun x => ?_⟩
      have hzero : readRun disk b 0 = 0 := rfl
      rw [hzero, if_neg (by omega), Nat.add_zero]
  | succ n ih =>
      unfold readMaps bread
      cases hb : disk.readable b with
      | true =>
          refine .bind (.bind (.modify (.pure ?_)))
          split
          · next hge =>
              have hi : MAP_SLOTS - i = 0 := by omega
              exact .halt ⟨rfl, by rw [hi]; exact Nat.succ_pos n, by rw [hi]; rfl⟩
          · next hlt =>
              refine .bind (.modify ?_)
              have hrun : readRun disk b (n + 1) = 1 + readRun disk (b + 1) n := by
                rw [readRun, if_pos hb, Nat.add_comm]
              refine (ih (by omega)).weaken (fun e he => ⟨he.1, (over_succ (by omega) hb).2 he.2⟩) fun r s' hr => ?_
              obtain ⟨hover, hr, hfilled⟩ := hr
              refine ⟨fun h => hover ((over_succ (by omega) hb).1 h), ?_, ?_⟩
              · rw [hr, hrun, Nat.add_assoc]
              · rw [hrun]
                exact (Filled.first s m j i b).trans hfilled
      | false =>
          refine .bind (.pure ?_)
          have hzero : ∀ x, readRun disk b (x + 1) = 0 := fun x => by rw [readRun, hb, if_neg Bool.false_ne_true]
          split
          · next hge =>
              have hi : MAP_SLOTS - i = 0 := by omega
              exact .halt ⟨rfl, by rw [hi]; exact Nat.succ_pos n, by rw [hi]; rfl⟩
          · next hlt =>
              refine .bind (.modify (.pure ⟨fun h => ?_, by rw [hzero]; rfl, ?_⟩))
              · have hslots : MAP_SLOTS - i = MAP_SLOTS - (i + 1) + 1 := by omega
                have heq := h.2
                rw [hslots, hzero] at heq
                omega
              · rw [hzero]
                have hself : (s.setSuper j fun sb => sb.setMap m i none).superBlock j =
                    (s.superBlock j).setMap m i none := if_pos rfl
                refine ⟨fun x hx => if_neg hx, ⟨_, hself⟩, fun m' hm => ?_, fun x hx => ?_,
                  fun x hx => absurd hx (Nat.not_lt_zero x), fun x hx hnone => ?_, fun x => ?_⟩
                · rw [hself]
                  exact funext fun x => if_neg fun h => hm h.1
                · rw [hself]
                  exact if_neg fun h => by omega
                · rw [hself]
                  unfold Super.setMap
                  dsimp only
                  split
                  · rfl
                  · exact hnone
                · rw [if_neg (by omega)]
                  rfl

/-- Slots from `i` to the last, of which those before `k` are filled with the buffers from `b` on. -/
theorem releaseMaps_spec (hslots : ∀ x, i ≤ x → x < i + n →
      (s.superBlock j).map m x = if x < k then some (b + x) else none)
    (hcounts : ∀ y, b + i ≤ y → y < b + k → 0 < s.bCount y) (hk : k ≤ i + n) :
    (releaseMaps m j n i).Ends s (fun _ => False) fun _ s' => s'.superBlock = s.superBlock ∧ s'.data = s.data ∧
      ∀ y, s'.bCount y + (if b + i ≤ y ∧ y < b + k then 1 else 0) = s.bCount y := by
  induction n generalizing i s with
  | zero => exact .pure ⟨rfl, rfl, fun y => by rw [if_neg (by omega)]; rfl⟩
  | succ n ih =>
      unfold releaseMaps
      refine .bind (.reads ?_)
      rw [hslots i (Nat.le_refl i) (by omega)]
      by_cases hi : i < k
      · rw [if_pos hi]
        unfold brelse
        refine .bind (.bind (.reads ?_))
        have hpos := hcounts (b + i) (Nat.le_refl _) (by omega)
        rw [if_neg hpos.ne']
        refine .modify ?_
        have hcount : ∀ y, (s.setCount (b + i) (· - 1)).bCount y = if y = b + i then s.bCount y - 1 else s.bCount y :=
          fun y => rfl
        have hcounts' : ∀ y, b + (i + 1) ≤ y → y < b + k → 0 < (s.setCount (b + i) (· - 1)).bCount y := by
          intro y hy hy'
          rw [hcount, if_neg (by omega)]
          exact hcounts y (by omega) hy'
        refine Ends.mono (ih (s := s.setCount (b + i) (· - 1)) (fun x hx hx' => hslots x (by omega) (by omega)) hcounts'
          (by omega)) fun _ s' h => ⟨h.1, h.2.1, fun y => ?_⟩
        · have hy := h.2.2 y
          rw [hcount] at hy
          by_cases heq : y = b + i
          · rw [if_pos heq, if_neg (by omega)] at hy
            rw [if_pos (by omega)]
            rw [heq] at hy ⊢
            omega
          · rw [if_neg heq] at hy
            rw [← hy]
            congr 1
            split <;> split <;> omega
      · rw [if_neg hi]
        refine .bind (.pure (Ends.mono (ih (s := s) (fun x hx hx' => hslots x (by omega) (by omega))
          (fun y hy hy' => absurd hy (by omega)) (by omega)) fun _ s' h => ⟨h.1, h.2.1, fun y => ?_⟩))
        have hy := h.2.2 y
        rw [if_neg (by omega)] at hy
        rw [if_neg (by omega)]
        exact hy

/-! ## Which disks are admissible -/

/-- The block after the last one that can be read cannot. -/
theorem readRun_stop (h : readRun disk b n < n) : disk.readable (b + readRun disk b n) = false := by
  induction n generalizing b with
  | zero => exact absurd h (Nat.not_lt_zero _)
  | succ n ih =>
      cases hb : disk.readable b with
      | true =>
          have hrun : readRun disk b (n + 1) = readRun disk (b + 1) n + 1 := if_pos hb
          rw [hrun] at h ⊢
          rw [Nat.add_comm _ 1, ← Nat.add_assoc]
          exact ih (Nat.lt_of_succ_lt_succ h)
      | false =>
          have hrun : readRun disk b (n + 1) = 0 := if_neg (Bool.eq_false_iff.1 hb)
          rw [hrun]
          exact hb

theorem over_iff : Over disk b n 0 ↔ MAP_SLOTS < n ∧ ∀ i < MAP_SLOTS, disk.readable (b + i) = true :=
  and_congr Iff.rfl readRun_eq_iff

theorem readRun_read (h : i < readRun disk b n) : disk.readable (b + i) = true := by
  induction n generalizing b i with
  | zero => exact absurd h (Nat.not_lt_zero _)
  | succ n ih =>
      unfold readRun at h
      split at h
      · next hb =>
          cases i with
          | zero => exact hb
          | succ i =>
              have hread := ih (Nat.lt_of_succ_lt_succ h)
              rwa [Nat.add_assoc, Nat.add_comm 1 i] at hread
      · exact absurd h (Nat.not_lt_zero _)

/-- A loop that does not come to a ninth slot fills eight at most. -/
theorem readRun_slots (h : ¬ Over disk b n 0) : readRun disk b n ≤ MAP_SLOTS := by
  by_contra hgt
  have hle := readRun_le disk b n
  exact h (over_iff.2 ⟨by omega, fun i hi => readRun_read (n := n) (by omega)⟩)

/-- The blocks of both maps that are read, one map behind the other. -/
def imapRun (disk : Disk) : Nat := readRun disk 2 disk.super.sImapBlocks.toNat
def zmapRun (disk : Disk) : Nat := readRun disk (2 + imapRun disk) disk.super.sZmapBlocks.toNat

/-- Neither loop comes to a ninth slot. -/
def Within (disk : Disk) : Prop :=
  ¬ Over disk 2 disk.super.sImapBlocks.toNat 0 ∧ ¬ Over disk (2 + imapRun disk) disk.super.sZmapBlocks.toNat 0

/-- All blocks of the maps can be read. -/
def Complete (disk : Disk) : Prop :=
  imapRun disk = disk.super.sImapBlocks.toNat ∧ zmapRun disk = disk.super.sZmapBlocks.toNat

theorem complete_iff : Complete disk ↔
    ∀ i < disk.super.sImapBlocks.toNat + disk.super.sZmapBlocks.toNat, disk.readable (2 + i) = true := by
  unfold Complete zmapRun imapRun
  rw [readRun_eq_iff]
  refine ⟨fun ⟨hi, hz⟩ x hx => ?_, fun h => ⟨fun x hx => h x (by omega), ?_⟩⟩
  · rw [readRun_eq_iff.2 hi, readRun_eq_iff] at hz
    by_cases hlt : x < disk.super.sImapBlocks.toNat
    · exact hi x hlt
    · have hread := hz (x - disk.super.sImapBlocks.toNat) (by omega)
      have hx' : 2 + disk.super.sImapBlocks.toNat + (x - disk.super.sImapBlocks.toNat) = 2 + x := by omega
      rwa [hx'] at hread
  · rw [readRun_eq_iff.2 fun x hx => h x (by omega), readRun_eq_iff]
    intro x hx
    rw [Nat.add_assoc]
    exact h _ (by omega)

theorem within_iff : Within disk ↔
    (MAP_SLOTS < disk.super.sImapBlocks.toNat → ∃ i < MAP_SLOTS, disk.readable (2 + i) = false) ∧
    (MAP_SLOTS < disk.super.sZmapBlocks.toNat →
      ∃ i < disk.super.sImapBlocks.toNat + MAP_SLOTS, disk.readable (2 + i) = false) := by
  have hfails : ∀ {n}, (∃ i < n, disk.readable (2 + i) = false) ↔ ¬ ∀ i < n, disk.readable (2 + i) = true := by
    intro n
    simp only [not_forall, Bool.not_eq_true, exists_prop]
  rw [hfails, hfails]
  unfold Within
  rw [over_iff, over_iff, not_and]
  refine and_congr_right fun h => ?_
  rw [not_and]
  refine imp_congr_right fun hz => not_congr ⟨fun hread i hi => ?_, fun hread i hi => ?_⟩
  · have hle : imapRun disk ≤ disk.super.sImapBlocks.toNat := readRun_le _ _ _
    rcases Nat.lt_or_eq_of_le hle with hlt | heq
    · -- the block that ended the first loop
      have hstop : disk.readable (2 + imapRun disk) = false := readRun_stop hlt
      exact absurd (hread 0 (by decide)) (Bool.eq_false_iff.1 hstop)
    · by_cases hlt : i < disk.super.sImapBlocks.toNat
      · exact readRun_eq_iff.1 heq i hlt
      · have hread' := hread (i - imapRun disk) (by omega)
        have hi' : 2 + imapRun disk + (i - imapRun disk) = 2 + i := by omega
        rwa [hi'] at hread'
  · have heq : imapRun disk = disk.super.sImapBlocks.toNat := readRun_eq_iff.2 fun x hx => hread x (by omega)
    rw [heq, Nat.add_assoc]
    exact hread _ (by omega)

theorem admissible_iff (hone : disk.readable 1 = true) (hmagic : disk.super.sMagic = MINIX_SUPER_MAGIC) :
    Admissible disk ↔ Within disk ∧ (Complete disk → 0 < disk.super.sImapBlocks.toNat ∧
      0 < disk.super.sZmapBlocks.toNat ∧
        disk.super.sNzones.toNat - disk.super.sFirstdatazone.toNat < disk.super.sZmapBlocks.toNat * 8192) := by
  rw [within_iff, complete_iff]
  unfold Admissible
  dsimp only
  refine ⟨fun h => ?_, fun h _ _ => ⟨h.1.1, h.1.2, h.2⟩⟩
  obtain ⟨h₁, h₂, h₃⟩ := h hone hmagic
  exact ⟨⟨h₁, h₂⟩, h₃⟩

/-! ## The function -/

/-- After both loops: the maps hold the blocks that could be read. -/
structure Maps (disk : Disk) (j k k' : Nat) (s s' : State) : Prop where
  others : ∀ x, x ≠ j → s'.superBlock x = s.superBlock x
  d : (s'.superBlock j).d = disk.super
  imap : ∀ x < MAP_SLOTS, (s'.superBlock j).map .imap x = if x < k then some (2 + x) else none
  zmap : ∀ x < MAP_SLOTS, (s'.superBlock j).map .zmap x = if x < k' then some (2 + k + x) else none
  count : ∀ x, s'.bCount x = s.bCount x + if 2 ≤ x ∧ x < 2 + k + k' then 1 else 0

/-- The slots of a map that was empty. -/
theorem Filled.slot (h : Filled m j 0 b k s s') (hempty : ∀ x < MAP_SLOTS, (s.superBlock j).map m x = none) {x : Nat}
    (hx : x < MAP_SLOTS) : (s'.superBlock j).map m x = if x < k then some (b + x) else none := by
  split
  · next hlt =>
      have hslot := h.slots x hlt
      rwa [Nat.zero_add] at hslot
  · next hge => exact h.after x (by omega) (hempty x hx)

/-- A super block is given up after both maps have been released. -/
theorem release_spec {k' : Nat} (h : Maps disk j k k' s s') (hk : k ≤ MAP_SLOTS) (hk' : k' ≤ MAP_SLOTS) :
    Ends (do
      releaseMaps .imap j MAP_SLOTS 0
      releaseMaps .zmap j MAP_SLOTS 0
      giveUp j
      return (none : Option Nat)) s' (fun _ => False) fun o s'' => o = none ∧ Clean s s'' := by
  refine (releaseMaps_spec (b := 2) (k := k) (fun x _ hx => h.imap x (by omega)) (fun y hy hy' => ?_) (by omega)).then_
    fun _ s₁ h₁ => ?_
  · rw [h.count, if_pos (by omega)]
    exact Nat.succ_pos _
  refine (releaseMaps_spec (b := 2 + k) (k := k') (fun x _ hx => ?_) (fun y hy hy' => ?_) (by omega)).then_
    fun _ s₂ h₂ => ?_
  · rw [h₁.1]
    exact h.zmap x (by omega)
  · have hy₁ := h₁.2.2 y
    rw [if_neg (by omega), h.count, if_pos (by omega)] at hy₁
    omega
  · refine .bind (.modify (.pure ⟨rfl, funext fun y => ?_, fun x => ?_⟩))
    · have hy₁ := h₁.2.2 y
      have hy₂ := h₂.2.2 y
      rw [h.count] at hy₁
      have hcount : (s₂.setSuper j fun sb => { sb with sDev := 0, sLock := false }).bCount y = s₂.bCount y := rfl
      rw [hcount]
      by_cases hin : 2 ≤ y ∧ y < 2 + k + k'
      · rw [if_pos hin] at hy₁
        by_cases hlt : y < 2 + k
        · rw [if_pos (by omega)] at hy₁
          rw [if_neg (by omega)] at hy₂
          omega
        · rw [if_neg (by omega)] at hy₁
          rw [if_pos (by omega)] at hy₂
          omega
      · rw [if_neg hin, if_neg (by omega)] at hy₁
        rw [if_neg (by omega)] at hy₂
        omega
    · by_cases hx : x = j
      · rw [hx]
        have hself : (s₂.setSuper j fun sb => { sb with sDev := 0, sLock := false }).superBlock j =
            { s₂.superBlock j with sDev := 0, sLock := false } := if_pos rfl
        rw [hself]
        exact .inr ⟨rfl, rfl⟩
      · have hother : (s₂.setSuper j fun sb => { sb with sDev := 0, sLock := false }).superBlock x = s₂.superBlock x :=
          if_neg hx
        rw [hother, h₂.1, h₁.1]
        exact .inl (h.others x hx)

/-- `minix_free_block` finds a map for every zone if there are enough of them. -/
theorem freeBlockMap_iff (sb : Super) (hpos : 0 < k) (hk : k ≤ MAP_SLOTS)
    (hslots : ∀ x < MAP_SLOTS, sb.map .zmap x = if x < k then some (b + x) else none) :
    (∀ block, sb.d.sFirstdatazone.toNat ≤ block → block < sb.d.sNzones.toNat →
      ∃ bh, freeBlockMap sb block = .ok bh) ↔ sb.d.sNzones.toNat - sb.d.sFirstdatazone.toNat < k * 8192 := by
  constructor
  · intro h
    by_contra hge
    obtain ⟨bh, hbh⟩ := h (sb.d.sNzones.toNat - 1) (by omega) (by omega)
    unfold freeBlockMap at hbh
    rw [if_neg (by omega)] at hbh
    have hzone : sb.d.sNzones.toNat - 1 - sb.d.sFirstdatazone.toNat + 1 =
        sb.d.sNzones.toNat - sb.d.sFirstdatazone.toNat := by omega
    rw [hzone, Nat.shiftRight_eq_div_pow] at hbh
    dsimp only at hbh
    split at hbh
    · cases hbh
    · next hlt =>
        rw [hslots _ (by omega), if_neg (by omega)] at hbh
        cases hbh
  · intro h block hlo hhi
    refine ⟨b + (block - sb.d.sFirstdatazone.toNat + 1) / 2 ^ 13, ?_⟩
    unfold freeBlockMap
    rw [if_neg (by omega), Nat.shiftRight_eq_div_pow]
    dsimp only
    rw [if_neg (by omega), hslots _ (by omega), if_pos (by omega)]
    rfl

theorem setFirst_spec {x : Option Nat} (hx : (s.superBlock j).map m 0 = x) :
    (setFirst m j).Ends s (fun _ => x = none) fun _ s' =>
      x ≠ none ∧ s'.superBlock = s.superBlock ∧ s'.bCount = s.bCount := by
  unfold setFirst
  refine .bind (.reads ?_)
  rw [hx]
  cases x with
  | none => exact .halt rfl
  | some b => exact .modify ⟨Option.some_ne_none b, rfl, rfl⟩

/-- The end of `read_super`, where all blocks of the maps have been read. -/
theorem finish_spec {dev : Dev}
    (h : Maps disk j disk.super.sImapBlocks.toNat disk.super.sZmapBlocks.toNat s s')
    (hdev : (s'.superBlock j).sDev = dev) (hz : disk.super.sZmapBlocks.toNat ≤ MAP_SLOTS) :
    Ends (do
      setFirst .imap j
      setFirst .zmap j
      .modify fun s => s.setSuper j fun sb => { sb with sLock := false }
      return some j) s'
      (fun _ => ¬ (0 < disk.super.sImapBlocks.toNat ∧ 0 < disk.super.sZmapBlocks.toNat)) fun o s'' =>
        o = some j ∧ (Usable dev j s s'' ↔ 0 < disk.super.sImapBlocks.toNat ∧ 0 < disk.super.sZmapBlocks.toNat ∧
          disk.super.sNzones.toNat - disk.super.sFirstdatazone.toNat < disk.super.sZmapBlocks.toNat * 8192) := by
  have hnone : ∀ {n b : Nat}, (if 0 < n then some b else none : Option Nat) = none → ¬ 0 < n :=
    fun h hn => by rw [if_pos hn] at h; cases h
  have hsome : ∀ {n b : Nat}, (if 0 < n then some b else none : Option Nat) ≠ none → 0 < n :=
    fun h => by_contra fun hn => h (if_neg hn)
  refine ((setFirst_spec (h.imap 0 (by decide))).weaken (fun e he hand => hnone he hand.1) fun _ _ h => h).then_
    fun _ s₁ ⟨himap, hsb₁, hcount₁⟩ => ?_
  have hzmap₁ := h.zmap 0 (by decide)
  rw [← hsb₁] at hzmap₁
  refine ((setFirst_spec hzmap₁).weaken (fun e he hand => hnone he hand.2) fun _ _ h => h).then_
    fun _ s₂ ⟨hzmap, hsb₂, hcount₂⟩ => ?_
  refine .bind (.modify (.pure ⟨rfl, ?_⟩))
  have hself : (s₂.setSuper j fun sb => { sb with sLock := false }).superBlock j =
      { s'.superBlock j with sLock := false } := by
    rw [← hsb₁, ← hsb₂]
    exact if_pos rfl
  have hcount : ∀ x, (s₂.setSuper j fun sb => { sb with sLock := false }).bCount x = s'.bCount x := by
    intro x
    rw [← hcount₁, ← hcount₂]
    rfl
  have hfree := freeBlockMap_iff { s'.superBlock j with sLock := false } (hsome hzmap) hz h.zmap
  constructor
  · intro husable
    have hall := husable.free
    rw [hself] at hall
    have hlt := hfree.1 hall
    dsimp only at hlt
    rw [h.d] at hlt
    exact ⟨hsome himap, hsome hzmap, hlt⟩
  · rintro ⟨-, -, hlt⟩
    refine ⟨by rw [hself]; exact hdev, by rw [hself], fun m i b hb hslot => ?_, ?_, fun ffz i b hb => ?_⟩
    · rw [hself] at hb
      rw [hcount, h.count]
      cases m with
      | imap =>
          have hb : (s'.superBlock j).map .imap i = some b := hb
          rw [h.imap i hslot] at hb
          split at hb
          · rw [← Option.some.inj hb, if_pos (by omega)]
            exact Nat.lt_succ_self _
          · cases hb
      | zmap =>
          have hb : (s'.superBlock j).map .zmap i = some b := hb
          rw [h.zmap i hslot] at hb
          split at hb
          · rw [← Option.some.inj hb, if_pos (by omega)]
            exact Nat.lt_succ_self _
          · cases hb
    · rw [hself]
      refine hfree.2 ?_
      dsimp only
      rw [h.d]
      exact hlt
    · obtain ⟨x, hx, hfound⟩ := List.exists_of_findSome?_eq_some hb
      obtain ⟨bh, hbh, hif⟩ := Option.bind_eq_some_iff.1 hfound
      split at hif
      · obtain ⟨rfl, rfl⟩ := Prod.mk.inj (Option.some.inj hif)
        exact ⟨List.mem_range.1 hx, hbh⟩
      · cases hif

/-- A super block is given up, of which nothing has been read. -/
theorem giveUp_clean (hcount : s'.bCount = s.bCount) (hothers : ∀ x, x ≠ j → s'.superBlock x = s.superBlock x) :
    Clean s (s'.setSuper j fun sb => { sb with sDev := 0, sLock := false }) := by
  refine ⟨hcount, fun x => ?_⟩
  by_cases hx : x = j
  · have hself : (s'.setSuper j fun sb => { sb with sDev := 0, sLock := false }).superBlock x =
        { s'.superBlock x with sDev := 0, sLock := false } := if_pos hx
    rw [hself]
    exact .inr ⟨rfl, rfl⟩
  · exact .inl ((if_neg hx).trans (hothers x hx))

/-- The super block of the disk has been taken, and its maps are empty. -/
structure Start (disk : Disk) (dev : Dev) (j : Nat) (s s' : State) : Prop where
  others : ∀ x, x ≠ j → s'.superBlock x = s.superBlock x
  d : (s'.superBlock j).d = disk.super
  dev : (s'.superBlock j).sDev = dev
  empty : ∀ m, ∀ x < MAP_SLOTS, (s'.superBlock j).map m x = none
  count : s'.bCount = s.bCount

/-- Both maps have been read. -/
theorem Start.maps {dev : Dev} {s₀ s₁ s₂ : State} {k' : Nat} (h : Start disk dev j s s₀)
    (himap : Filled .imap j 0 2 k s₀ s₁) (hzmap : Filled .zmap j 0 (2 + k) k' s₁ s₂) :
    Maps disk j k k' s s₂ ∧ (s₂.superBlock j).sDev = dev := by
  obtain ⟨f, hf⟩ := himap.fields
  obtain ⟨g, hg⟩ := hzmap.fields
  have hempty : ∀ x < MAP_SLOTS, (s₁.superBlock j).map .zmap x = none := fun x hx => by
    rw [himap.otherMap .zmap (by decide)]
    exact h.empty .zmap x hx
  refine ⟨⟨fun x hx => ?_, ?_, fun x hx => ?_, fun x hx => hzmap.slot hempty hx, fun x => ?_⟩, ?_⟩
  · rw [hzmap.others x hx, himap.others x hx, h.others x hx]
  · rw [hg, hf]
    exact h.d
  · rw [hzmap.otherMap .imap (by decide)]
    exact himap.slot (h.empty .imap) hx
  · rw [hzmap.count, himap.count, h.count]
    split <;> split <;> split <;> omega
  · rw [hg, hf]
    exact h.dev

/-- `read_super` from the loops on. -/
theorem loops_spec {dev : Dev} {s₀ : State} (h : Start disk dev j s s₀) (hone : disk.readable 1 = true)
    (hmagic : disk.super.sMagic = MINIX_SUPER_MAGIC) :
    Ends (do
      let block ← readMaps disk .imap j disk.super.sImapBlocks.toNat 0 2
      let block ← readMaps disk .zmap j disk.super.sZmapBlocks.toNat 0 block
      if block ≠ 2 + disk.super.sImapBlocks.toNat + disk.super.sZmapBlocks.toNat then
        releaseMaps .imap j MAP_SLOTS 0
        releaseMaps .zmap j MAP_SLOTS 0
        giveUp j
        return none
      else
        setFirst .imap j
        setFirst .zmap j
        .modify fun s => s.setSuper j fun sb => { sb with sLock := false }
        return some j) s₀ (fun _ => ¬ Admissible disk) fun o s' =>
      (o = none → Clean s s' ∧ Admissible disk) ∧
        ∀ j', o = some j' → j' = j ∧ (Usable dev j s s' ↔ Admissible disk) := by
  have hadm := admissible_iff hone hmagic
  refine ((readMaps_spec (Nat.zero_le _)).weaken (fun e he hgood => (hadm.1 hgood).1.1 he.2) fun _ _ h => h).then_
    fun block s₁ ⟨hover, hblock, himap⟩ => ?_
  rw [hblock]
  refine ((readMaps_spec (Nat.zero_le _)).weaken (fun e he hgood => (hadm.1 hgood).1.2 he.2) fun _ _ h => h).then_
    fun block s₂ ⟨hover', hblock', hzmap⟩ => ?_
  obtain ⟨hmaps, hdev⟩ := h.maps himap hzmap
  have hle : imapRun disk ≤ disk.super.sImapBlocks.toNat := readRun_le _ _ _
  have hle' : zmapRun disk ≤ disk.super.sZmapBlocks.toNat := readRun_le _ _ _
  have hslots : imapRun disk ≤ MAP_SLOTS := readRun_slots hover
  have hslots' : zmapRun disk ≤ MAP_SLOTS := readRun_slots hover'
  have hwithin : Within disk := ⟨hover, hover'⟩
  have hblock'' : block = 2 + imapRun disk + zmapRun disk := hblock'
  split
  · next hne =>
      have hincomplete : ¬ Complete disk := fun hc => hne (by rw [hblock'', hc.1, hc.2])
      refine (release_spec hmaps hslots hslots').weaken (fun _ hfalse => hfalse.elim) fun o s' ⟨ho, hclean⟩ => ?_
      refine ⟨fun _ => ⟨hclean, hadm.2 ⟨hwithin, fun hc => absurd hc hincomplete⟩⟩, fun j' hj' => ?_⟩
      rw [ho] at hj'
      cases hj'
  · next heq =>
      have hcomplete : Complete disk := by
        have heq := not_not.1 heq
        exact ⟨by omega, by omega⟩
      have hmaps' : Maps disk j disk.super.sImapBlocks.toNat disk.super.sZmapBlocks.toNat s s₂ := by
        have h' : Maps disk j (imapRun disk) (zmapRun disk) s s₂ := hmaps
        rwa [hcomplete.1, hcomplete.2] at h'
      refine (finish_spec hmaps' hdev (hcomplete.2 ▸ hslots')).weaken (fun e he hgood => ?_)
        fun o s' ⟨ho, husable⟩ => ?_
      · have hpos := (hadm.1 hgood).2 hcomplete
        exact he ⟨hpos.1, hpos.2.1⟩
      · refine ⟨fun hnone => absurd (ho.symm.trans hnone) (Option.some_ne_none j), fun j' hj' => ?_⟩
        rw [ho] at hj'
        refine ⟨(Option.some.inj hj').symm, husable.trans ?_⟩
        exact ⟨fun hpos => hadm.2 ⟨hwithin, fun _ => hpos⟩, fun hgood => (hadm.1 hgood).2 hcomplete⟩

theorem fillSuper_spec (disk : Disk) (dev : Dev) (j : Nat) (s : State) :
    (fillSuper disk dev j).Ends s (fun _ => ¬ Admissible disk) fun o s' =>
      (o = none → Clean s s' ∧ Admissible disk) ∧
        ∀ j', o = some j' → j' = j ∧ (Usable dev j s s' ↔ Admissible disk) := by
  unfold fillSuper bread
  refine .bind (.modify ?_)
  cases hone : disk.readable 1 with
  | false =>
      refine .bind (.pure (.bind (.modify (.pure ⟨fun _ => ⟨giveUp_clean rfl fun x hx => if_neg hx, ?_⟩, nofun⟩))))
      exact fun htrue => absurd htrue (Bool.eq_false_iff.1 hone)
  | true =>
      refine .bind (.bind (.modify (.pure (.bind (.modify ?_)))))
      unfold brelse
      refine .bind (.bind (.reads ?_))
      have hcount : ∀ s' : State, s'.bCount = (s.setCount 1 (· + 1)).bCount → s'.bCount 1 ≠ 0 ∧
          (s'.setCount 1 (· - 1)).bCount = s.bCount := by
        intro s' hs'
        have hone' : ∀ x, s'.bCount x = if x = 1 then s.bCount x + 1 else s.bCount x := fun x => by rw [hs']; rfl
        refine ⟨by rw [hone', if_pos rfl]; exact Nat.succ_ne_zero _, funext fun x => ?_⟩
        have hset : (s'.setCount 1 (· - 1)).bCount x = if x = 1 then s'.bCount x - 1 else s'.bCount x := rfl
        rw [hset, hone']
        split <;> rfl
      split
      · next hzero => exact absurd hzero (hcount _ rfl).1
      · refine .modify ?_
        split
        · next hmagic =>
            refine .bind (.modify (.pure ⟨fun _ => ⟨giveUp_clean (hcount _ rfl).2 fun x hx => ?_,
              fun _ h => absurd h hmagic⟩, nofun⟩))
            simp only [State.setSuper, State.setCount, if_neg hx]
        · next hmagic =>
            refine .bind (.modify ?_)
            refine loops_spec ⟨fun x hx => ?_, ?_, ?_, fun m x hx => ?_, (hcount _ rfl).2⟩ hone (not_not.1 hmagic)
            · simp only [State.setSuper, State.setCount, if_neg hx]
            · simp only [State.setSuper, State.setCount, if_pos]
            · simp only [State.setSuper, State.setCount, if_pos]
            · simp only [State.setSuper, State.setCount, if_pos, hx]

end

/-- **For which disks `read_super` is safe**, if it reads one. -/
theorem readSuper_safe_iff (disk : Disk) (dev : Dev) (s : State) :
    Safe disk dev s ↔ (dev ≠ 0 → getSuper s dev = none → freeSuper s ≠ none → Admissible disk) := by
  unfold Safe readSuper
  split
  · next hdev =>
      refine ⟨fun _ hne => absurd hdev hne, fun _ => .pure ⟨fun _ => ⟨rfl, fun _ => .inl rfl⟩, nofun⟩⟩
  next hdev =>
  cases hget : getSuper s dev with
  | some j =>
      refine ⟨fun _ _ hnone => absurd hnone (Option.some_ne_none j), fun _ => .bind (.reads ?_)⟩
      rw [hget]
      exact .pure ⟨nofun, fun _ _ hnone => absurd hnone (Option.some_ne_none j)⟩
  | none =>
      cases hfree : freeSuper s with
      | none =>
          refine ⟨fun _ _ _ hne => absurd rfl hne, fun _ => .bind (.reads ?_)⟩
          rw [hget]
          refine .bind (.reads ?_)
          rw [hfree]
          exact .pure ⟨fun _ => ⟨rfl, fun _ => .inl rfl⟩, nofun⟩
      | some j =>
          have hrun : (do
              match ← Prog.reads fun s => getSuper s dev with
              | some j => return some j
              | none =>
                  match ← Prog.reads freeSuper with
                  | none => return none
                  | some j => fillSuper disk dev j : Call (Option Nat)) s = fillSuper disk dev j s := by
            rw [reads_bind, hget]
            dsimp only
            rw [reads_bind, hfree]
          have hspec := fillSuper_spec disk dev j s
          unfold Ends at hspec ⊢
          rw [hrun]
          cases hfill : fillSuper disk dev j s with
          | error e =>
              rw [hfill] at hspec
              exact ⟨fun hfalse => hfalse.elim, fun h => hspec (h hdev rfl (Option.some_ne_none j))⟩
          | ok r =>
              obtain ⟨o, s'⟩ := r
              rw [hfill] at hspec
              obtain ⟨hnone, hsome⟩ := hspec
              cases o with
              | none => exact ⟨fun _ _ _ _ => (hnone rfl).2, fun _ => ⟨fun _ => (hnone rfl).1, nofun⟩⟩
              | some j' =>
                  obtain ⟨rfl, husable⟩ := hsome j' rfl
                  refine ⟨fun h _ _ _ => husable.1 (h.2 j' rfl rfl), fun h => ⟨nofun, fun x hx _ => ?_⟩⟩
                  rw [← Option.some.inj hx]
                  exact husable.2 (h hdev rfl (Option.some_ne_none _))

/-- **A disk that says it has nine blocks of inode maps** has the ninth written behind the array. -/
theorem nine_maps_overflow : ¬ ∀ (disk : Disk) (dev : Dev) (s : State), Safe disk dev s := by
  intro h
  let disk : Disk := ⟨fun _ => true, ⟨64, 100, 9, 1, 10, 0, 0, MINIX_SUPER_MAGIC⟩⟩
  let s : State := ⟨fun _ => ⟨⟨0, 0, 0, 0, 0, 0, 0, 0⟩, fun _ _ => none, 0, false⟩, fun _ => 0, fun _ => 0⟩
  have hsafe := h disk 0x301 s
  have herror : readSuper disk 0x301 s = .error .outOfBounds := by rfl
  exact hsafe.error_of herror

end ReadSuper
end Fs
end Linux095
