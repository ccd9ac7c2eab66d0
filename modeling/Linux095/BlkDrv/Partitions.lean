import Linux095.BlkDrv.Hd
import Linux095.Bytes.Record

/-!
# `BlkDrv.Partitions` — the partition tables (`hd.c`, `hdreg.h`)

`check_partition` reads the first block of a device, copies the four entries of the table in it to `hd`, and calls
itself for an extended partition. It tests for one when its pointer has already gone past the last entry, and calls
itself with a minor number for a device.

* `checkPartition`, `setupDrives` — the source's functions;
* `Scanned` — **what a scan is for**: the entries are copied, to the drive's own places, and those that are extended
  partitions are followed;
* `partition_scan_iff` — every scan ends, and it does so as it should just when no entry is an extended partition, nor
  what lies behind the entries looks like one;
* `setupDrives_copies` — after `sys_setup` the entries of every drive are there.
-/

namespace Linux095
namespace BlkDrv
namespace Partitions
open Bytes

def EXTENDED_PARTITION : Nat := 5

/-- Where the table begins in its block. -/
def TABLE : Nat := 0x1BE

/-- `sizeof(struct partition)`. -/
def ENTRY_SIZE : Nat := 16

/-! ## The scan -/

/-- What `check_partition` uses of a `struct partition`. -/
structure Partition where
  sysInd : Nat
  startSect : Nat
  nrSects : Nat
  deriving DecidableEq

/-- `*p`. -/
def partitionAt (data : Memory) (p : Nat) : Partition where
  sysInd := get 1 (p + 4) data
  startSect := get 4 (p + 8) data
  nrSects := get 4 (p + 12) data

/-- The entry is a non-empty extended partition. -/
def Partition.Extended (q : Partition) : Prop := q.nrSects ≠ 0 ∧ q.sysInd = EXTENDED_PARTITION

instance (q : Partition) : Decidable q.Extended := inferInstanceAs (Decidable (_ ∧ _))

/-- The two bytes at the end of the first sector. -/
def Valid (data : Memory) : Prop := get 2 510 data = 0xAA55

instance (data : Memory) : Decidable (Valid data) := inferInstanceAs (Decidable (_ = _))

/-- The first block of each device, unless it cannot be read. -/
structure World where
  block : Nat → Option Memory

/-- The block devices that have a driver when `sys_setup` runs: the ram disk, the floppies and the hard disks. -/
def hasDriver (major : Nat) : Bool := major == 1 || major == 2 || major == 3

/-- `bread(dev,0)`. Nothing is read from a device without a driver. -/
def World.bread (w : World) (dev : Nat) : Option Memory := if hasDriver (dev / 256) then w.block dev else none

/-- `hd` and `current_minor`. `followed` is not a variable of the source: for which device the function has called
itself, and while it was at which. -/
structure Scan where
  hd : Nat → Hd.Part
  currentMinor : Nat
  followed : List (Nat × Nat)

/-- `hd[m]`, as it is set for an entry. -/
def Partition.part (q : Partition) : Hd.Part := ⟨BitVec.ofNat 32 q.startSect, BitVec.ofNat 32 q.nrSects⟩

/-- The loop of `check_partition`: `i` and `p` at its end, and `hd`. -/
def copyLoop (data : Memory) (minor : Nat) : Nat → Nat → Nat → (Nat → Hd.Part) → Nat × Nat × (Nat → Hd.Part)
  | 0, i, p, hd => (i, p, hd)
  | n + 1, i, p, hd => copyLoop data minor n (i + 1) (p + ENTRY_SIZE)
      fun m => if m = i + minor then (partitionAt data p).part else hd m

/-- `check_partition`. Each call within it takes one of `fuel`. -/
def checkPartition (w : World) : Nat → Nat → Scan → Option Scan
  | 0, _, _ => none
  | fuel + 1, dev, s =>
      match w.bread dev with
      | none => some s
      | some data =>
          let minor := s.currentMinor
          if Valid data then
            let (i, p, hd) := copyLoop data minor 4 0 TABLE s.hd
            let s := { s with hd := hd }
            -- `p` points behind the last entry.
            if (partitionAt data p).nrSects ≠ 0 ∧ (partitionAt data p).sysInd = EXTENDED_PARTITION then
              checkPartition w fuel (i + minor)
                { s with
                  currentMinor := s.currentMinor + 4
                  followed := s.followed ++ [(dev, i + minor)] }
            else some s
          else some s

/-- The device of a whole drive. -/
def drive (n : Nat) : Nat := 0x300 + 64 * n

/-- What `sys_setup` does for one drive. -/
def scanDrive (w : World) (fuel n : Nat) (hd : Nat → Hd.Part) : Option Scan :=
  checkPartition w fuel (drive n) ⟨hd, 1 + 64 * n, []⟩

/-- The loop over the drives in `sys_setup`, from drive `n` on. -/
def setupDrives (w : World) (fuel : Nat) : Nat → Nat → (Nat → Hd.Part) → Option (Nat → Hd.Part)
  | 0, _, hd => some hd
  | k + 1, n, hd =>
      match scanDrive w fuel n hd with
      | none => none
      | some s => setupDrives w fuel k (n + 1) s.hd

/-! ## What a scan is for -/

/-- Entry `i` of a table; number 4 is what lies behind the table. -/
def entry (data : Memory) (i : Nat) : Partition := partitionAt data (TABLE + ENTRY_SIZE * i)

/-- The table of a drive, if there is a valid one. -/
def World.Table (w : World) (n : Nat) (data : Memory) : Prop := w.bread (drive n) = some data ∧ Valid data

/-- **What a scan of drive `n` is for.** -/
structure Scanned (w : World) (n : Nat) (hd : Nat → Hd.Part) (s : Scan) : Prop where
  /-- Only entries of the drive are written. -/
  own : ∀ m, m / 64 ≠ n → s.hd m = hd m
  copied : ∀ data, w.Table n data → ∀ i < 4, s.hd (1 + 64 * n + i) = (entry data i).part
  /-- From the table an entry is followed just when it is a non-empty extended partition, and nothing else is. -/
  followed : ∀ t, (drive n, t) ∈ s.followed ↔
    ∃ data, w.Table n data ∧ ∃ i < 4, (entry data i).Extended ∧ t = drive n + 1 + i

/-- **The condition**: neither an entry of the table nor what lies behind it is a non-empty extended partition. -/
def Plain (w : World) (n : Nat) : Prop := ∀ data, w.Table n data → ∀ i ≤ 4, ¬ (entry data i).Extended

/-! ## The copies -/

section

variable {w : World} {data : Memory} {minor n : Nat} {hd : Nat → Hd.Part}

theorem copyLoop_end (data : Memory) (minor k i p : Nat) (hd : Nat → Hd.Part) :
    (copyLoop data minor k i p hd).1 = i + k ∧ (copyLoop data minor k i p hd).2.1 = p + ENTRY_SIZE * k := by
  induction k generalizing i p hd with
  | zero => exact ⟨rfl, rfl⟩
  | succ k ih =>
    obtain ⟨hi, hp⟩ := ih (i + 1) (p + ENTRY_SIZE) fun m => if m = i + minor then (partitionAt data p).part else hd m
    rw [copyLoop, hi, hp]
    exact ⟨by omega, by rw [Nat.mul_succ]; omega⟩

/-- The loop leaves alone what is not among its places. -/
theorem copyLoop_other {m : Nat} (k i p : Nat) (hd : Nat → Hd.Part) (hm : m < i + minor ∨ i + minor + k ≤ m) :
    (copyLoop data minor k i p hd).2.2 m = hd m := by
  induction k generalizing i p hd with
  | zero => rfl
  | succ k ih =>
    rw [copyLoop, ih _ _ _ (by omega), if_neg (by omega)]

theorem copyLoop_copies {j : Nat} (k i p : Nat) (hd : Nat → Hd.Part) (hj : j < k) :
    (copyLoop data minor k i p hd).2.2 (minor + i + j) = (partitionAt data (p + ENTRY_SIZE * j)).part := by
  induction k generalizing i j p hd with
  | zero => omega
  | succ k ih =>
    rw [copyLoop]
    cases j with
    | zero =>
      rw [copyLoop_other _ _ _ _ (by omega), if_pos (by omega)]
      rfl
    | succ j =>
      have hplace : minor + i + (j + 1) = minor + (i + 1) + j := by omega
      have hentry : p + ENTRY_SIZE * (j + 1) = p + ENTRY_SIZE + ENTRY_SIZE * j := by rw [Nat.mul_succ]; omega
      rw [hplace, hentry]
      exact ih _ _ _ (by omega)

/-! ## The scan -/

/-- What a valid table comes to, before anything is followed. -/
def Scan.copied (s : Scan) (data : Memory) : Scan :=
  { s with hd := (copyLoop data s.currentMinor 4 0 TABLE s.hd).2.2 }

/-- And then. -/
def Scan.follow (s : Scan) (dev : Nat) : Scan :=
  { s with
    currentMinor := s.currentMinor + 4
    followed := s.followed ++ [(dev, 4 + s.currentMinor)] }

/-- **One call of `check_partition`.** -/
theorem checkPartition_succ (w : World) (fuel dev : Nat) (s : Scan) : checkPartition w (fuel + 1) dev s =
    match w.bread dev with
    | none => some s
    | some data =>
        if Valid data then
          if (entry data 4).Extended then
            checkPartition w fuel (4 + s.currentMinor) ((s.copied data).follow dev)
          else some (s.copied data)
        else some s := by
  rw [checkPartition]
  cases w.bread dev with
  | none => rfl
  | some data =>
    have hend := copyLoop_end data s.currentMinor 4 0 TABLE s.hd
    dsimp only
    rw [hend.1, hend.2]
    rfl

/-- A minor number is not a device that can be read. -/
theorem bread_minor (w : World) {m : Nat} (hm : m < 256) : w.bread m = none := by
  unfold World.bread
  rw [Nat.div_eq_of_lt hm]
  rfl

/-- **Every scan of a drive ends**, after one call within it at most. -/
theorem scanDrive_eq (w : World) (hd : Nat → Hd.Part) (hn : n < Hd.MAX_HD) {fuel : Nat} (hfuel : 2 ≤ fuel) :
    scanDrive w fuel n hd = some
      (match w.bread (drive n) with
      | none => ⟨hd, 1 + 64 * n, []⟩
      | some data =>
          if Valid data then
            let s := (⟨hd, 1 + 64 * n, []⟩ : Scan).copied data
            if (entry data 4).Extended then s.follow (drive n) else s
          else ⟨hd, 1 + 64 * n, []⟩) := by
  obtain ⟨fuel, rfl⟩ := Nat.exists_eq_add_of_le' hfuel
  unfold scanDrive
  rw [checkPartition_succ]
  cases w.bread (drive n) with
  | none => rfl
  | some data =>
    dsimp only
    by_cases hvalid : Valid data
    · rw [if_pos hvalid, if_pos hvalid]
      by_cases hext : (entry data 4).Extended
      · unfold Hd.MAX_HD at hn
        rw [if_pos hext, if_pos hext, checkPartition_succ, bread_minor w (by omega)]
      · rw [if_neg hext, if_neg hext]
    · rw [if_neg hvalid, if_neg hvalid]

/-- The places of a drive's entries are its own. -/
theorem place_own {i : Nat} (hi : i < 4) : (1 + 64 * n + i) / 64 = n := by omega

theorem copied_own (data : Memory) {m : Nat} (hm : m / 64 ≠ n) :
    ((⟨hd, 1 + 64 * n, []⟩ : Scan).copied data).hd m = hd m := by
  have hout : m < 0 + (1 + 64 * n) ∨ 0 + (1 + 64 * n) + 4 ≤ m := by omega
  exact copyLoop_other 4 0 TABLE hd hout

theorem copied_entry (data : Memory) {i : Nat} (hi : i < 4) :
    ((⟨hd, 1 + 64 * n, []⟩ : Scan).copied data).hd (1 + 64 * n + i) = (entry data i).part :=
  copyLoop_copies 4 0 TABLE hd hi

/-- **When a scan does what it is for.** It always ends. -/
theorem partition_scan_iff (w : World) (hd : Nat → Hd.Part) (hn : n < Hd.MAX_HD) {fuel : Nat} (hfuel : 2 ≤ fuel) :
    ∃ s, scanDrive w fuel n hd = some s ∧ (Scanned w n hd s ↔ Plain w n) := by
  refine ⟨_, scanDrive_eq w hd hn hfuel, ?_⟩
  cases hb : w.bread (drive n) with
  | none =>
    have hnone : ∀ data, ¬ w.Table n data := fun data h => nomatch h.1.symm.trans hb
    refine ⟨fun _ data h => absurd h (hnone data), fun _ => ⟨fun _ _ => rfl, fun data h => absurd h (hnone data), ?_⟩⟩
    exact fun t => ⟨nofun, fun ⟨data, h, _⟩ => absurd h (hnone data)⟩
  | some data =>
    have honly : ∀ data', w.Table n data' → data' = data := fun data' h => Option.some.inj (h.1.symm.trans hb)
    dsimp only
    by_cases hvalid : Valid data
    · have htable : w.Table n data := ⟨hb, hvalid⟩
      rw [if_pos hvalid]
      by_cases hext : (entry data 4).Extended
      · rw [if_pos hext]
        constructor
        · -- What is followed is no entry of the table.
          rintro ⟨-, -, hfollowed⟩
          obtain ⟨-, -, i, hi, -, ht⟩ := (hfollowed (4 + (1 + 64 * n))).mp (List.mem_singleton_self _)
          unfold drive at ht
          omega
        · exact fun hplain => absurd hext (hplain data htable 4 (Nat.le_refl 4))
      · rw [if_neg hext]
        constructor
        · rintro ⟨-, -, hfollowed⟩ data' htable' i hi hext'
          obtain rfl := honly data' htable'
          by_cases hi4 : i = 4
          · exact hext (hi4 ▸ hext')
          · have hmem := (hfollowed _).mpr ⟨data', htable', i, by omega, hext', rfl⟩
            cases hmem
        · refine fun hplain => ⟨fun m hm => copied_own data hm, fun data' htable' i hi => ?_, fun t => ⟨nofun, ?_⟩⟩
          · obtain rfl := honly data' htable'
            exact copied_entry data' hi
          · rintro ⟨data', htable', i, hi, hext', -⟩
            exact absurd hext' (hplain data' htable' i (Nat.le_of_lt hi))
    · have hnone : ∀ data', ¬ w.Table n data' := fun data' h => hvalid (honly data' h ▸ h.2)
      rw [if_neg hvalid]
      refine ⟨fun _ data' h => absurd h (hnone data'), fun _ =>
        ⟨fun _ _ => rfl, fun data' h => absurd h (hnone data'), ?_⟩⟩
      exact fun t => ⟨nofun, fun ⟨data', h, _⟩ => absurd h (hnone data')⟩

/-- The first block of a drive, with these bytes at the end of its first sector, in the four entries and behind them. -/
def block (sysInd : Nat → Nat) : Memory := fun a =>
  if a = 510 then 0x55
  else if a = 511 then 0xAA
  else if TABLE ≤ a ∧ (a - TABLE) % ENTRY_SIZE = 4 then BitVec.ofNat 8 (sysInd ((a - TABLE) / ENTRY_SIZE))
  else 1

/-- A drive with ordinary partitions. -/
def plainDisk : World := ⟨fun _ => some (block fun _ => 1)⟩

theorem partition_scan_plain : ∃ s, scanDrive plainDisk 2 0 (fun _ => ⟨0, 0⟩) = some s ∧
    (Scanned plainDisk 0 (fun _ => ⟨0, 0⟩) s ↔ Plain plainDisk 0) := partition_scan_iff _ _ (by decide) (Nat.le_refl 2)

/-- A drive whose second partition is an extended one. -/
def extendedDisk : World := ⟨fun _ => some (block fun i => if i = 1 then 5 else 1)⟩

/-- **An extended partition is not followed.** -/
theorem extended_not_followed : ∃ s, scanDrive extendedDisk 2 0 (fun _ => ⟨0, 0⟩) = some s ∧
    ¬ Scanned extendedDisk 0 (fun _ => ⟨0, 0⟩) s := by
  have htable : extendedDisk.Table 0 (block fun i => if i = 1 then 5 else 1) := ⟨rfl, by decide⟩
  have hext : (entry (block fun i => if i = 1 then 5 else 1) 1).Extended := by decide
  refine ⟨_, scanDrive_eq extendedDisk _ (by decide) (Nat.le_refl 2), fun h => ?_⟩
  have hmem := (h.followed _).mpr ⟨_, htable, 1, by decide, hext, rfl⟩
  have hnone : ¬ (entry (block fun i => if i = 1 then 5 else 1) 4).Extended := by decide
  rw [show extendedDisk.bread (drive 0) = some (block fun i => if i = 1 then 5 else 1) from rfl] at hmem
  dsimp only at hmem
  rw [if_pos htable.2, if_neg hnone] at hmem
  cases hmem

/-! ## All drives -/

/-- A scan writes to its drive only, and copies a valid table there. -/
theorem scanDrive_copies (w : World) (hd : Nat → Hd.Part) (hn : n < Hd.MAX_HD) {fuel : Nat} (hfuel : 2 ≤ fuel) :
    ∃ s, scanDrive w fuel n hd = some s ∧ (∀ m, m / 64 ≠ n → s.hd m = hd m) ∧
      ∀ data, w.Table n data → ∀ i < 4, s.hd (1 + 64 * n + i) = (entry data i).part := by
  refine ⟨_, scanDrive_eq w hd hn hfuel, ?_⟩
  cases hb : w.bread (drive n) with
  | none => exact ⟨fun _ _ => rfl, fun data h => nomatch h.1.symm.trans hb⟩
  | some data =>
    dsimp only
    by_cases hvalid : Valid data
    · have hsame : (if (entry data 4).Extended then
          ((⟨hd, 1 + 64 * n, []⟩ : Scan).copied data).follow (drive n)
          else (⟨hd, 1 + 64 * n, []⟩ : Scan).copied data).hd = ((⟨hd, 1 + 64 * n, []⟩ : Scan).copied data).hd := by
        split <;> rfl
      rw [if_pos hvalid, hsame]
      refine ⟨fun m hm => copied_own data hm, fun data' h i hi => ?_⟩
      obtain rfl : data' = data := Option.some.inj (h.1.symm.trans hb)
      exact copied_entry data' hi
    · rw [if_neg hvalid]
      exact ⟨fun _ _ => rfl, fun data' h => absurd (Option.some.inj (h.1.symm.trans hb) ▸ h.2) hvalid⟩

/-- **After `sys_setup` the entries of every drive are there**, and nothing else has been written. -/
theorem setupDrives_copies (w : World) {fuel : Nat} (hfuel : 2 ≤ fuel) (k n : Nat) (hn : n + k ≤ Hd.MAX_HD)
    (hd : Nat → Hd.Part) : ∃ hd', setupDrives w fuel k n hd = some hd' ∧
      (∀ m, m / 64 < n ∨ n + k ≤ m / 64 → hd' m = hd m) ∧
      ∀ d, n ≤ d → d < n + k → ∀ data, w.Table d data → ∀ i < 4, hd' (1 + 64 * d + i) = (entry data i).part := by
  induction k generalizing n hd with
  | zero => exact ⟨hd, rfl, fun _ _ => rfl, fun d hle hlt => by omega⟩
  | succ k ih =>
    obtain ⟨s, hs, hown, hcopied⟩ := scanDrive_copies w hd (show n < Hd.MAX_HD by omega) hfuel
    obtain ⟨hd', hrun, hother, hdrives⟩ := ih (n + 1) (by omega) s.hd
    refine ⟨hd', ?_, fun m hm => ?_, fun d hle hlt data htable i hi => ?_⟩
    · rw [setupDrives, hs]
      exact hrun
    · rw [hother m (by omega), hown m (by omega)]
    · by_cases hd : d = n
      · -- The drives behind it are scanned after it.
        subst hd
        rw [hother _ (.inl (by rw [place_own hi]; omega))]
        exact hcopied data htable i hi
      · exact hdrives d (by omega) (by omega) data htable i hi

theorem setupDrives_copies_plain : ∃ hd', setupDrives plainDisk 2 2 0 (fun _ => ⟨0, 0⟩) = some hd' :=
  (setupDrives_copies plainDisk (Nat.le_refl 2) 2 0 (by decide) _).imp fun _ h => h.1

end

end Partitions
end BlkDrv
end Linux095
