import Linux095.Fs.Minix.DirEntry
import Linux095.Fs.Minix.Bmap

/-!
# `Fs.Minix.DirScan` — the buffers of the directory scans (`fs/minix/namei.c`)

Three loops go through the entries of a directory, with a pointer to a buffer and one into it. At the end of a block the
buffer is released; the next block may be a hole, or not readable.

* `minixFindEntry`, `minixAddEntry`, `emptyDir` — the source's functions, on the references that a process has to
  buffers: a buffer that it has none to, or that is null, is not to be used;
* `Clean` — such a scan ends, with no reference but to the buffer that it returns;
* `find_clean_iff`, `add_clean_iff`, `empty_clean_iff` — **when it does**, for every directory.
-/

namespace Linux095
namespace Fs
namespace Minix
namespace DirScan

open DirEntry (Byte Slot minixMatch MINIX_NAME_LEN)
open Zones (maxBlock)

/-! ## Buffers -/

/-- What goes wrong. -/
inductive Fault where
  /-- `bh->b_data` of a null pointer. -/
  | null
  /-- The buffer has been released. -/
  | released
  /-- "_bmap: block>big". -/
  | panic
  deriving DecidableEq

/-- The references that the process has to the buffer of each block. -/
abbrev Held := Nat → Nat

/-- A directory. Where a block lies, and whether it can be read, is whatever there is on the disk. -/
structure Dir where
  iSize : BitVec 32
  iIno : BitVec 16
  /-- `i_data[0]`. -/
  iData0 : Nat
  bmap : Nat → Nat
  /-- `minix_create_block`. -/
  create : Nat → Nat
  readable : Nat → Bool
  /-- The entries in a block. -/
  slot : Nat → Nat → Slot

/-- `bread`. -/
def bread (d : Dir) (block : Nat) (held : Held) : Option Held :=
  if d.readable block then some (Function.update held block (held block + 1)) else none

/-- `brelse`. -/
def brelse (bh : Option Nat) (held : Held) : Except Fault Held :=
  match bh with
  | none => .ok held
  | some b => if held b = 0 then .error .released else .ok (Function.update held b (held b - 1))

/-- `bh->b_data`. -/
def look (bh : Option Nat) (held : Held) : Except Fault Nat :=
  match bh with
  | none => .error .null
  | some b => if held b = 0 then .error .released else .ok b

/-! ## `minix_find_entry` -/

/-- The loop; `k` is the entry of its buffer that `de` points to. -/
def findLoop (d : Dir) (name : List Byte) (entries i : Nat) (bh : Option Nat) (k : Nat) (held : Held) :
    Except Fault (Option (Nat × Nat) × Held) :=
  if i < entries then
    match look bh held with
    | .error f => .error f
    | .ok b =>
        if 64 ≤ k then
          match brelse bh held with
          | .error f => .error f
          | .ok held =>
              if maxBlock ≤ i / 64 then .error .panic
              else if d.bmap (i / 64) = 0 then findLoop d name entries (i + 64) none k held
              else
                match bread d (d.bmap (i / 64)) held with
                | none => findLoop d name entries (i + 64) none k held
                | some held =>
                    if minixMatch name (d.slot (d.bmap (i / 64)) 0) then .ok (some (d.bmap (i / 64), 0), held)
                    else findLoop d name entries (i + 1) (some (d.bmap (i / 64))) 1 held
        else if minixMatch name (d.slot b k) then .ok (some (b, k), held)
        else findLoop d name entries (i + 1) bh (k + 1) held
  else
    match brelse bh held with
    | .error f => .error f
    | .ok held => .ok (none, held)
termination_by entries - i

/-- **`minix_find_entry`**: the buffer and the entry in it, and the references that are left. -/
def minixFindEntry (d : Dir) (name : List Byte) : Except Fault (Option (Nat × Nat) × Held) :=
  if d.iData0 = 0 then .ok (none, 0)
  else
    match bread d d.iData0 0 with
    | none => .ok (none, 0)
    | some held => findLoop d (name.take MINIX_NAME_LEN) (d.iSize.toNat / 16) 0 (some d.iData0) 0 held

/-! ## `minix_add_entry` -/

/-- The loop. -/
def addLoop (d : Dir) (i : Nat) (bh : Option Nat) (k : Nat) (held : Held) :
    Except Fault (Option (Nat × Nat) × Held) :=
  match look bh held with
  | .error f => .error f
  | .ok b =>
      if 64 ≤ k then
        match brelse bh held with
        | .error f => .error f
        | .ok held =>
            if maxBlock ≤ i / 64 then .error .panic
            else if d.create (i / 64) = 0 then .ok (none, held)
            else
              match bread d (d.create (i / 64)) held with
              | none => addLoop d (i + 64) none k held
              | some held =>
                  if d.iSize.toNat ≤ 16 * i ∨ (d.slot (d.create (i / 64)) 0).inode = 0 then
                    .ok (some (d.create (i / 64), 0), held)
                  else addLoop d (i + 1) (some (d.create (i / 64))) 1 held
      else if d.iSize.toNat ≤ 16 * i ∨ (d.slot b k).inode = 0 then .ok (some (b, k), held)
      else addLoop d (i + 1) bh (k + 1) held
termination_by d.iSize.toNat + 64 * maxBlock + 1 - i
decreasing_by
  · omega
  · rename_i hnot
    rw [not_or] at hnot
    omega
  · rename_i hnot
    rw [not_or] at hnot
    omega

/-- **`minix_add_entry`**. -/
def minixAddEntry (d : Dir) (name : List Byte) : Except Fault (Option (Nat × Nat) × Held) :=
  if name.take MINIX_NAME_LEN = [] then .ok (none, 0)
  else if d.iData0 = 0 then .ok (none, 0)
  else
    match bread d d.iData0 0 with
    | none => .ok (none, 0)
    | some held => addLoop d 0 (some d.iData0) 0 held

/-! ## `empty_dir` -/

/-- The loop. -/
def emptyLoop (d : Dir) (len nr : Nat) (bh : Option Nat) (k : Nat) (held : Held) : Except Fault (Bool × Held) :=
  if nr < len then
    match look bh held with
    | .error f => .error f
    | .ok b =>
        if 64 ≤ k then
          match brelse bh held with
          | .error f => .error f
          | .ok held =>
              if maxBlock ≤ nr / 64 then .error .panic
              -- the pointer to the buffer stays as it is
              else if d.bmap (nr / 64) = 0 then emptyLoop d len (nr + 64) bh k held
              else
                match bread d (d.bmap (nr / 64)) held with
                | none => .ok (false, held)
                | some held =>
                    if (d.slot (d.bmap (nr / 64)) 0).inode ≠ 0 then
                      match brelse (some (d.bmap (nr / 64))) held with
                      | .error f => .error f
                      | .ok held => .ok (false, held)
                    else emptyLoop d len (nr + 1) (some (d.bmap (nr / 64))) 1 held
        else if (d.slot b k).inode ≠ 0 then
          match brelse bh held with
          | .error f => .error f
          | .ok held => .ok (false, held)
        else emptyLoop d len (nr + 1) bh (k + 1) held
  else
    match brelse bh held with
    | .error f => .error f
    | .ok held => .ok (true, held)
termination_by len - nr

/-- "de[0].inode != inode->i_ino || !de[1].inode || strcmp(".",de[0].name) || strcmp("..",de[1].name)" is false. -/
def Dots (d : Dir) : Prop :=
  (d.slot d.iData0 0).inode = d.iIno ∧ (d.slot d.iData0 1).inode ≠ 0 ∧
    (d.slot d.iData0 0).name 0 = 46 ∧ (d.slot d.iData0 0).name 1 = 0 ∧
    (d.slot d.iData0 1).name 0 = 46 ∧ (d.slot d.iData0 1).name 1 = 46 ∧ (d.slot d.iData0 1).name 2 = 0

instance (d : Dir) : Decidable (Dots d) := inferInstanceAs (Decidable (_ ∧ _ ∧ _ ∧ _ ∧ _ ∧ _ ∧ _))

/-- **`empty_dir`**. -/
def emptyDir (d : Dir) : Except Fault (Bool × Held) :=
  let len := d.iSize.toNat / 16
  if len < 2 ∨ d.iData0 = 0 then .ok (false, 0)
  else
    match bread d d.iData0 0 with
    | none => .ok (false, 0)
    | some held =>
        -- "warning - bad directory", and the buffer is kept
        if ¬ Dots d then .ok (false, held)
        else emptyLoop d len 2 (some d.iData0) 2 held

/-! ## What is left -/

/-- One reference, to the buffer of one block. -/
def single (b : Nat) : Held := Function.update 0 b 1

@[simp] theorem single_self (b : Nat) : single b b = 1 := Function.update_self _ _ _

@[simp] theorem look_single (b : Nat) : look (some b) (single b) = .ok b := by
  simp [look]

@[simp] theorem look_zero (b : Nat) : look (some b) 0 = .error .released := by
  simp [look]

@[simp] theorem look_none (held : Held) : look none held = .error .null := rfl

@[simp] theorem brelse_single (b : Nat) : brelse (some b) (single b) = .ok 0 := by
  have hzero : Function.update (single b) b 0 = 0 := by
    unfold single
    rw [Function.update_idem]
    exact Function.update_eq_self b (0 : Held)
  simp [brelse, hzero]

@[simp] theorem brelse_zero (b : Nat) : brelse (some b) 0 = .error .released := by
  simp [brelse]

@[simp] theorem brelse_none (held : Held) : brelse none held = .ok held := rfl

theorem bread_zero (d : Dir) (b : Nat) : bread d b 0 = if d.readable b then some (single b) else none := rfl

/-- The scan ends with an entry, and with the reference to its buffer alone; or with neither. -/
def Clean (r : Except Fault (Option (Nat × Nat) × Held)) : Prop :=
  match r with
  | .error _ => False
  | .ok (none, held) => held = 0
  | .ok (some (b, _), held) => held = single b

@[simp] theorem clean_error (f : Fault) : ¬ Clean (.error f) := id

@[simp] theorem clean_none (held : Held) : Clean (.ok (none, held)) ↔ held = 0 := Iff.rfl

@[simp] theorem clean_some (b k : Nat) (held : Held) : Clean (.ok (some (b, k), held)) ↔ held = single b := Iff.rfl

/-- The test ends with no reference. -/
def Released (r : Except Fault (Bool × Held)) : Prop :=
  match r with
  | .error _ => False
  | .ok (_, held) => held = 0

@[simp] theorem released_error (f : Fault) : ¬ Released (.error f) := id

@[simp] theorem released_ok (found : Bool) (held : Held) : Released (.ok (found, held)) ↔ held = 0 := Iff.rfl

/-! ## The blocks that a scan comes to -/

/-- From entry `i` of block `k` on: each later block that the scan comes to, through blocks that are `there` and entries
that do not `stop` it, is `good`. -/
def Goes (stop there good : Nat → Prop) (i k : Nat) : Prop :=
  ∀ later, k < later → (∀ j, k < j → j < later → there j) → (∀ e, i ≤ e → e < 64 * later → ¬ stop e) → good later

section Goes

variable {stop there good : Nat → Prop} {i k : Nat}

/-- It stops in its block. -/
theorem goes_stop (hblock : i < 64 * (k + 1)) (hstop : stop i) : Goes stop there good i k := by
  intro later hlater _ hnone
  exact absurd hstop (hnone i le_rfl (by omega))

/-- One entry further. -/
theorem goes_next (hstop : ¬ stop i) : Goes stop there good i k ↔ Goes stop there good (i + 1) k := by
  constructor
  · intro hgoes later hlater hthere hnone
    refine hgoes later hlater hthere ?_
    intro e hle hlt
    rcases Nat.eq_or_lt_of_le hle with rfl | hle
    · exact hstop
    · exact hnone e hle hlt
  · intro hgoes later hlater hthere hnone
    exact hgoes later hlater hthere fun e hle hlt => hnone e (by omega) hlt

/-- At the end of a block. -/
theorem goes_block :
    Goes stop there good (64 * (k + 1)) k ↔
      good (k + 1) ∧ (there (k + 1) → Goes stop there good (64 * (k + 1)) (k + 1)) := by
  constructor
  · intro hgoes
    constructor
    · exact hgoes (k + 1) (by omega) (fun j _ _ => by omega) (fun e _ _ => by omega)
    · intro hnext later hlater hthere hnone
      refine hgoes later (by omega) ?_ hnone
      intro j hle hlt
      rcases Nat.eq_or_lt_of_le hle with rfl | hle
      · exact hnext
      · exact hthere j hle hlt
  · rintro ⟨hgood, hrest⟩ later hlater hthere hnone
    rcases Nat.eq_or_lt_of_le hlater with rfl | hlater
    · exact hgood
    · exact hrest (hthere (k + 1) (by omega) hlater) later hlater (fun j hle => hthere j (by omega)) hnone

/-- Nothing is left to come to. -/
theorem goes_of_good (hgood : ∀ later, k < later → good later) : Goes stop there good i k :=
  fun later hlater _ _ => hgood later hlater

/-- **A scan by its steps**: an entry of the block, and the end of the block. Past the `bound` it is known. -/
theorem goes_of_steps (run : Nat → Nat → Prop) (bound : Nat)
    (hover : ∀ k pos, pos ≤ 64 → bound ≤ 64 * k + pos → (run k pos ↔ Goes stop there good (64 * k + pos) k))
    (hentry : ∀ k pos, pos < 64 → 64 * k + pos < bound → (run k pos ↔ stop (64 * k + pos) ∨ run k (pos + 1)))
    (hblock : ∀ k, 64 * (k + 1) < bound → (run k 64 ↔ good (k + 1) ∧ (there (k + 1) → run (k + 1) 0)))
    (k pos : Nat) (hpos : pos ≤ 64) : run k pos ↔ Goes stop there good (64 * k + pos) k := by
  -- the end of a block comes before the first entry of the next one, which has the same number
  induction hm : 2 * (bound - (64 * k + pos)) + pos / 64 using Nat.strong_induction_on generalizing k pos with
  | _ m ih =>
    subst hm
    by_cases hlt : 64 * k + pos < bound
    swap
    · exact hover k pos hpos (by omega)
    by_cases hend : pos < 64
    · rw [hentry k pos hend hlt]
      by_cases hstop : stop (64 * k + pos)
      · exact iff_of_true (Or.inl hstop) (goes_stop (by omega) hstop)
      · have hnext := ih _ (by omega) k (pos + 1) (by omega) rfl
        rw [or_iff_right hstop, goes_next hstop, hnext, Nat.add_assoc]
    · obtain rfl : pos = 64 := by omega
      have hnext := ih _ (by omega) (k + 1) 0 (by omega) rfl
      rw [hblock k hlt, hnext, Nat.add_zero]
      exact goes_block.symm

end Goes

/-! ## The three conditions -/

/-- Where a block of the directory lies. -/
def zone (d : Dir) (k : Nat) : Nat :=
  if k = 0 then d.iData0 else d.bmap k

@[simp] theorem zone_zero (d : Dir) : zone d 0 = d.iData0 := rfl

@[simp] theorem zone_succ (d : Dir) (k : Nat) : zone d (k + 1) = d.bmap (k + 1) := rfl

/-- The same, where a missing block is created. -/
def created (d : Dir) (k : Nat) : Nat :=
  if k = 0 then d.iData0 else d.create k

@[simp] theorem created_zero (d : Dir) : created d 0 = d.iData0 := rfl

@[simp] theorem created_succ (d : Dir) (k : Nat) : created d (k + 1) = d.create (k + 1) := rfl

/-- The block is neither a hole nor unreadable. -/
def Present (d : Dir) (k : Nat) : Prop :=
  d.bmap k ≠ 0 ∧ d.readable (d.bmap k) = true

instance (d : Dir) (k : Nat) : Decidable (Present d k) := inferInstanceAs (Decidable (_ ∧ _))

/-- A block that `minix_find_entry` can come to: past the last entry, or not too large and either present or the last
one. -/
def FindGood (d : Dir) (k : Nat) : Prop :=
  d.iSize.toNat / 16 ≤ 64 * k ∨ k < maxBlock ∧ (Present d k ∨ d.iSize.toNat / 16 ≤ 64 * (k + 1))

/-- The entry has the name. -/
def Named (d : Dir) (name : List Byte) (e : Nat) : Prop :=
  minixMatch (name.take MINIX_NAME_LEN) (d.slot (zone d (e / 64)) (e % 64))

/-- **`minix_find_entry`**: every block that it comes to is `FindGood`. -/
def FindSurvives (d : Dir) (name : List Byte) : Prop :=
  d.iData0 ≠ 0 → d.readable d.iData0 = true → Goes (Named d name) (Present d) (FindGood d) 0 0

/-- A block that is there, or that has been created. -/
def Had (d : Dir) (k : Nat) : Prop :=
  d.create k ≠ 0 ∧ d.readable (d.create k) = true

/-- A block that `minix_add_entry` can come to: not too large, and either not to be had or readable. -/
def AddGood (d : Dir) (k : Nat) : Prop :=
  k < maxBlock ∧ (d.create k = 0 ∨ d.readable (d.create k) = true)

/-- The entry can be used. -/
def Free (d : Dir) (e : Nat) : Prop :=
  d.iSize.toNat ≤ 16 * e ∨ (d.slot (created d (e / 64)) (e % 64)).inode = 0

/-- **`minix_add_entry`**: every block that it comes to is `AddGood`. -/
def AddSurvives (d : Dir) (name : List Byte) : Prop :=
  name ≠ [] → d.iData0 ≠ 0 → d.readable d.iData0 = true →
    Goes (Free d) (Had d) (AddGood d) 0 0

/-- A block that `empty_dir` can come to: past the last entry, or not too large and not a hole. -/
def EmptyGood (d : Dir) (k : Nat) : Prop :=
  d.iSize.toNat / 16 ≤ 64 * k ∨ k < maxBlock ∧ d.bmap k ≠ 0

/-- The entry is in use. -/
def InUse (d : Dir) (e : Nat) : Prop :=
  (d.slot (zone d (e / 64)) (e % 64)).inode ≠ 0

/-- **`empty_dir`**: the first two entries are as they should be, and every block that it comes to is `EmptyGood`. -/
def EmptySurvives (d : Dir) : Prop :=
  2 ≤ d.iSize.toNat / 16 → d.iData0 ≠ 0 → d.readable d.iData0 = true →
    Dots d ∧ Goes (InUse d) (Present d) (EmptyGood d) 2 0

/-- Where an entry lies. -/
theorem entry_at (k pos : Nat) (hpos : pos < 64) : (64 * k + pos) / 64 = k ∧ (64 * k + pos) % 64 = pos := by
  omega

/-! ## `minix_find_entry` -/

/-- With no buffer the loop may only end. -/
theorem findLoop_none (d : Dir) (name : List Byte) (entries i k : Nat) :
    Clean (findLoop d name entries i none k 0) ↔ entries ≤ i := by
  rw [findLoop]
  by_cases hlt : i < entries
  · simp [hlt]
  · simp [hlt]
    omega

/-- An entry of the block. -/
theorem findLoop_entry (d : Dir) (name : List Byte) (entries i b k : Nat) (hlt : i < entries) (hk : k < 64) :
    findLoop d name entries i (some b) k (single b) =
      if minixMatch name (d.slot b k) then .ok (some (b, k), single b)
      else findLoop d name entries (i + 1) (some b) (k + 1) (single b) := by
  rw [findLoop]
  simp [hlt, Nat.not_le.mpr hk]

/-- The end of a block. -/
theorem findLoop_block (d : Dir) (name : List Byte) (entries b k : Nat) (hlt : 64 * (k + 1) < entries) :
    findLoop d name entries (64 * (k + 1)) (some b) 64 (single b) =
      if maxBlock ≤ k + 1 then .error .panic
      else if Present d (k + 1) then
        findLoop d name entries (64 * (k + 1)) (some (d.bmap (k + 1))) 0 (single (d.bmap (k + 1)))
      else findLoop d name entries (64 * (k + 1) + 64) none 64 0 := by
  rw [findLoop_entry d name entries _ _ 0 hlt (by decide), findLoop]
  by_cases hhole : d.bmap (k + 1) = 0
  · simp [hlt, hhole, Present]
  · by_cases hread : d.readable (d.bmap (k + 1)) = true
    · simp [hlt, hhole, hread, Present, bread_zero]
    · simp [hlt, hhole, hread, Present, bread_zero]

theorem findLoop_clean (d : Dir) (name : List Byte) (k pos : Nat) (hpos : pos ≤ 64) :
    Clean (findLoop d (name.take MINIX_NAME_LEN) (d.iSize.toNat / 16) (64 * k + pos) (some (zone d k)) pos
        (single (zone d k))) ↔
      Goes (Named d name) (Present d) (FindGood d) (64 * k + pos) k := by
  refine goes_of_steps (fun k pos => Clean (findLoop d (name.take MINIX_NAME_LEN) (d.iSize.toNat / 16)
    (64 * k + pos) (some (zone d k)) pos (single (zone d k)))) (d.iSize.toNat / 16) ?_ ?_ ?_ k pos hpos
  · -- the scan is over: no block that follows has an entry
    intro k pos _ hover
    rw [findLoop, if_neg (by omega), brelse_single]
    exact iff_of_true rfl (goes_of_good fun later _ => Or.inl (by omega))
  · intro k pos hpos hlt
    obtain ⟨hdiv, hmod⟩ := entry_at k pos hpos
    rw [findLoop_entry d _ _ _ _ _ hlt hpos, Named, hdiv, hmod]
    by_cases hmatch : minixMatch (name.take MINIX_NAME_LEN) (d.slot (zone d k) pos)
    · simp [hmatch]
    · simp [hmatch, Nat.add_assoc]
  · intro k hlt
    rw [show 64 * k + 64 = 64 * (k + 1) from rfl, findLoop_block d _ _ _ _ hlt]
    by_cases hbig : maxBlock ≤ k + 1
    · rw [if_pos hbig]
      refine iff_of_false id ?_
      rintro ⟨hgood | hgood, _⟩ <;> omega
    rw [if_neg hbig]
    by_cases hthere : Present d (k + 1)
    · have hgood : FindGood d (k + 1) := Or.inr ⟨by omega, Or.inl hthere⟩
      rw [if_pos hthere]
      simp [hgood, hthere]
    · -- no buffer: the entries of this block have to be the last
      rw [if_neg hthere, findLoop_none, and_iff_left fun h => absurd h hthere]
      constructor
      · exact fun h => Or.inr ⟨by omega, Or.inr (by omega)⟩
      · rintro (h | ⟨_, h | h⟩)
        · omega
        · exact absurd h hthere
        · omega

/-- **When `minix_find_entry` is clean.** -/
theorem find_clean_iff (d : Dir) (name : List Byte) : Clean (minixFindEntry d name) ↔ FindSurvives d name := by
  unfold minixFindEntry FindSurvives
  by_cases hzero : d.iData0 = 0
  · simp [hzero]
  by_cases hread : d.readable d.iData0 = true
  · simpa [hzero, hread, bread_zero] using findLoop_clean d name 0 0 (by decide)
  · simp [hzero, hread, bread_zero]

/-! ## `minix_add_entry` -/

/-- With no buffer the loop does not end. -/
theorem addLoop_none (d : Dir) (i k : Nat) : ¬ Clean (addLoop d i none k 0) := by
  rw [addLoop]
  simp [Clean]

/-- An entry of the block. -/
theorem addLoop_entry (d : Dir) (i b k : Nat) (hk : k < 64) :
    addLoop d i (some b) k (single b) =
      if d.iSize.toNat ≤ 16 * i ∨ (d.slot b k).inode = 0 then .ok (some (b, k), single b)
      else addLoop d (i + 1) (some b) (k + 1) (single b) := by
  rw [addLoop]
  simp [Nat.not_le.mpr hk]

/-- The end of a block. -/
theorem addLoop_block (d : Dir) (b k : Nat) :
    addLoop d (64 * (k + 1)) (some b) 64 (single b) =
      if maxBlock ≤ k + 1 then .error .panic
      else if d.create (k + 1) = 0 then .ok (none, 0)
      else if d.readable (d.create (k + 1)) = true then
        addLoop d (64 * (k + 1)) (some (d.create (k + 1))) 0 (single (d.create (k + 1)))
      else addLoop d (64 * (k + 1) + 64) none 64 0 := by
  rw [addLoop_entry d _ _ 0 (by decide), addLoop]
  by_cases hread : d.readable (d.create (k + 1)) = true
  · simp [hread, bread_zero]
  · simp [hread, bread_zero]

theorem addLoop_clean (d : Dir) (k pos : Nat) (hpos : pos ≤ 64) :
    Clean (addLoop d (64 * k + pos) (some (created d k)) pos (single (created d k))) ↔
      Goes (Free d) (Had d) (AddGood d) (64 * k + pos) k := by
  have hentry : ∀ k pos, pos < 64 →
      (Clean (addLoop d (64 * k + pos) (some (created d k)) pos (single (created d k))) ↔
        Free d (64 * k + pos) ∨
          Clean (addLoop d (64 * k + (pos + 1)) (some (created d k)) (pos + 1) (single (created d k)))) := by
    intro k pos hpos
    obtain ⟨hdiv, hmod⟩ := entry_at k pos hpos
    rw [addLoop_entry d _ _ _ hpos, Free, hdiv, hmod]
    by_cases hfree : d.iSize.toNat ≤ 16 * (64 * k + pos) ∨ (d.slot (created d k) pos).inode = 0
    · rw [if_pos hfree]
      exact iff_of_true rfl (Or.inl hfree)
    · rw [if_neg hfree, or_iff_right hfree, Nat.add_assoc]
  have hblock : ∀ k,
      (Clean (addLoop d (64 * k + 64) (some (created d k)) 64 (single (created d k))) ↔
        AddGood d (k + 1) ∧ (Had d (k + 1) →
          Clean (addLoop d (64 * (k + 1) + 0) (some (created d (k + 1))) 0 (single (created d (k + 1)))))) := by
    intro k
    rw [show 64 * k + 64 = 64 * (k + 1) from rfl, addLoop_block]
    by_cases hbig : maxBlock ≤ k + 1
    · rw [if_pos hbig]
      exact iff_of_false id fun h => absurd h.1.1 (by omega)
    have hgood : AddGood d (k + 1) ↔ d.create (k + 1) = 0 ∨ d.readable (d.create (k + 1)) = true :=
      and_iff_right (Nat.not_le.mp hbig)
    rw [if_neg hbig, hgood]
    by_cases hzero : d.create (k + 1) = 0
    · simp [hzero, Had]
    · by_cases hread : d.readable (d.create (k + 1)) = true
      · simp [hzero, hread, Had]
      · have hnone := addLoop_none d (64 * (k + 1) + 64) 64
        simp [hzero, hread, hnone]
  refine goes_of_steps (fun k pos => Clean (addLoop d (64 * k + pos) (some (created d k)) pos
    (single (created d k)))) d.iSize.toNat ?_ (fun k pos hpos _ => hentry k pos hpos) (fun k _ => hblock k) k pos hpos
  -- past the end of the directory every entry can be used
  intro k pos hpos hover
  have hfree : Free d (64 * k + pos) := Or.inl (by omega)
  by_cases hend : pos < 64
  · exact iff_of_true ((hentry k pos hend).mpr (Or.inl hfree)) (goes_stop (by omega) hfree)
  · obtain rfl : pos = 64 := by omega
    have hfirst := (hentry (k + 1) 0 (by decide)).mpr (Or.inl hfree)
    have hgoes : Goes (Free d) (Had d) (AddGood d) (64 * (k + 1)) (k + 1) := goes_stop (by omega) hfree
    rw [hblock k, show 64 * k + 64 = 64 * (k + 1) from rfl, goes_block, and_iff_left fun _ => hfirst,
      and_iff_left fun _ => hgoes]

/-- **When `minix_add_entry` is clean.** -/
theorem add_clean_iff (d : Dir) (name : List Byte) : Clean (minixAddEntry d name) ↔ AddSurvives d name := by
  unfold minixAddEntry AddSurvives
  by_cases hname : name = []
  · simp [hname]
  have htake : name.take MINIX_NAME_LEN ≠ [] := by
    simp [hname, MINIX_NAME_LEN]
  by_cases hzero : d.iData0 = 0
  · simp [hzero]
  by_cases hread : d.readable d.iData0 = true
  · simpa [hname, htake, hzero, hread, bread_zero] using addLoop_clean d 0 0 (by decide)
  · simp [hzero, hread, bread_zero]

/-! ## `empty_dir` -/

/-- With a buffer that has been released the loop does not end well. -/
theorem emptyLoop_released (d : Dir) (len nr b k : Nat) : ¬ Released (emptyLoop d len nr (some b) k 0) := by
  rw [emptyLoop]
  by_cases hlt : nr < len
  · simp [hlt]
  · simp [hlt]

/-- An entry of the block. -/
theorem emptyLoop_entry (d : Dir) (len nr b k : Nat) (hlt : nr < len) (hk : k < 64) :
    emptyLoop d len nr (some b) k (single b) =
      if (d.slot b k).inode ≠ 0 then .ok (false, 0) else emptyLoop d len (nr + 1) (some b) (k + 1) (single b) := by
  rw [emptyLoop]
  simp [hlt, Nat.not_le.mpr hk]

/-- The end of a block. -/
theorem emptyLoop_block (d : Dir) (len b k : Nat) (hlt : 64 * (k + 1) < len) :
    emptyLoop d len (64 * (k + 1)) (some b) 64 (single b) =
      if maxBlock ≤ k + 1 then .error .panic
      else if d.bmap (k + 1) = 0 then emptyLoop d len (64 * (k + 1) + 64) (some b) 64 0
      else if d.readable (d.bmap (k + 1)) = true then
        emptyLoop d len (64 * (k + 1)) (some (d.bmap (k + 1))) 0 (single (d.bmap (k + 1)))
      else .ok (false, 0) := by
  rw [emptyLoop_entry d len _ _ 0 hlt (by decide), emptyLoop]
  by_cases hread : d.readable (d.bmap (k + 1)) = true
  · simp [hlt, hread, bread_zero]
  · simp [hlt, hread, bread_zero]

theorem emptyLoop_released_iff (d : Dir) (k pos : Nat) (hpos : pos ≤ 64) :
    Released (emptyLoop d (d.iSize.toNat / 16) (64 * k + pos) (some (zone d k)) pos (single (zone d k))) ↔
      Goes (InUse d) (Present d) (EmptyGood d) (64 * k + pos) k := by
  refine goes_of_steps (fun k pos => Released (emptyLoop d (d.iSize.toNat / 16) (64 * k + pos) (some (zone d k))
    pos (single (zone d k)))) (d.iSize.toNat / 16) ?_ ?_ ?_ k pos hpos
  · intro k pos _ hover
    rw [emptyLoop, if_neg (by omega), brelse_single]
    exact iff_of_true rfl (goes_of_good fun later _ => Or.inl (by omega))
  · intro k pos hpos hlt
    obtain ⟨hdiv, hmod⟩ := entry_at k pos hpos
    rw [emptyLoop_entry d _ _ _ _ hlt hpos, InUse, hdiv, hmod]
    by_cases hused : (d.slot (zone d k) pos).inode ≠ 0
    · rw [if_pos hused]
      exact iff_of_true rfl (Or.inl hused)
    · rw [if_neg hused, or_iff_right hused, Nat.add_assoc]
  · intro k hlt
    rw [show 64 * k + 64 = 64 * (k + 1) from rfl, emptyLoop_block d _ _ _ hlt]
    have hin : ¬ d.iSize.toNat / 16 ≤ 64 * (k + 1) := by omega
    by_cases hbig : maxBlock ≤ k + 1
    · rw [if_pos hbig]
      refine iff_of_false id ?_
      rintro ⟨hgood | hgood, _⟩ <;> omega
    have hgood : EmptyGood d (k + 1) ↔ d.bmap (k + 1) ≠ 0 := by
      rw [EmptyGood, or_iff_right hin]
      exact and_iff_right (Nat.not_le.mp hbig)
    rw [if_neg hbig, hgood]
    by_cases hhole : d.bmap (k + 1) = 0
    · have hfail := emptyLoop_released d (d.iSize.toNat / 16) (64 * (k + 1) + 64) (zone d k) 64
      simp [hhole, hfail]
    · by_cases hread : d.readable (d.bmap (k + 1)) = true
      · simp [hhole, hread, Present]
      · simp [hhole, hread, Present]

/-- **When `empty_dir` releases everything.** -/
theorem empty_released_iff (d : Dir) : Released (emptyDir d) ↔ EmptySurvives d := by
  unfold emptyDir EmptySurvives
  by_cases hlen : d.iSize.toNat / 16 < 2
  · simp [hlen, Nat.not_le.mpr hlen]
  by_cases hzero : d.iData0 = 0
  · simp [hzero]
  by_cases hread : d.readable d.iData0 = true
  · by_cases hdots : Dots d
    · have hloop := emptyLoop_released_iff d 0 2 (by decide)
      simpa [hlen, Nat.not_lt.mp hlen, hzero, hread, hdots, bread_zero] using hloop
    · have hkept : single d.iData0 ≠ 0 := by
        intro heq
        simpa using congrFun heq d.iData0
      simp [hlen, Nat.not_lt.mp hlen, hzero, hread, hdots, bread_zero, hkept]
  · simp [hzero, hread, bread_zero]

/-! ## The three scans -/

/-- **The scans of a damaged directory**: each ends cleanly just under its condition. -/
theorem scans_survive_iff (d : Dir) (name : List Byte) :
    (Clean (minixFindEntry d name) ↔ FindSurvives d name) ∧ (Clean (minixAddEntry d name) ↔ AddSurvives d name) ∧
      (Released (emptyDir d) ↔ EmptySurvives d) :=
  ⟨find_clean_iff d name, add_clean_iff d name, empty_released_iff d⟩

/-- Three blocks of entries, none of which is in use; the second block is a hole. -/
def holed : Dir where
  iSize := 3072
  iIno := 1
  iData0 := 1
  bmap := fun k => if k = 1 then 0 else 2
  create := fun _ => 0
  readable := fun _ => true
  slot := fun _ _ =>
    { inode := 0
      name := 0 }

/-- A name is looked for past the hole, with no buffer. -/
theorem hole_not_survived : ¬ ∀ d name,
    Clean (minixFindEntry d name) ∧ Clean (minixAddEntry d name) ∧ Released (emptyDir d) := by
  intro hall
  have hgoes := (find_clean_iff holed [120]).mp (hall holed [120]).1 (by decide) rfl
  have hgood := hgoes 1 (by decide) (fun j hlt hle => by omega) fun e _ _ hnamed => hnamed.1 rfl
  rcases hgood with hover | ⟨_, hthere | hlast⟩
  · exact absurd hover (by decide)
  · exact hthere.1 rfl
  · exact absurd hlast (by decide)

end DirScan
end Minix
end Fs
end Linux095
