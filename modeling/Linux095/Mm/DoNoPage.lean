import Linux095.Mm.Vm

/-!
# `Mm.DoNoPage` — what `do_no_page` reads into a page (`mm/memory.c`)

Four blocks of the executable, after the one with its header, are read into a page; what is beyond `end_data` is
cleared.

* `Programs` — the files, their blocks and their headers; `breadPage` — `bread_page`, by its contract;
* `loadPage` — the source's function from `block` on;
* `imageOf` — **what a page of a program should hold**;
* `loadPage_eq` — **that this is what is read**.
-/

namespace Linux095
namespace Mm
namespace Vm

/-- Executables and libraries. `do_execve` has refused those that are too large. -/
structure Programs where
  /-- `i_dev`. -/
  dev : Nat → Nat
  /-- `bmap`; 0 is a hole. -/
  bmap : Nat → Nat → Nat
  /-- What is in a block of a device. -/
  block : Nat → Nat → Nat → Byte
  /-- `ex.a_data + ex.a_text`. -/
  endData : Nat → Nat
  small : ∀ ino, endData ino ≤ 0x3000000

namespace Programs

variable (W : Programs)

/-- `bread_page`: the blocks are read, and nothing is stored where there is none. -/
def breadPage (dev : Nat) (nr : Nat → Nat) (p : Page) : Page :=
  fun x => if x < 4096 ∧ nr (x / 1024) ≠ 0 then W.block dev (nr (x / 1024)) (x % 1024) else p x

/-- "while (i-- > 0) { tmp--; *(char *)tmp = 0; }". -/
def clearLoop : Nat → Nat → Page → Page
  | 0, _, p => p
  | i + 1, tmp, p => clearLoop i (tmp - 1) fun x => if x = tmp - 1 then 0 else p x

/-- `i`, when it is clamped. -/
def toClear (tmp endData : BitVec 32) : BitVec 32 :=
  let i := tmp + 4096 - endData
  if (4095 : BitVec 32).slt i then 0 else i

/-- `do_no_page`, from the inode and the block of the file on. -/
def readIn (ino block : Nat) (tmp endData : BitVec 32) : Page :=
  let p := W.breadPage (W.dev ino) (fun i => W.bmap ino (block + i)) fun _ => 0
  clearLoop (toClear tmp endData).toInt.toNat 4096 p

/-- What is read into page `v` of a task. -/
def loadPage (k : Task) (v : Nat) : Page :=
  let tmp := v * 4096
  let readIn := fun ino block => W.readIn ino block (BitVec.ofNat 32 tmp) (BitVec.ofNat 32 k.endData)
  if LIBRARY_OFFSET ≤ v then
    k.library.elim (fun _ => 0) fun ino => readIn ino (1 + (tmp - LIBRARY_OFFSET * 4096) / 1024)
  else k.executable.elim (fun _ => 0) fun ino => readIn ino (1 + tmp / 1024)

/-- What `bread_page` leaves, its end cleared. -/
def Loads : Task → Nat → Page → Prop := fun k v p => p = W.loadPage k v

/-! ## What a page should hold -/

/-- A byte of a file; a hole reads as zeros. -/
def fileByte (ino o : Nat) : Byte :=
  if W.bmap ino (o / 1024) = 0 then 0 else W.block (W.dev ino) (W.bmap ino (o / 1024)) (o % 1024)

/-- **What page `v` of a program should hold**: the file after its header, up to `end_data`. -/
def imageOf (ino endData v x : Nat) : Byte :=
  if v * 4096 + x < endData then W.fileByte ino (1024 + (v * 4096 + x)) else 0

/-- The loop clears the last bytes. -/
theorem clearLoop_eq (i : Nat) {tmp : Nat} (p : Page) (hi : i ≤ tmp) (x : Nat) :
    clearLoop i tmp p x = if tmp - i ≤ x ∧ x < tmp then 0 else p x := by
  induction i generalizing tmp p with
  | zero =>
      have hnone : ¬(tmp - 0 ≤ x ∧ x < tmp) := by omega
      rw [if_neg hnone]
      rfl
  | succ i ih =>
      unfold clearLoop
      rw [ih _ (by omega)]
      by_cases hx : x = tmp - 1
      · rw [if_pos hx, ite_self, if_pos (by omega)]
      · rw [if_neg hx]
        have hiff : (tmp - 1 - i ≤ x ∧ x < tmp - 1) ↔ (tmp - (i + 1) ≤ x ∧ x < tmp) := by omega
        simp only [hiff]

/-- How much is cleared, of a page below the library. -/
theorem toClear_eq {v endData : Nat} (hv : v < LIBRARY_OFFSET) (hend : endData ≤ 0x3000000) :
    (toClear (BitVec.ofNat 32 (v * 4096)) (BitVec.ofNat 32 endData)).toInt.toNat =
      if v * 4096 < endData then v * 4096 + 4096 - endData else 0 := by
  have hv : v < 15360 := hv
  have hsmall : ∀ {n : Nat}, n < 2 ^ 31 → (BitVec.ofNat 32 n).toInt = n := by
    intro n hn
    rw [BitVec.toInt_eq_toNat_of_lt (by rw [BitVec.toNat_ofNat]; omega), BitVec.toNat_ofNat,
      Nat.mod_eq_of_lt (by omega)]
  have hsub : (BitVec.ofNat 32 (v * 4096) + 4096 - BitVec.ofNat 32 endData).toInt =
      (v * 4096 + 4096 : Int) - endData := by
    have hadd : BitVec.ofNat 32 (v * 4096) + 4096 = BitVec.ofNat 32 (v * 4096 + 4096) :=
      (BitVec.ofNat_add _ _).symm
    rw [hadd, BitVec.toInt_sub, hsmall (by omega), hsmall (by omega)]
    have hcast : ((v * 4096 + 4096 : Nat) : Int) = v * 4096 + 4096 := by omega
    rw [hcast]
    exact Int.bmod_eq_of_le_mul_two (by omega) (by omega)
  have hmax : (4095 : BitVec 32).toInt = 4095 := by decide
  unfold toClear
  dsimp only
  by_cases hlt : v * 4096 < endData
  · have hle : ¬(4095 : BitVec 32).slt (BitVec.ofNat 32 (v * 4096) + 4096 - BitVec.ofNat 32 endData) = true := by
      rw [BitVec.slt_iff_toInt_lt, hsub, hmax]
      omega
    rw [if_neg hle, if_pos hlt, hsub]
    omega
  · have hgt : (4095 : BitVec 32).slt (BitVec.ofNat 32 (v * 4096) + 4096 - BitVec.ofNat 32 endData) = true := by
      rw [BitVec.slt_iff_toInt_lt, hsub, hmax]
      omega
    rw [if_pos hgt, if_neg hlt]
    rfl

/-- **A page of a program is read as it should be**, where it has one. -/
theorem loadPage_eq {k : Task} {v ino x : Nat} (hv : v < LIBRARY_OFFSET) (hino : k.executable = some ino)
    (hend : k.endData ≤ 0x3000000) (hlt : v * 4096 < k.endData) (hx : x < 4096) :
    W.loadPage k v x = W.imageOf ino k.endData v x := by
  have hblock : (1024 + (v * 4096 + x)) / 1024 = 1 + v * 4096 / 1024 + x / 1024 := by omega
  have hoffset : (1024 + (v * 4096 + x)) % 1024 = x % 1024 := by omega
  unfold loadPage imageOf fileByte
  dsimp only
  rw [if_neg (Nat.not_le.mpr hv), hino, Option.elim_some, hblock, hoffset]
  unfold readIn
  rw [toClear_eq hv hend, if_pos hlt, clearLoop_eq _ _ (by omega)]
  by_cases hdata : v * 4096 + x < k.endData
  · -- what is read stays
    rw [if_neg (by omega), if_pos hdata]
    unfold breadPage
    by_cases hhole : W.bmap ino (1 + v * 4096 / 1024 + x / 1024) = 0
    · rw [if_neg fun h => h.2 hhole, if_pos hhole]
    · rw [if_pos ⟨hx, hhole⟩, if_neg hhole]
  · rw [if_pos (by omega), if_neg hdata]

end Programs

end Vm
end Mm
end Linux095
