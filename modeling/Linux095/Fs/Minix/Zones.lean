import Linux095.Fs.Types

/-!
# `Fs.Minix.Zones` — the zones of a file system and the slots that name them (`fs/minix/inode.c`, `bitmap.c`)

A file's blocks are named by zone numbers in slots: `i_data[0..6]` directly, `i_data[7]` through one indirect
block and `i_data[8]` through two levels of them. All bitmap and indirect blocks can be read.

* `Volume` — the inodes, the blocks and the zone map;
* `newBlock`, `bmap` — the source's functions, with `find_first_zero` as the original macro has it;
* `Live` — the slots there are, each with the number of levels below it;
* `Owned` — every zone number is in one live slot only, in range, and has its bit set;
* `Owned.attach`, `Owned.detach`, `Owned.setBlock` — what the operations are made of keeps it.
-/

namespace Linux095
namespace Fs
namespace Minix
namespace Zones

abbrev Byte := BitVec 8

/-- One minix file system: the `i_data` of its inodes, the contents of its blocks as the buffer cache has them,
    and the zone map, whose bit `n` is the bit `n & 8191` of the block `s_zmap[n >> 13]`. -/
structure Volume where
  iData : Nat → Nat → Nat
  block : Nat → Nat → Byte
  zmap : Nat → Bool
  sZmapBlocks : Nat
  sFirstdatazone : BitVec 16
  sNzones : BitVec 16

/-- A place that holds a zone number. -/
inductive Slot where
  /-- `inode->i_data[k]`. -/
  | data (ino k : Nat)
  /-- `((unsigned short *) bh->b_data)[k]` of an indirect block. -/
  | entry (zone k : Nat)
  deriving DecidableEq

namespace Volume

/-- The zone number in a slot. -/
def val (s : Volume) : Slot → Nat
  | .data ino k => s.iData ino k
  | .entry z k => (s.block z (2 * k)).toNat + 256 * (s.block z (2 * k + 1)).toNat

/-- Store a zone number in a slot. -/
def setVal (s : Volume) (sl : Slot) (z : Nat) : Volume :=
  match sl with
  | .data ino k => { s with iData := fun i j => if i = ino ∧ j = k then z else s.iData i j }
  | .entry w k =>
      { s with block := fun x o =>
          if x = w ∧ o = 2 * k then BitVec.ofNat 8 z
          else if x = w ∧ o = 2 * k + 1 then BitVec.ofNat 8 (z / 256) else s.block x o }

/-- `set_bit`. -/
def setBit (s : Volume) (n : Nat) (v : Bool) : Volume :=
  { s with zmap := fun x => if x = n then v else s.zmap x }

/-- New contents of a block. -/
def setBlock (s : Volume) (z : Nat) (f : Nat → Byte) : Volume :=
  { s with block := fun x => if x = z then f else s.block x }

/-- The number of the bit of a zone: `zone - s_firstdatazone + 1`. -/
def bitOf (s : Volume) (z : Nat) : Nat := z - s.sFirstdatazone.toNat + 1

/-- The scan of `minix_new_block`: the lowest clear bit of the blocks of the zone map. -/
def firstClear (s : Volume) : Option Nat := (List.range (s.sZmapBlocks * 8192)).find? fun n => !s.zmap n

/-- `minix_new_block`: the zone, or 0. -/
def newBlock (s : Volume) : Nat × Volume :=
  match s.firstClear with
  | none => (0, s)
  | some n =>
      let z := n + s.sFirstdatazone.toNat - 1
      if s.sNzones.toNat ≤ z then (0, s.setBit n true)
      else (z, (s.setBit n true).setBlock z fun _ => 0)

/-- What `_bmap` does at each level: `if (create && !slot) if (slot = minix_new_block(dev)) ..`. -/
def slotZone (create : Bool) (sl : Slot) (s : Volume) : Nat × Volume :=
  if create ∧ s.val sl = 0 then
    let (z, s1) := s.newBlock
    if z ≠ 0 then (z, s1.setVal sl z) else (0, s1)
  else (s.val sl, s)

/-- `_bmap`; a block that is too big is a panic. -/
def bmap (create : Bool) (ino block : Nat) (s : Volume) : Option (Nat × Volume) :=
  if 7 + 512 + 512 * 512 ≤ block then none
  else if block < 7 then some (slotZone create (.data ino block) s)
  else if block - 7 < 512 then
    let (z, s1) := slotZone create (.data ino 7) s
    if z = 0 then some (0, s1) else some (slotZone create (.entry z (block - 7)) s1)
  else
    let b := block - 7 - 512
    let (z, s1) := slotZone create (.data ino 8) s
    if z = 0 then some (0, s1)
    else
      let (w, s2) := slotZone create (.entry z (b / 512)) s1
      if w = 0 then some (0, s2) else some (slotZone create (.entry w (b % 512)) s2)

end Volume

/-! ## Slots -/

section
variable (s : Volume)

@[simp] theorem iData_setBit (n : Nat) (v : Bool) : (s.setBit n v).iData = s.iData := rfl
@[simp] theorem block_setBit (n : Nat) (v : Bool) : (s.setBit n v).block = s.block := rfl
@[simp] theorem val_setBit (n : Nat) (v : Bool) : (s.setBit n v).val = s.val := by
  ext sl
  cases sl <;> rfl
@[simp] theorem zmap_setVal (sl : Slot) (z : Nat) : (s.setVal sl z).zmap = s.zmap := by cases sl <;> rfl
@[simp] theorem sZmapBlocks_setVal (sl : Slot) (z : Nat) : (s.setVal sl z).sZmapBlocks = s.sZmapBlocks := by
  cases sl <;> rfl
@[simp] theorem sFirstdatazone_setVal (sl : Slot) (z : Nat) :
    (s.setVal sl z).sFirstdatazone = s.sFirstdatazone := by cases sl <;> rfl
@[simp] theorem sNzones_setVal (sl : Slot) (z : Nat) : (s.setVal sl z).sNzones = s.sNzones := by cases sl <;> rfl
@[simp] theorem bitOf_setVal (sl : Slot) (z : Nat) : (s.setVal sl z).bitOf = s.bitOf := by cases sl <;> rfl

theorem val_setVal_self {sl : Slot} {z : Nat} (hz : z < 65536) : (s.setVal sl z).val sl = z := by
  cases sl with
  | data ino k => exact if_pos ⟨rfl, rfl⟩
  | entry w k =>
      have h1 : (s.setVal (.entry w k) z).block w (2 * k) = BitVec.ofNat 8 z := if_pos ⟨rfl, rfl⟩
      have h2 : (s.setVal (.entry w k) z).block w (2 * k + 1) = BitVec.ofNat 8 (z / 256) := by
        unfold Volume.setVal
        dsimp only
        rw [if_neg (by omega), if_pos ⟨rfl, rfl⟩]
      unfold Volume.val
      dsimp only
      rw [h1, h2, BitVec.toNat_ofNat, BitVec.toNat_ofNat]
      omega

theorem val_setVal_ne {sl sl' : Slot} (z : Nat) (h : sl' ≠ sl) : (s.setVal sl z).val sl' = s.val sl' := by
  cases sl with
  | data ino k =>
      cases sl' with
      | data i j =>
          refine if_neg ?_
          rintro ⟨rfl, rfl⟩
          exact h rfl
      | entry x j => rfl
  | entry w k =>
      cases sl' with
      | data i j => rfl
      | entry x j =>
          unfold Volume.val Volume.setVal
          dsimp only
          by_cases hx : x = w
          · have hj : j ≠ k := by
              rintro rfl
              exact h (hx ▸ rfl)
            rw [if_neg (by omega), if_neg (by omega), if_neg (by omega), if_neg (by omega)]
          · rw [if_neg (fun he => hx he.1), if_neg (fun he => hx he.1), if_neg (fun he => hx he.1),
              if_neg (fun he => hx he.1)]

theorem block_setVal_data (ino k z : Nat) : (s.setVal (.data ino k) z).block = s.block := rfl

theorem block_setVal_ne {w k z x : Nat} (h : x ≠ w) : (s.setVal (.entry w k) z).block x = s.block x := by
  funext o
  unfold Volume.setVal
  dsimp only
  rw [if_neg (fun he => h he.1), if_neg (fun he => h he.1)]

theorem val_setBlock_entry_ne {z w k : Nat} (f : Nat → Byte) (h : w ≠ z) :
    (s.setBlock z f).val (.entry w k) = s.val (.entry w k) := by
  unfold Volume.val Volume.setBlock
  dsimp only
  rw [if_neg h]

theorem val_setBlock_data (z : Nat) (f : Nat → Byte) (i k : Nat) :
    (s.setBlock z f).val (.data i k) = s.val (.data i k) := rfl

theorem val_setBlock_zero (z k : Nat) : (s.setBlock z fun _ => 0).val (.entry z k) = 0 := by
  unfold Volume.val Volume.setBlock
  simp

end

/-- The slots there are: `d` levels of blocks below a slot are blocks of zone numbers. -/
inductive Live (s : Volume) : Slot → Nat → Prop
  | direct (ino : Nat) {k : Nat} (hk : k < 7) : Live s (.data ino k) 0
  | single (ino : Nat) : Live s (.data ino 7) 1
  | double (ino : Nat) : Live s (.data ino 8) 2
  | entry {p : Slot} {d z k : Nat} (hp : Live s p (d + 1)) (hz : s.val p = z) (h0 : z ≠ 0) (hk : k < 512) :
      Live s (.entry z k) d

/-- A live slot holds the zone number. -/
def Refs (s : Volume) (z : Nat) : Prop := ∃ sl d, Live s sl d ∧ s.val sl = z

/-- A zone that may be named by a slot. -/
structure ZoneOk (s : Volume) (z : Nat) : Prop where
  lo : s.sFirstdatazone.toNat ≤ z
  hi : z < s.sNzones.toNat
  bit : s.zmap (s.bitOf z) = true

/-- **Ownership.** -/
structure Owned (s : Volume) : Prop where
  /-- Bit 0 of the zone map stands for no zone. -/
  reserved : s.zmap 0 = true
  first : 0 < s.sFirstdatazone.toNat
  zone : ∀ sl d, Live s sl d → s.val sl ≠ 0 → ZoneOk s (s.val sl)
  one : ∀ sl sl' d d', Live s sl d → Live s sl' d' → s.val sl ≠ 0 → s.val sl = s.val sl' → sl = sl'

/-- An entry is live as part of one block only. -/
theorem Live.entry_inv {s : Volume} {z k d : Nat} (h : Live s (.entry z k) d) :
    ∃ p, Live s p (d + 1) ∧ s.val p = z ∧ z ≠ 0 ∧ k < 512 := by
  cases h with
  | entry hp hz h0 hk => exact ⟨_, hp, hz, h0, hk⟩

/-- A slot is on one level. -/
theorem Owned.level {s : Volume} (h : Owned s) {sl : Slot} {d d' : Nat} (hl : Live s sl d) (hl' : Live s sl d') :
    d = d' := by
  induction hl generalizing d' with
  | direct ino hk =>
      cases hl' with
      | direct => rfl
      | single => omega
      | double => omega
  | single ino =>
      cases hl' with
      | direct _ hk => omega
      | single => rfl
  | double ino =>
      cases hl' with
      | direct _ hk => omega
      | double => rfl
  | entry hp hz h0 hk ih =>
      obtain ⟨p', hp', hz', -, -⟩ := hl'.entry_inv
      obtain rfl := h.one _ _ _ _ hp hp' (hz ▸ h0) (hz.trans hz'.symm)
      have := ih hp'
      omega

/-- A zone has content of one kind: where it is named by a slot of the lowest level, it is not a block of zone
    numbers. -/
theorem Owned.not_entry {s : Volume} (h : Owned s) {sl : Slot} (hl : Live s sl 0) (h0 : s.val sl ≠ 0) {k d : Nat} :
    ¬ Live s (.entry (s.val sl) k) d := by
  intro he
  obtain ⟨p, hp, hz, -, -⟩ := he.entry_inv
  obtain rfl := h.one _ _ _ _ hl hp h0 hz.symm
  have := h.level hl hp
  omega

/-- A file system of 100 zones with nothing allocated. -/
def newVolume : Volume where
  iData _ _ := 0
  block _ _ := 0
  zmap n := n = 0
  sZmapBlocks := 1
  sFirstdatazone := 10
  sNzones := 110

theorem newVolume_val (sl : Slot) : newVolume.val sl = 0 := by cases sl <;> rfl

theorem newVolume_owned : Owned newVolume where
  reserved := rfl
  first := by decide
  zone sl _ _ h0 := absurd (newVolume_val sl) h0
  one sl _ _ _ _ _ h0 _ := absurd (newVolume_val sl) h0

/-! ## What the operations are made of -/

/-- A change that leaves the zone numbers in live slots alone leaves the same slots live. -/
theorem Live.iff_of_vals {s s' : Volume} (h : ∀ sl d, Live s sl d → s'.val sl = s.val sl) {sl : Slot} {d : Nat} :
    Live s' sl d ↔ Live s sl d := by
  constructor
  · intro hl
    induction hl with
    | direct ino hk => exact .direct ino hk
    | single ino => exact .single ino
    | double ino => exact .double ino
    | entry _ hz h0 hk ih => exact .entry ih ((h _ _ ih).symm.trans hz) h0 hk
  · intro hl
    induction hl with
    | direct ino hk => exact .direct ino hk
    | single ino => exact .single ino
    | double ino => exact .double ino
    | entry hp hz h0 hk ih => exact .entry ih ((h _ _ hp).trans hz) h0 hk

theorem Refs.of_vals {s s' : Volume} (h : ∀ sl d, Live s sl d → s'.val sl = s.val sl) {z : Nat} (hz : Refs s' z) :
    Refs s z := by
  obtain ⟨q, d, hq, hv⟩ := hz
  have hq' := (Live.iff_of_vals h).mp hq
  exact ⟨q, d, hq', (h q d hq').symm.trans hv⟩

/-- Two volumes with the same zones. -/
structure SameGeometry (s s' : Volume) : Prop where
  zmapBlocks : s'.sZmapBlocks = s.sZmapBlocks
  firstdatazone : s'.sFirstdatazone = s.sFirstdatazone
  nzones : s'.sNzones = s.sNzones

theorem SameGeometry.refl (s : Volume) : SameGeometry s s := ⟨rfl, rfl, rfl⟩

theorem SameGeometry.trans {s t u : Volume} (h : SameGeometry s t) (h' : SameGeometry t u) : SameGeometry s u :=
  ⟨h'.zmapBlocks.trans h.zmapBlocks, h'.firstdatazone.trans h.firstdatazone, h'.nzones.trans h.nzones⟩

theorem SameGeometry.bitOf {s s' : Volume} (h : SameGeometry s s') (z : Nat) : s'.bitOf z = s.bitOf z := by
  unfold Volume.bitOf
  rw [h.firstdatazone]

theorem ZoneOk.of_geometry {s s' : Volume} (hg : SameGeometry s s') {z : Nat} (h : ZoneOk s z)
    (hb : s'.zmap (s.bitOf z) = true) : ZoneOk s' z where
  lo := hg.firstdatazone ▸ h.lo
  hi := hg.nzones ▸ h.hi
  bit := hg.bitOf z ▸ hb

/-- Bits may be set and blocks that no slot names may be written. -/
theorem Owned.of_vals {s s' : Volume} (h : Owned s) (hg : SameGeometry s s')
    (hv : ∀ sl d, Live s sl d → s'.val sl = s.val sl) (hb : ∀ n, s.zmap n = true → s'.zmap n = true) :
    Owned s' where
  reserved := hb _ h.reserved
  first := hg.firstdatazone ▸ h.first
  zone sl d hl h0 := by
    have hl' := (Live.iff_of_vals hv).mp hl
    rw [hv _ _ hl'] at h0 ⊢
    have hz := h.zone sl d hl' h0
    exact hz.of_geometry hg (hb _ hz.bit)
  one sl sl' d d' hl hl' h0 he := by
    have hm := (Live.iff_of_vals hv).mp hl
    have hm' := (Live.iff_of_vals hv).mp hl'
    rw [hv _ _ hm] at h0 he
    rw [hv _ _ hm'] at he
    exact h.one sl sl' d d' hm hm' h0 he

/-- The content of a block that holds no zone numbers says nothing about the slots. -/
theorem val_setBlock {s : Volume} {z : Nat} (hz : ∀ k d, ¬ Live s (.entry z k) d) (f : Nat → Byte) (sl : Slot)
    (d : Nat) (hl : Live s sl d) : (s.setBlock z f).val sl = s.val sl := by
  cases sl with
  | data i k => exact val_setBlock_data s z f i k
  | entry w k =>
      refine val_setBlock_entry_ne s f ?_
      rintro rfl
      exact hz k d hl

theorem Owned.setBlock {s : Volume} (h : Owned s) {z : Nat} (hz : ∀ k d, ¬ Live s (.entry z k) d)
    (f : Nat → Byte) : Owned (s.setBlock z f) :=
  h.of_vals ⟨rfl, rfl, rfl⟩ (val_setBlock hz f) fun _ hn => hn

/-- The entries of a zone that no slot names are not live. -/
theorem not_live_of_not_refs {s : Volume} {z : Nat} (hz : ¬ Refs s z) (k d : Nat) : ¬ Live s (.entry z k) d := by
  intro hl
  obtain ⟨p, hp, hv, -, -⟩ := hl.entry_inv
  exact hz ⟨p, d + 1, hp, hv⟩

/-- The slots after a zone was put in an empty slot: those there were, and the entries of the zone. -/
theorem live_attach {s : Volume} {p : Slot} {dp z : Nat} (h : Owned s) (hp : Live s p dp) (hfresh : ¬ Refs s z)
    (h16 : z < 65536) (hzero : ∀ k, s.val (.entry z k) = 0) {sl : Slot} {d : Nat} (hl : Live (s.setVal p z) sl d) :
    Live s sl d ∨ (∃ k, sl = .entry z k ∧ (s.setVal p z).val sl = 0 ∧ dp = d + 1) := by
  induction hl with
  | direct ino hk => exact .inl (.direct ino hk)
  | single ino => exact .inl (.single ino)
  | double ino => exact .inl (.double ino)
  | @entry q d w k _ hw h0 hk ih =>
      rcases ih with hq | ⟨j, rfl, hv, -⟩
      · by_cases hqp : q = p
        · obtain rfl := hqp
          obtain rfl := (val_setVal_self s h16).symm.trans hw
          refine .inr ⟨k, rfl, ?_, h.level hp hq⟩
          rw [val_setVal_ne s _ ?_, hzero]
          rintro rfl
          exact not_live_of_not_refs hfresh k dp hp
        · rw [val_setVal_ne s z hqp] at hw
          exact .inl (.entry hq hw h0 hk)
      · exact absurd (hw.symm.trans hv) h0

/-- **Put a new zone in an empty slot.** -/
theorem Owned.attach {s : Volume} (h : Owned s) {p : Slot} {dp z : Nat} (hp : Live s p dp) (hp0 : s.val p = 0)
    (hz : ZoneOk s z) (hfresh : ¬ Refs s z) (h16 : z < 65536) (hzero : ∀ k, s.val (.entry z k) = 0) :
    Owned (s.setVal p z) := by
  have hg : SameGeometry s (s.setVal p z) := ⟨by simp, by simp, by simp⟩
  -- a slot that holds a zone is the filled one or one that was there before
  have hcase : ∀ sl d, Live (s.setVal p z) sl d → (s.setVal p z).val sl ≠ 0 →
      (sl = p ∧ (s.setVal p z).val sl = z) ∨
        (sl ≠ p ∧ Live s sl d ∧ (s.setVal p z).val sl = s.val sl) := by
    intro sl d hl h0
    by_cases hsl : sl = p
    · exact .inl ⟨hsl, hsl ▸ val_setVal_self s h16⟩
    · rcases live_attach h hp hfresh h16 hzero hl with hl' | ⟨k, -, hv, -⟩
      · exact .inr ⟨hsl, hl', val_setVal_ne s z hsl⟩
      · exact absurd hv h0
  refine ⟨?_, ?_, ?_, ?_⟩
  · rw [zmap_setVal]
    exact h.reserved
  · rw [sFirstdatazone_setVal]
    exact h.first
  · intro sl d hl h0
    rcases hcase sl d hl h0 with ⟨-, hv⟩ | ⟨-, hl', hv⟩
    · rw [hv]
      exact hz.of_geometry hg (by simpa using hz.bit)
    · rw [hv] at h0 ⊢
      have hok := h.zone sl d hl' h0
      exact hok.of_geometry hg (by simpa using hok.bit)
  · intro sl sl' d d' hl hl' h0 he
    rcases hcase sl d hl h0 with ⟨rfl, hv⟩ | ⟨-, hm, hv⟩
    · rcases hcase sl' d' hl' (he ▸ h0) with ⟨rfl, -⟩ | ⟨-, hm', hv'⟩
      · rfl
      · exact absurd ⟨sl', d', hm', by rw [← hv', ← he, hv]⟩ hfresh
    · rcases hcase sl' d' hl' (he ▸ h0) with ⟨rfl, hv'⟩ | ⟨-, hm', hv'⟩
      · exact absurd ⟨sl, d, hm, by rw [← hv, he, hv']⟩ hfresh
      · rw [hv] at h0 he
        exact h.one sl sl' d d' hm hm' h0 (he.trans hv')

/-- What was live stays live. -/
theorem Live.attach {s : Volume} {p : Slot} {z : Nat} (hp0 : s.val p = 0) {sl : Slot} {d : Nat}
    (hl : Live s sl d) : Live (s.setVal p z) sl d := by
  induction hl with
  | direct ino hk => exact .direct ino hk
  | single ino => exact .single ino
  | double ino => exact .double ino
  | @entry q d w k _ hw h0 hk ih =>
      refine .entry ih ?_ h0 hk
      rw [val_setVal_ne s z ?_]
      · exact hw
      · rintro rfl
        exact h0 (hw.symm.trans hp0)

/-- **Give back the zone of a slot**: the bit is cleared, the content lost, the slot emptied. -/
theorem Owned.detach {s : Volume} (h : Owned s) {p : Slot} {dp : Nat} (hp : Live s p dp) (hp0 : s.val p ≠ 0)
    (f : Nat → Byte) :
    Owned (((s.setBit (s.bitOf (s.val p)) false).setBlock (s.val p) f).setVal p 0) := by
  set z := s.val p with hzdef
  set s1 := (s.setBit (s.bitOf z) false).setBlock z f with hs1
  have hg : SameGeometry s (s1.setVal p 0) := ⟨by simp [hs1, Volume.setBlock, Volume.setBit],
    by simp [hs1, Volume.setBlock, Volume.setBit], by simp [hs1, Volume.setBlock, Volume.setBit]⟩
  -- the slots left are slots there were, of other blocks, with their zones; the emptied one has none
  have hcase : ∀ sl d, Live (s1.setVal p 0) sl d →
      Live s sl d ∧ (sl = p → (s1.setVal p 0).val sl = 0) ∧
        (sl ≠ p → (∀ k, sl ≠ .entry z k) → (s1.setVal p 0).val sl = s.val sl) ∧ (∀ k, sl ≠ .entry z k) := by
    have hkeep : ∀ sl, sl ≠ p → (∀ k, sl ≠ .entry z k) → (s1.setVal p 0).val sl = s.val sl := by
      intro sl hsl hne
      rw [val_setVal_ne s1 0 hsl]
      cases sl with
      | data i k => rfl
      | entry w k => exact val_setBlock_entry_ne _ f (fun he => hne k (by rw [he]))
    have hemp : ∀ sl, sl = p → (s1.setVal p 0).val sl = 0 := by
      intro sl hsl
      rw [hsl]
      exact val_setVal_self s1 (by omega)
    intro sl d hl
    induction hl with
    | direct ino hk => exact ⟨.direct ino hk, hemp _, hkeep _, by simp⟩
    | single ino => exact ⟨.single ino, hemp _, hkeep _, by simp⟩
    | double ino => exact ⟨.double ino, hemp _, hkeep _, by simp⟩
    | @entry q d w k _ hw h0 hk ih =>
        obtain ⟨hq, hq0, hqv, hqz⟩ := ih
        have hqp : q ≠ p := fun he => h0 (hw.symm.trans (hq0 he))
        have hqw : s.val q = w := (hqv hqp hqz).symm.trans hw
        refine ⟨.entry hq hqw h0 hk, hemp _, hkeep _, ?_⟩
        intro j hj
        have hwz : w = z := (Slot.entry.inj hj).1
        exact hqp (h.one q p _ dp hq hp (hqw ▸ h0) (hqw.trans (hwz.trans hzdef)))
  have hval : ∀ sl d, Live (s1.setVal p 0) sl d → (s1.setVal p 0).val sl ≠ 0 →
      sl ≠ p ∧ Live s sl d ∧ (s1.setVal p 0).val sl = s.val sl := by
    intro sl d hl h0
    obtain ⟨hl', he, hv, hz⟩ := hcase sl d hl
    have hsl : sl ≠ p := fun hsl => h0 (he hsl)
    exact ⟨hsl, hl', hv hsl hz⟩
  have hzok := h.zone p dp hp hp0
  have hbit : ∀ n, n ≠ s.bitOf z → (s1.setVal p 0).zmap n = s.zmap n := by
    intro n hn
    rw [zmap_setVal]
    exact if_neg hn
  refine ⟨?_, ?_, ?_, ?_⟩
  · rw [hbit 0 (by unfold Volume.bitOf; omega)]
    exact h.reserved
  · exact hg.firstdatazone ▸ h.first
  · intro sl d hl h0
    obtain ⟨hsl, hl', hv⟩ := hval sl d hl h0
    rw [hv] at h0 ⊢
    have hok := h.zone sl d hl' h0
    refine hok.of_geometry hg ?_
    rw [hbit]
    · exact hok.bit
    · intro he
      have hlo := hok.lo
      have hlo' := hzok.lo
      unfold Volume.bitOf at he
      exact hsl (h.one sl p d dp hl' hp h0 (by omega))
  · intro sl sl' d d' hl hl' h0 he
    obtain ⟨-, hm, hv⟩ := hval sl d hl h0
    obtain ⟨-, hm', hv'⟩ := hval sl' d' hl' (he ▸ h0)
    rw [hv] at h0 he
    exact h.one sl sl' d d' hm hm' h0 (he.trans hv')

end Zones
end Minix
end Fs
end Linux095
