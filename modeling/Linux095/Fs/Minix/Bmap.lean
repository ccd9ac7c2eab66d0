import Linux095.Fs.Minix.Zones

/-!
# `Fs.Minix.Bmap` — a file as its blocks (`fs/minix/inode.c`)

* `slotPath`, `zoneAt`, `blockZone`, `blockByte` — what a file holds, read off its slots: a block without a zone
  reads as zeros;
* `newBlock_zero`, `newBlock_new` — `minix_new_block` fails when no zone is free, and else gives a zone that no
  slot names, full of zeros;
* `zoneAt_inj` — two blocks of files are never in one zone;
* `slotZone_grows`, `bmap_grows` — **`_bmap` changes no byte of any file**, keeps `Owned` and returns the zone of
  the block.
-/

namespace Linux095
namespace Fs
namespace Minix
namespace Zones

/-! ## The blocks of a file -/

/-- The first block number `_bmap` panics on. -/
def maxBlock : Nat := 7 + 512 + 512 * 512

/-- The way to a block of a file: the slot of the inode and the entries from there, the last one first. -/
def slotPath (b : Nat) : Nat × List Nat :=
  if b < 7 then (b, [])
  else if b - 7 < 512 then (7, [b - 7])
  else (8, [(b - 7 - 512) % 512, (b - 7 - 512) / 512])

/-- The zone at the end of a way; 0 when some zone on it is missing. -/
def zoneAt (s : Volume) (ino k0 : Nat) : List Nat → Nat
  | [] => s.val (.data ino k0)
  | k :: ks => if zoneAt s ino k0 ks = 0 then 0 else s.val (.entry (zoneAt s ino k0 ks) k)

/-- The slot at the end of a way. -/
def slotAt (s : Volume) (ino k0 : Nat) : List Nat → Slot
  | [] => .data ino k0
  | k :: ks => .entry (zoneAt s ino k0 ks) k

/-- The zones on the way are there. -/
def Reached (s : Volume) (ino k0 : Nat) : List Nat → Prop
  | [] => True
  | _ :: ks => zoneAt s ino k0 ks ≠ 0

/-- The zone of block `b` of a file, or 0. -/
def blockZone (s : Volume) (ino b : Nat) : Nat := zoneAt s ino (slotPath b).1 (slotPath b).2

/-- Byte `o` of block `b` of a file. -/
def blockByte (s : Volume) (ino b o : Nat) : Byte :=
  if blockZone s ino b = 0 then 0 else s.block (blockZone s ino b) o

/-- A way that the inode has, with `d` levels of blocks below its end. -/
structure PathOk (k0 : Nat) (ks : List Nat) (d : Nat) : Prop where
  top : (k0 < 7 ∧ ks.length + d = 0) ∨ (k0 = 7 ∧ ks.length + d = 1) ∨ (k0 = 8 ∧ ks.length + d = 2)
  entries : ∀ k ∈ ks, k < 512

theorem PathOk.tail {k0 k d : Nat} {ks : List Nat} (h : PathOk k0 (k :: ks) d) : PathOk k0 ks (d + 1) where
  top := by
    have := h.top
    simp only [List.length_cons] at this
    omega
  entries j hj := h.entries j (List.mem_cons_of_mem _ hj)

theorem slotPath_ok {b : Nat} (hb : b < maxBlock) : PathOk (slotPath b).1 (slotPath b).2 0 := by
  unfold maxBlock at hb
  unfold slotPath
  by_cases h7 : b < 7
  · rw [if_pos h7]
    exact ⟨.inl ⟨h7, rfl⟩, by simp⟩
  · rw [if_neg h7]
    by_cases h512 : b - 7 < 512
    · rw [if_pos h512]
      exact ⟨.inr (.inl ⟨rfl, rfl⟩), by simpa using h512⟩
    · rw [if_neg h512]
      refine ⟨.inr (.inr ⟨rfl, rfl⟩), ?_⟩
      intro k hk
      simp only [List.mem_cons, List.not_mem_nil, or_false] at hk
      omega

theorem slotPath_inj {b b' : Nat} (h : slotPath b = slotPath b') : b = b' := by
  unfold slotPath at h
  split at h <;> split at h <;> (try split at h) <;> (try split at h) <;>
    simp only [Prod.mk.injEq, List.cons.injEq, List.nil_eq, reduceCtorEq, and_true, and_false, true_and]
      at h <;> omega

theorem val_slotAt {s : Volume} {ino k0 : Nat} {ks : List Nat} (h : Reached s ino k0 ks) :
    s.val (slotAt s ino k0 ks) = zoneAt s ino k0 ks := by
  cases ks with
  | nil => rfl
  | cons k ks => exact (if_neg h).symm

theorem reached_of_ne {s : Volume} {ino k0 : Nat} {ks : List Nat} (h : zoneAt s ino k0 ks ≠ 0) :
    Reached s ino k0 ks := by
  cases ks with
  | nil => trivial
  | cons k ks =>
      intro h0
      exact h (if_pos h0)

theorem live_slotAt {s : Volume} {ino k0 : Nat} {ks : List Nat} {d : Nat} (hp : PathOk k0 ks d)
    (hr : Reached s ino k0 ks) : Live s (slotAt s ino k0 ks) d := by
  induction ks generalizing d with
  | nil =>
      rcases hp.top with ⟨hk, hd⟩ | ⟨rfl, hd⟩ | ⟨rfl, hd⟩
      · obtain rfl : d = 0 := by simpa using hd
        exact .direct ino hk
      · obtain rfl : d = 1 := by simpa using hd
        exact .single ino
      · obtain rfl : d = 2 := by simpa using hd
        exact .double ino
  | cons k ks ih =>
      have hr' := reached_of_ne hr
      exact .entry (ih hp.tail hr') (val_slotAt hr') hr (hp.entries k (List.mem_cons_self ..))

theorem not_entry_zoneAt {s : Volume} (h : Owned s) {ino k0 : Nat} {ks : List Nat} (hp : PathOk k0 ks 0)
    (h0 : zoneAt s ino k0 ks ≠ 0) {k d : Nat} : ¬ Live s (.entry (zoneAt s ino k0 ks) k) d := by
  have hr := reached_of_ne h0
  rw [← val_slotAt hr] at h0 ⊢
  exact h.not_entry (live_slotAt hp hr) h0

theorem refs_zoneAt {s : Volume} {ino k0 : Nat} {ks : List Nat} {d : Nat} (hp : PathOk k0 ks d)
    (h0 : zoneAt s ino k0 ks ≠ 0) : Refs s (zoneAt s ino k0 ks) :=
  ⟨_, d, live_slotAt hp (reached_of_ne h0), val_slotAt (reached_of_ne h0)⟩

/-- **Two ways do not lead to one zone.** -/
theorem zoneAt_inj {s : Volume} (h : Owned s) {ino ino' k0 k0' d d' : Nat} {ks ks' : List Nat}
    (hp : PathOk k0 ks d) (hp' : PathOk k0' ks' d') (h0 : zoneAt s ino k0 ks ≠ 0)
    (he : zoneAt s ino k0 ks = zoneAt s ino' k0' ks') : ino = ino' ∧ k0 = k0' ∧ ks = ks' := by
  induction ks generalizing d d' ks' with
  | nil =>
      have hr' := reached_of_ne (he ▸ h0)
      have hsl : Slot.data ino k0 = slotAt s ino' k0' ks' :=
        h.one _ _ _ _ (live_slotAt hp trivial) (live_slotAt hp' hr') h0 (he.trans (val_slotAt hr').symm)
      cases ks' with
      | nil =>
          obtain ⟨rfl, rfl⟩ := Slot.data.inj hsl
          exact ⟨rfl, rfl, rfl⟩
      | cons k' ks' => cases hsl
  | cons k ks ih =>
      have hr := reached_of_ne h0
      have hr' := reached_of_ne (he ▸ h0)
      have hsl : slotAt s ino k0 (k :: ks) = slotAt s ino' k0' ks' :=
        h.one _ _ _ _ (live_slotAt hp hr) (live_slotAt hp' hr') (by rw [val_slotAt hr]; exact h0)
          (by rw [val_slotAt hr, val_slotAt hr', he])
      cases ks' with
      | nil => cases hsl
      | cons k' ks' =>
          obtain ⟨hz, rfl⟩ := Slot.entry.inj hsl
          obtain ⟨rfl, rfl, rfl⟩ := ih hp.tail hp'.tail hr hz
          exact ⟨rfl, rfl, rfl⟩

theorem blockZone_inj {s : Volume} (h : Owned s) {ino ino' b b' : Nat} (hb : b < maxBlock) (hb' : b' < maxBlock)
    (h0 : blockZone s ino b ≠ 0) (he : blockZone s ino b = blockZone s ino' b') : ino = ino' ∧ b = b' := by
  obtain ⟨hi, hk, hks⟩ := zoneAt_inj h (slotPath_ok hb) (slotPath_ok hb') h0 he
  exact ⟨hi, slotPath_inj (Prod.ext hk hks)⟩

/-- The ways are those of before when the live slots are. -/
theorem zoneAt_of_vals {s s' : Volume} (hv : ∀ sl d, Live s sl d → s'.val sl = s.val sl) {ino k0 : Nat}
    {ks : List Nat} {d : Nat} (hp : PathOk k0 ks d) : zoneAt s' ino k0 ks = zoneAt s ino k0 ks := by
  induction ks generalizing d with
  | nil => exact hv _ _ (live_slotAt hp trivial : Live s (slotAt s ino k0 []) d)
  | cons k ks ih =>
      unfold zoneAt
      rw [ih hp.tail]
      by_cases h0 : zoneAt s ino k0 ks = 0
      · rw [if_pos h0, if_pos h0]
      · rw [if_neg h0, if_neg h0]
        exact hv _ _ (live_slotAt hp h0 : Live s (slotAt s ino k0 (k :: ks)) d)

/-- A zone put in an empty slot is at the end of the way to that slot, and nothing else changes. -/
theorem zoneAt_attach {s : Volume} {p : Slot} {dp z : Nat} (hlp : Live s p dp) (hp0 : s.val p = 0)
    (hfresh : ¬ Refs s z) (h16 : z < 65536) (hzero : ∀ k, s.val (.entry z k) = 0) (ino : Nat) {k0 : Nat}
    {ks : List Nat} {d : Nat} (hp : PathOk k0 ks d) :
    zoneAt (s.setVal p z) ino k0 ks = zoneAt s ino k0 ks ∨
      (zoneAt s ino k0 ks = 0 ∧ zoneAt (s.setVal p z) ino k0 ks = z) := by
  induction ks generalizing d with
  | nil =>
      by_cases he : Slot.data ino k0 = p
      · refine .inr ⟨?_, ?_⟩
        · show s.val (.data ino k0) = 0
          rw [he, hp0]
        · show (s.setVal p z).val (.data ino k0) = z
          rw [he, val_setVal_self s h16]
      · exact .inl (val_setVal_ne s z he)
  | cons k ks ih =>
      unfold zoneAt
      rcases ih hp.tail with he | ⟨h0, hz⟩
      · rw [he]
        by_cases h0 : zoneAt s ino k0 ks = 0
        · rw [if_pos h0, if_pos h0]
          exact .inl rfl
        · rw [if_neg h0, if_neg h0]
          by_cases hep : Slot.entry (zoneAt s ino k0 ks) k = p
          · rw [hep]
            exact .inr ⟨hp0, val_setVal_self s h16⟩
          · exact .inl (val_setVal_ne s z hep)
      · rw [hz, if_pos h0]
        refine .inl ?_
        by_cases hz0 : z = 0
        · exact if_pos hz0
        · rw [if_neg hz0, val_setVal_ne s z ?_, hzero]
          rintro rfl
          exact not_live_of_not_refs hfresh k dp hlp

/-! ## `minix_new_block` -/

/-- No zone the map covers is free. -/
def Full (s : Volume) : Prop :=
  ∀ n < s.sZmapBlocks * 8192, s.zmap n = false → s.sNzones.toNat ≤ n + s.sFirstdatazone.toNat - 1

theorem Full.of_bits {s s' : Volume} (h : Full s) (hg : SameGeometry s s')
    (hb : ∀ n, s.zmap n = true → s'.zmap n = true) : Full s' := by
  intro n hn hclear
  rw [hg.nzones, hg.firstdatazone]
  refine h n (hg.zmapBlocks ▸ hn) ?_
  cases hz : s.zmap n with
  | false => rfl
  | true => rw [hb n hz] at hclear; cases hclear

theorem zmap_setBit_true (s : Volume) (n m : Nat) (h : s.zmap m = true) : (s.setBit n true).zmap m = true := by
  by_cases hm : m = n
  · exact if_pos hm
  · exact (if_neg hm).trans h

/-- The scan finds the lowest clear bit. -/
theorem firstClear_some {s : Volume} {n : Nat} (h : s.firstClear = some n) :
    n < s.sZmapBlocks * 8192 ∧ s.zmap n = false ∧ ∀ m < n, s.zmap m = true := by
  unfold Volume.firstClear at h
  rw [List.find?_range_eq_some] at h
  obtain ⟨hn, hlt, hm⟩ := h
  refine ⟨by simpa using hlt, by simpa using hn, ?_⟩
  intro m hmn
  simpa using hm m hmn

theorem firstClear_none {s : Volume} (h : s.firstClear = none) : ∀ n < s.sZmapBlocks * 8192, s.zmap n = true := by
  intro n hn
  unfold Volume.firstClear at h
  rw [List.find?_range_eq_none] at h
  simpa using h n hn

/-- `minix_new_block` fails when no zone is free; it may have set a bit beyond the zones. -/
theorem newBlock_zero {s : Volume} (h : Owned s) (h0 : s.newBlock.1 = 0) :
    Full s ∧ ∃ t, s.newBlock.2 = { s with zmap := t } ∧ ∀ n, s.zmap n = true → t n = true := by
  unfold Volume.newBlock at h0 ⊢
  cases hf : s.firstClear with
  | none =>
      refine ⟨?_, s.zmap, rfl, fun _ hn => hn⟩
      intro n hn hclear
      rw [firstClear_none hf n hn] at hclear
      cases hclear
  | some n =>
      obtain ⟨-, hclear, hbelow⟩ := firstClear_some hf
      rw [hf] at h0
      dsimp only at h0 ⊢
      by_cases hz : s.sNzones.toNat ≤ n + s.sFirstdatazone.toNat - 1
      · rw [if_pos hz]
        refine ⟨?_, _, rfl, fun m hm => zmap_setBit_true s n m hm⟩
        intro m _ hm
        have : n ≤ m := by
          by_contra hlt
          rw [hbelow m (by omega)] at hm
          cases hm
        omega
      · rw [if_neg hz] at h0
        have := h.first
        have hn : n ≠ 0 := by
          rintro rfl
          rw [h.reserved] at hclear
          cases hclear
        dsimp only at h0
        omega

/-- What `minix_new_block` hands out. -/
structure NewZone (s s' : Volume) (z : Nat) : Prop where
  ne : z ≠ 0
  fits : z < 65536
  state : s' = (s.setBit (s.bitOf z) true).setBlock z fun _ => 0
  free : s.zmap (s.bitOf z) = false
  lo : s.sFirstdatazone.toNat ≤ z
  hi : z < s.sNzones.toNat

/-- A zone with a clear bit is named by no slot. -/
theorem Owned.not_refs {s : Volume} (h : Owned s) {z : Nat} (hz : z ≠ 0) (hfree : s.zmap (s.bitOf z) = false) :
    ¬ Refs s z := by
  rintro ⟨sl, d, hl, rfl⟩
  have := (h.zone sl d hl hz).bit
  rw [hfree] at this
  cases this

theorem newBlock_new {s : Volume} (h : Owned s) (h0 : s.newBlock.1 ≠ 0) : NewZone s s.newBlock.2 s.newBlock.1 := by
  unfold Volume.newBlock at h0 ⊢
  cases hf : s.firstClear with
  | none =>
      rw [hf] at h0
      exact absurd rfl h0
  | some n =>
      obtain ⟨-, hclear, -⟩ := firstClear_some hf
      rw [hf] at h0
      dsimp only at h0 ⊢
      by_cases hz : s.sNzones.toNat ≤ n + s.sFirstdatazone.toNat - 1
      · rw [if_pos hz] at h0
        exact absurd rfl h0
      · rw [if_neg hz]
        have hfst := h.first
        have hn : n ≠ 0 := by
          rintro rfl
          rw [h.reserved] at hclear
          cases hclear
        have hbit : s.bitOf (n + s.sFirstdatazone.toNat - 1) = n := by
          unfold Volume.bitOf
          omega
        have hlt := s.sNzones.isLt
        dsimp only
        refine ⟨by omega, by omega, ?_, ?_, by omega, by omega⟩
        · rw [hbit]
        · rw [hbit]
          exact hclear

section
variable {s s' : Volume} {z : Nat} (hn : NewZone s s' z)
include hn

theorem NewZone.geometry : SameGeometry s s' := by
  rw [hn.state]
  exact ⟨rfl, rfl, rfl⟩

theorem NewZone.bits (n : Nat) (hb : s.zmap n = true) : s'.zmap n = true := by
  rw [hn.state]
  exact zmap_setBit_true s _ n hb

theorem NewZone.zeros (k : Nat) : s'.val (.entry z k) = 0 := by
  rw [hn.state]
  exact val_setBlock_zero _ z k

theorem NewZone.block_ne {w : Nat} (hw : w ≠ z) : s'.block w = s.block w := by
  rw [hn.state]
  exact if_neg hw

theorem NewZone.block_self (o : Nat) : s'.block z o = 0 := by
  rw [hn.state]
  exact congrFun (if_pos rfl) o

theorem NewZone.ok : ZoneOk s' z where
  lo := hn.geometry.firstdatazone ▸ hn.lo
  hi := hn.geometry.nzones ▸ hn.hi
  bit := by
    rw [hn.geometry.bitOf, hn.state]
    exact if_pos rfl

variable (h : Owned s)
include h

theorem NewZone.not_refs_before : ¬ Refs s z := h.not_refs hn.ne hn.free

theorem NewZone.vals (sl : Slot) (d : Nat) (hl : Live s sl d) : s'.val sl = s.val sl := by
  have hsame : ∀ sl d, Live s sl d → (s.setBit (s.bitOf z) true).val sl = s.val sl := fun _ _ _ => by rw [val_setBit]
  rw [hn.state, val_setBlock ?_ _ sl d ((Live.iff_of_vals hsame).mpr hl), val_setBit]
  intro k e hk
  exact not_live_of_not_refs (hn.not_refs_before h) k e ((Live.iff_of_vals hsame).mp hk)

theorem NewZone.owned : Owned s' := h.of_vals hn.geometry (hn.vals h) hn.bits

theorem NewZone.not_refs : ¬ Refs s' z := fun hz => hn.not_refs_before h (hz.of_vals (hn.vals h))

end

/-! ## `_bmap` -/

/-- What `_bmap` may do to a volume: put new zones in empty slots, so that no byte of a file changes. -/
structure Grows (s s' : Volume) : Prop where
  owned : Owned s'
  geometry : SameGeometry s s'
  live : ∀ sl d, Live s sl d → Live s' sl d
  keep : ∀ sl d, Live s sl d → s.val sl ≠ 0 → s'.val sl = s.val sl
  bits : ∀ n, s.zmap n = true → s'.zmap n = true
  bytes : ∀ ino b o, b < maxBlock → blockByte s' ino b o = blockByte s ino b o

theorem Grows.refl {s : Volume} (h : Owned s) : Grows s s :=
  ⟨h, .refl s, fun _ _ hl => hl, fun _ _ _ _ => rfl, fun _ hb => hb, fun _ _ _ _ => rfl⟩

theorem Grows.trans {s t u : Volume} (h : Grows s t) (h' : Grows t u) : Grows s u where
  owned := h'.owned
  geometry := h.geometry.trans h'.geometry
  live sl d hl := h'.live sl d (h.live sl d hl)
  keep sl d hl h0 := by
    have he := h.keep sl d hl h0
    rw [h'.keep sl d (h.live sl d hl) (he ▸ h0), he]
  bits n hb := h'.bits n (h.bits n hb)
  bytes ino b o hb := (h'.bytes ino b o hb).trans (h.bytes ino b o hb)

theorem Grows.zoneAt_eq {s s' : Volume} (h : Grows s s') {ino k0 : Nat} {ks : List Nat} {d : Nat}
    (hp : PathOk k0 ks d) (h0 : zoneAt s ino k0 ks ≠ 0) : zoneAt s' ino k0 ks = zoneAt s ino k0 ks := by
  induction ks generalizing d with
  | nil => exact h.keep _ _ (live_slotAt hp trivial : Live s (slotAt s ino k0 []) d) h0
  | cons k ks ih =>
      have hr := reached_of_ne h0
      have hv := val_slotAt hr
      have hl := live_slotAt hp hr
      have htail := ih hp.tail hr
      unfold slotAt at hv hl
      unfold zoneAt
      rw [htail, if_neg hr, if_neg hr]
      exact h.keep _ _ hl (by rw [hv]; exact h0)

/-- Bits set and blocks written that no slot names. -/
theorem Grows.of_vals {s s' : Volume} (h : Owned s) (hg : SameGeometry s s')
    (hv : ∀ sl d, Live s sl d → s'.val sl = s.val sl) (hb : ∀ n, s.zmap n = true → s'.zmap n = true)
    (hblock : ∀ z, Refs s z → s'.block z = s.block z) : Grows s s' where
  owned := h.of_vals hg hv hb
  geometry := hg
  live _ _ hl := (Live.iff_of_vals hv).mpr hl
  keep sl d hl _ := hv sl d hl
  bits := hb
  bytes ino b o hlt := by
    have hz : blockZone s' ino b = blockZone s ino b := zoneAt_of_vals hv (slotPath_ok hlt)
    unfold blockByte
    rw [hz]
    by_cases h0 : blockZone s ino b = 0
    · rw [if_pos h0, if_pos h0]
    · have hr : Refs s (blockZone s ino b) := refs_zoneAt (slotPath_ok hlt) h0
      rw [if_neg h0, if_neg h0, hblock _ hr]

/-- A zone full of zeros put in an empty slot. -/
theorem Grows.attach {s : Volume} (h : Owned s) {p : Slot} {dp z : Nat} (hp : Live s p dp) (hp0 : s.val p = 0)
    (hz : ZoneOk s z) (hfresh : ¬ Refs s z) (h16 : z < 65536) (hzero : ∀ o, s.block z o = 0) :
    Grows s (s.setVal p z) where
  owned := h.attach hp hp0 hz hfresh h16 fun k => by simp [Volume.val, hzero]
  geometry := ⟨by simp, by simp, by simp⟩
  live _ _ hl := hl.attach hp0
  keep sl d hl h0 := by
    refine val_setVal_ne s z ?_
    rintro rfl
    exact h0 hp0
  bits n hb := by simpa using hb
  bytes ino b o hlt := by
    have hok := slotPath_ok hlt
    -- a block of data is not the block of zone numbers that the slot is in
    have hsame : ∀ w, (∀ k d, ¬ Live s (.entry w k) d) → (s.setVal p z).block w = s.block w := by
      intro w hw
      cases p with
      | data i k => exact congrFun (block_setVal_data s i k z) w
      | entry x k =>
          refine block_setVal_ne s ?_
          rintro rfl
          exact hw k dp hp
    have hzeros : ∀ k, s.val (.entry z k) = 0 := fun k => by simp [Volume.val, hzero]
    unfold blockByte blockZone
    rcases zoneAt_attach hp hp0 hfresh h16 hzeros ino hok with he | ⟨h0, hz'⟩
    · rw [he]
      by_cases h0 : zoneAt s ino (slotPath b).1 (slotPath b).2 = 0
      · rw [if_pos h0, if_pos h0]
      · rw [if_neg h0, if_neg h0, hsame _ fun k d => not_entry_zoneAt h hok h0]
    · rw [hz', h0, if_pos rfl, hsame z (not_live_of_not_refs hfresh), hzero]
      split <;> rfl

/-- **One level of `_bmap`** changes no byte, and returns what the slot then holds. -/
theorem slotZone_grows {s : Volume} (h : Owned s) {p : Slot} {dp : Nat} (hp : Live s p dp) (create : Bool) :
    Grows s (Volume.slotZone create p s).2 ∧
      (Volume.slotZone create p s).2.val p = (Volume.slotZone create p s).1 ∧
      (create = true → (Volume.slotZone create p s).1 = 0 → Full (Volume.slotZone create p s).2) := by
  unfold Volume.slotZone
  by_cases hc : create = true ∧ s.val p = 0
  · rw [if_pos hc]
    by_cases h0 : s.newBlock.1 = 0
    · obtain ⟨hfull, t, hs, hb⟩ := newBlock_zero h h0
      have hv : ∀ sl, s.newBlock.2.val sl = s.val sl := by
        intro sl
        rw [hs]
        cases sl <;> rfl
      have hg : SameGeometry s s.newBlock.2 := by
        rw [hs]
        exact ⟨rfl, rfl, rfl⟩
      have hbits : ∀ n, s.zmap n = true → s.newBlock.2.zmap n = true := by
        rw [hs]
        exact hb
      dsimp only
      rw [if_neg (not_not.mpr h0)]
      refine ⟨.of_vals h hg (fun sl _ _ => hv sl) hbits ?_, (hv p).trans hc.2, fun _ _ => hfull.of_bits hg hbits⟩
      rw [hs]
      exact fun _ _ => rfl
    · have hn := newBlock_new h h0
      have hg : Grows s s.newBlock.2 := .of_vals h hn.geometry (hn.vals h) hn.bits fun w hw =>
        hn.block_ne fun he => hn.not_refs_before h (he ▸ hw)
      dsimp only
      rw [if_pos h0]
      refine ⟨hg.trans (.attach (hn.owned h) (hg.live p dp hp) ?_ hn.ok (hn.not_refs h) hn.fits hn.block_self),
        val_setVal_self _ hn.fits, fun _ he => absurd he hn.ne⟩
      rw [hn.vals h p dp hp, hc.2]
  · rw [if_neg hc]
    exact ⟨.refl h, rfl, fun hcr h0 => absurd ⟨hcr, h0⟩ hc⟩

theorem slotZone_false (p : Slot) (s : Volume) : Volume.slotZone false p s = (s.val p, s) := if_neg (by simp)

/-- The same along a way: the level after `ks` was reached. -/
theorem level_grows {s : Volume} (h : Owned s) (ino : Nat) {k0 : Nat} {ks : List Nat} {d : Nat} (hp : PathOk k0 ks d)
    (hr : Reached s ino k0 ks) (create : Bool) :
    Grows s (Volume.slotZone create (slotAt s ino k0 ks) s).2 ∧
      zoneAt (Volume.slotZone create (slotAt s ino k0 ks) s).2 ino k0 ks =
        (Volume.slotZone create (slotAt s ino k0 ks) s).1 ∧
      (create = true → (Volume.slotZone create (slotAt s ino k0 ks) s).1 = 0 →
        Full (Volume.slotZone create (slotAt s ino k0 ks) s).2) := by
  obtain ⟨hg, hv, hfull⟩ := slotZone_grows h (live_slotAt hp hr) create
  refine ⟨hg, ?_, hfull⟩
  rw [← hv]
  cases ks with
  | nil => rfl
  | cons k ks =>
      have hz := hg.zoneAt_eq hp.tail hr
      unfold zoneAt
      rw [hz, if_neg hr]
      rfl

/-- What `_bmap` has done when it returns `z`. -/
structure Mapped (create : Bool) (ino b : Nat) (s : Volume) (z : Nat) (s' : Volume) : Prop where
  grows : Grows s s'
  zone : z = blockZone s' ino b
  full : create = true → z = 0 → Full s'

/-- **`_bmap`** changes no byte of any file and returns the zone of the block. -/
theorem bmap_grows {s : Volume} (h : Owned s) (create : Bool) (ino : Nat) {b : Nat} (hb : b < maxBlock) :
    ∃ z s', Volume.bmap create ino b s = some (z, s') ∧ Mapped create ino b s z s' := by
  have hway := slotPath_ok hb
  unfold maxBlock at hb
  unfold Volume.bmap
  rw [if_neg (by omega)]
  by_cases h7 : b < 7
  · rw [if_pos h7]
    have hpath : slotPath b = (b, []) := if_pos h7
    have hok : PathOk b [] 0 := by rwa [hpath] at hway
    obtain ⟨hg, hz, hfull⟩ := level_grows h ino hok trivial create
    refine ⟨_, _, rfl, hg, ?_, hfull⟩
    unfold blockZone
    rw [hpath]
    exact hz.symm
  · rw [if_neg h7]
    by_cases h512 : b - 7 < 512
    · rw [if_pos h512]
      have hpath : slotPath b = (7, [b - 7]) := by
        unfold slotPath
        rw [if_neg h7, if_pos h512]
      have hok : PathOk 7 [b - 7] 0 := by rwa [hpath] at hway
      obtain ⟨hg, hz, hfull⟩ := level_grows h ino hok.tail trivial create
      simp only [slotAt] at hg hz hfull
      dsimp only
      by_cases h0 : (Volume.slotZone create (.data ino 7) s).1 = 0
      · rw [if_pos h0]
        refine ⟨_, _, rfl, hg, ?_, fun hc _ => hfull hc h0⟩
        unfold blockZone
        rw [hpath]
        exact (if_pos (hz.trans h0)).symm
      · rw [if_neg h0]
        obtain ⟨hg', hz', hfull'⟩ := level_grows hg.owned ino hok (fun he => h0 (hz.symm.trans he)) create
        simp only [slotAt] at hg' hz' hfull'
        rw [hz] at hg' hz' hfull'
        refine ⟨_, _, rfl, hg.trans hg', ?_, hfull'⟩
        unfold blockZone
        rw [hpath]
        exact hz'.symm
    · rw [if_neg h512]
      have hpath : slotPath b = (8, [(b - 7 - 512) % 512, (b - 7 - 512) / 512]) := by
        unfold slotPath
        rw [if_neg h7, if_neg h512]
      have hok : PathOk 8 [(b - 7 - 512) % 512, (b - 7 - 512) / 512] 0 := by rwa [hpath] at hway
      obtain ⟨hg, hz, hfull⟩ := level_grows h ino hok.tail.tail trivial create
      simp only [slotAt] at hg hz hfull
      dsimp only
      by_cases h0 : (Volume.slotZone create (.data ino 8) s).1 = 0
      · rw [if_pos h0]
        refine ⟨_, _, rfl, hg, ?_, fun hc _ => hfull hc h0⟩
        unfold blockZone
        rw [hpath]
        exact (if_pos (if_pos (hz.trans h0))).symm
      · rw [if_neg h0]
        obtain ⟨hg', hz', hfull'⟩ := level_grows hg.owned ino hok.tail (fun he => h0 (hz.symm.trans he)) create
        simp only [slotAt] at hg' hz' hfull'
        rw [hz] at hg' hz' hfull'
        set r := Volume.slotZone create (.entry (Volume.slotZone create (.data ino 8) s).1 ((b - 7 - 512) / 512))
          (Volume.slotZone create (.data ino 8) s).2 with hr
        by_cases h1 : r.1 = 0
        · rw [if_pos h1]
          refine ⟨_, _, rfl, hg.trans hg', ?_, fun hc _ => hfull' hc h1⟩
          unfold blockZone
          rw [hpath]
          exact (if_pos (hz'.trans h1)).symm
        · rw [if_neg h1]
          obtain ⟨hg'', hz'', hfull''⟩ := level_grows hg'.owned ino hok (fun he => h1 (hz'.symm.trans he)) create
          simp only [slotAt] at hg'' hz'' hfull''
          rw [hz'] at hg'' hz'' hfull''
          refine ⟨_, _, rfl, (hg.trans hg').trans hg'', ?_, hfull''⟩
          unfold blockZone
          rw [hpath]
          exact hz''.symm

/-- Looking a block up changes nothing. -/
theorem bmap_false {s : Volume} (ino : Nat) {b : Nat} (hb : b < maxBlock) :
    Volume.bmap false ino b s = some (blockZone s ino b, s) := by
  unfold maxBlock at hb
  unfold Volume.bmap blockZone slotPath
  rw [if_neg (by omega)]
  simp only [slotZone_false]
  split
  · rfl
  · split
    · by_cases h0 : s.val (.data ino 7) = 0
      · simp [zoneAt, h0]
      · simp [zoneAt, h0]
    · by_cases h0 : s.val (.data ino 8) = 0
      · simp [zoneAt, h0]
      · by_cases h1 : s.val (.entry (s.val (.data ino 8)) ((b - 7 - 512) / 512)) = 0
        · simp [zoneAt, h0, h1]
        · simp [zoneAt, h0, h1]

/-- A block that has a zone is found, `create` or not. -/
theorem bmap_present {s : Volume} {ino b : Nat} (create : Bool) (hb : b < maxBlock) (h0 : blockZone s ino b ≠ 0) :
    Volume.bmap create ino b s = some (blockZone s ino b, s) := by
  have hslot : ∀ sl, s.val sl ≠ 0 → Volume.slotZone create sl s = (s.val sl, s) := fun sl h => if_neg fun hc => h hc.2
  unfold maxBlock at hb
  unfold blockZone slotPath at h0 ⊢
  unfold Volume.bmap
  rw [if_neg (by omega)]
  by_cases h7 : b < 7
  · simp only [h7, if_true, zoneAt] at h0 ⊢
    rw [hslot _ h0]
  · by_cases h512 : b - 7 < 512
    · simp only [h7, h512, if_true, if_false, zoneAt] at h0 ⊢
      by_cases h1 : s.val (.data ino 7) = 0
      · simp [h1] at h0
      · simp only [h1, if_false] at h0 ⊢
        rw [hslot _ h1]
        dsimp only
        rw [if_neg h1, hslot _ h0]
    · simp only [h7, h512, if_false, zoneAt] at h0 ⊢
      by_cases h1 : s.val (.data ino 8) = 0
      · simp [h1] at h0
      · simp only [h1, if_false] at h0 ⊢
        by_cases h2 : s.val (.entry (s.val (.data ino 8)) ((b - 7 - 512) / 512)) = 0
        · simp [h2] at h0
        · simp only [h2, if_false] at h0 ⊢
          rw [hslot _ h1]
          dsimp only
          rw [if_neg h1, hslot _ h2]
          dsimp only
          rw [if_neg h2, hslot _ h0]

end Zones
end Minix
end Fs
end Linux095
