import Linux095.Fs.Minix.FileDev

/-!
# `Fs.Minix.Truncate` — giving zones back (`fs/minix/truncate.c`, `bitmap.c`)

`minix_free_block` refuses a zone whose buffer somebody else holds, and `minix_truncate` tries again after a
`schedule()`. What is refused in one pass, and what a freed block then holds, is an `Env`.

* `freeBlock`, `freeInd`, `freeDind`, `truncatePass`, `minixTruncate`, `minixFreeInode` — the source's functions;
* `Frees` — freeing the zone of a slot, with the blocks below it, keeps `Owned` once the slot is emptied, and leaves
  the levels above alone; `freeTree_frees` goes up one level;
* `ownership` — **no operation ever puts a zone in two slots**, names a free one or panics on one.
-/

namespace Linux095
namespace Fs
namespace Minix
namespace Truncate

open Zones FileDev

/-- What a pass does not control. -/
structure Env where
  /-- `b_count > 1` in `minix_free_block`. -/
  busy : Nat → Bool
  /-- What a block holds after `b_uptodate = 0`. -/
  junk : Nat → Nat → Byte

/-- `minix_free_block`; freeing a block that is not in the data zone is a panic. -/
def freeBlock (env : Env) (z : Nat) (s : Volume) : Option (Bool × Volume) :=
  if z < s.sFirstdatazone.toNat ∨ s.sNzones.toNat ≤ z then none
  else if env.busy z then some (false, s)
  else some (true, (s.setBit (s.bitOf z) false).setBlock z (env.junk z))

/-- `for (..) if (*p) if (free(*p)) *p = 0; else block_busy = 1;` over the slots `p`. -/
def freeSlots (free : Nat → Volume → Option (Bool × Volume)) : List Slot → Bool → Volume → Option (Bool × Volume)
  | [], busy, s => some (busy, s)
  | p :: ps, busy, s =>
      if s.val p = 0 then freeSlots free ps busy s
      else
        match free (s.val p) s with
        | none => none
        | some (true, s') => freeSlots free ps busy (s'.setVal p 0)
        | some (false, s') => freeSlots free ps true s'

/-- The entries of a block, and then the block. -/
def freeTree (env : Env) (free : Nat → Volume → Option (Bool × Volume)) (block : Nat) (s : Volume) :
    Option (Bool × Volume) :=
  if block = 0 then some (true, s)
  else
    match freeSlots free ((List.range 512).map (.entry block)) false s with
    | none => none
    | some (true, s') => some (false, s')
    | some (false, s') => freeBlock env block s'

/-- `minix_free_ind`. -/
def freeInd (env : Env) : Nat → Volume → Option (Bool × Volume) := freeTree env (freeBlock env)

/-- `minix_free_dind`. -/
def freeDind (env : Env) : Nat → Volume → Option (Bool × Volume) := freeTree env (freeInd env)

/-- `if (free(inode->i_data[k])) inode->i_data[k] = 0; else block_busy = 1;`. -/
def freeTop (free : Nat → Volume → Option (Bool × Volume)) (ino k : Nat) (busy : Bool) (s : Volume) :
    Option (Bool × Volume) :=
  match free (s.val (.data ino k)) s with
  | none => none
  | some (true, s') => some (busy, s'.setVal (.data ino k) 0)
  | some (false, s') => some (true, s')

/-- The body of the loop of `minix_truncate`; true when it has to go again. -/
def truncatePass (env : Env) (ino : Nat) (s : Volume) : Option (Bool × Volume) := do
  let (busy, s) ← freeSlots (freeBlock env) ((List.range 7).map (.data ino)) false s
  let (busy, s) ← freeTop (freeInd env) ino 7 busy s
  freeTop (freeDind env) ino 8 busy s

def S_IFMT : BitVec 16 := 0o170000#16
def S_IFLNK : BitVec 16 := 0o120000#16
def S_IFREG : BitVec 16 := 0o100000#16
def S_IFDIR : BitVec 16 := 0o040000#16

/-- `S_ISREG(mode) || S_ISDIR(mode) || S_ISLNK(mode)`. -/
def hasZones (mode : BitVec 16) : Bool :=
  mode &&& S_IFMT == S_IFREG || mode &&& S_IFMT == S_IFDIR || mode &&& S_IFMT == S_IFLNK

/-- `minix_truncate`, a pass for each `Env`. The list ends where the process is still in `schedule()`, if some block
    was busy in the last pass. -/
def minixTruncate (mode : BitVec 16) (ino : Nat) : List Env → Files → Option Files
  | [], s => some s
  | env :: envs, s =>
      if ¬ hasZones mode then some s
      else
        match truncatePass env ino s.vol with
        | none => none
        | some (true, vol) => minixTruncate mode ino envs { s with vol := vol }
        | some (false, vol) => some (setSize { s with vol := vol } ino 0)

/-- What `minix_free_inode` tests. -/
structure Head where
  iDev : Dev
  iIno : Ino
  iCount : BitVec 16
  iNlink : BitVec 16
  /-- `i_sb->s_ninodes`. -/
  sNinodes : Option (BitVec 16)
  /-- `i_sb->s_imap[i_ino >> 13]` is there. -/
  imap : Bool

/-- `memset(inode, 0, sizeof(*inode))`, as far as the file goes. -/
def memset (ino : Nat) (s : Files) : Files :=
  { vol := { s.vol with iData := fun i k => if i = ino then 0 else s.vol.iData i k }
    iSize := fun i => if i = ino then 0 else s.iSize i }

/-- `minix_free_inode`; the bit of the inode is not in the map of the zones. -/
def minixFreeInode (h : Head) (ino : Nat) (s : Files) : Files :=
  if h.iDev = 0 then memset ino s
  else if 1 < h.iCount.toNat then s
  else if h.iNlink ≠ 0 then s
  else
    match h.sNinodes with
    | none => s
    | some n =>
        if h.iIno < 1 ∨ n < h.iIno then s
        else if ¬ h.imap then s
        else memset ino s

/-! ## Freeing what is below a slot -/

/-- The slots with at least `d` levels below them are as they were. -/
structure Keeps (d : Nat) (s s' : Volume) : Prop where
  live : ∀ sl e, Live s sl e → d ≤ e → Live s' sl e
  val : ∀ sl e, Live s sl e → d ≤ e → s'.val sl = s.val sl

theorem Keeps.refl (d : Nat) (s : Volume) : Keeps d s s := ⟨fun _ _ hl _ => hl, fun _ _ _ _ => rfl⟩

theorem Keeps.trans {d : Nat} {s t u : Volume} (h : Keeps d s t) (h' : Keeps d t u) : Keeps d s u where
  live sl e hl hd := h'.live sl e (h.live sl e hl hd) hd
  val sl e hl hd := (h'.val sl e (h.live sl e hl hd) hd).trans (h.val sl e hl hd)

theorem Keeps.mono {d d' : Nat} {s s' : Volume} (h : Keeps d s s') (hd : d ≤ d') : Keeps d' s s' where
  live sl e hl he := h.live sl e hl (by omega)
  val sl e hl he := h.val sl e hl (by omega)

/-- Giving back the zone of a slot leaves the levels above alone. -/
theorem keeps_detach {s : Volume} (h : Owned s) {p : Slot} {d : Nat} (hp : Live s p d) (hp0 : s.val p ≠ 0)
    (f : Nat → Byte) :
    Keeps (d + 1) s (((s.setBit (s.bitOf (s.val p)) false).setBlock (s.val p) f).setVal p 0) := by
  have hval : ∀ sl e, Live s sl e → d + 1 ≤ e →
      (((s.setBit (s.bitOf (s.val p)) false).setBlock (s.val p) f).setVal p 0).val sl = s.val sl := by
    intro sl e hl he
    have hne : sl ≠ p := by
      rintro rfl
      have := h.level hp hl
      omega
    rw [val_setVal_ne _ 0 hne]
    cases sl with
    | data i k => rfl
    | entry w k =>
        refine val_setBlock_entry_ne _ f ?_
        rintro rfl
        obtain ⟨q, hq, hv, -, -⟩ := hl.entry_inv
        obtain rfl := h.one q p _ _ hq hp (hv ▸ hp0) hv
        have := h.level hp hq
        omega
  refine ⟨?_, hval⟩
  intro sl e hl he
  induction hl with
  | direct ino hk => exact .direct ino hk
  | single ino => exact .single ino
  | double ino => exact .double ino
  | @entry q e w k hq hw h0 hk ih => exact .entry (ih (by omega)) ((hval q _ hq (by omega)).trans hw) h0 hk

/-- **Freeing the zone of a slot with `d` levels below it**: if it succeeds, the slot may be emptied. -/
def Frees (d : Nat) (free : Nat → Volume → Option (Bool × Volume)) : Prop :=
  ∀ s p, Owned s → Live s p d → s.val p ≠ 0 →
    (∃ s', free (s.val p) s = some (true, s') ∧ Owned (s'.setVal p 0) ∧ Keeps (d + 1) s (s'.setVal p 0)) ∨
      (∃ s', free (s.val p) s = some (false, s') ∧ Owned s' ∧ Keeps (d + 1) s s')

theorem freeBlock_frees (env : Env) (d : Nat) : Frees d (freeBlock env) := by
  intro s p h hp hp0
  have hz := h.zone p d hp hp0
  have hlo := hz.lo
  have hhi := hz.hi
  unfold freeBlock
  rw [if_neg (by omega)]
  by_cases hb : env.busy (s.val p) = true
  · rw [if_pos hb]
    exact .inr ⟨s, rfl, h, .refl _ s⟩
  · rw [if_neg hb]
    exact .inl ⟨_, rfl, h.detach hp hp0 _, keeps_detach h hp hp0 _⟩

/-- Over several slots, which what is freed below them leaves alone. -/
theorem freeSlots_spec {d : Nat} {free : Nat → Volume → Option (Bool × Volume)} (hf : Frees d free) (ps : List Slot) :
    ∀ (busy : Bool) (s : Volume), Owned s → (∀ p ∈ ps, ∀ s', Keeps (d + 1) s s' → Live s' p d) →
      ∃ busy' s', freeSlots free ps busy s = some (busy', s') ∧ Owned s' ∧ Keeps (d + 1) s s' := by
  induction ps with
  | nil =>
      intro busy s h _
      exact ⟨busy, s, rfl, h, .refl _ s⟩
  | cons p ps ih =>
      intro busy s h hps
      unfold freeSlots
      have hrest : ∀ s1, Keeps (d + 1) s s1 → ∀ q ∈ ps, ∀ s', Keeps (d + 1) s1 s' → Live s' q d :=
        fun s1 hk q hq s' hk' => hps q (List.mem_cons_of_mem _ hq) s' (hk.trans hk')
      by_cases h0 : s.val p = 0
      · rw [if_pos h0]
        exact ih busy s h (hrest s (.refl _ s))
      · rw [if_neg h0]
        rcases hf s p h (hps p (List.mem_cons_self ..) s (.refl _ s)) h0 with ⟨s', he, ho, hk⟩ | ⟨s', he, ho, hk⟩
        · rw [he]
          obtain ⟨b, t, ht, hot, hkt⟩ := ih busy _ ho (hrest _ hk)
          exact ⟨b, t, ht, hot, hk.trans hkt⟩
        · rw [he]
          obtain ⟨b, t, ht, hot, hkt⟩ := ih true _ ho (hrest _ hk)
          exact ⟨b, t, ht, hot, hk.trans hkt⟩

/-- **One level up.** -/
theorem freeTree_frees {env : Env} {d : Nat} {free : Nat → Volume → Option (Bool × Volume)} (hf : Frees d free) :
    Frees (d + 1) (freeTree env free) := by
  intro s p h hp hp0
  unfold freeTree
  rw [if_neg hp0]
  have hentries : ∀ q ∈ (List.range 512).map (Slot.entry (s.val p)), ∀ s', Keeps (d + 1) s s' → Live s' q d := by
    intro q hq s' hk
    obtain ⟨k, hk512, rfl⟩ := List.mem_map.mp hq
    exact .entry (hk.live p _ hp le_rfl) (hk.val p _ hp le_rfl) hp0 (List.mem_range.mp hk512)
  obtain ⟨busy, s1, hloop, ho, hk⟩ := freeSlots_spec hf _ false s h hentries
  rw [hloop]
  cases busy with
  | true => exact .inr ⟨s1, rfl, ho, hk.mono (by omega)⟩
  | false =>
      -- the block itself, still in its slot
      have hp1 := hk.live p _ hp le_rfl
      have hv1 := hk.val p _ hp le_rfl
      have hblock := freeBlock_frees env (d + 1) s1 p ho hp1 (hv1 ▸ hp0)
      rw [hv1] at hblock
      have hk' := hk.mono (Nat.le_succ (d + 1))
      rcases hblock with ⟨s', he, ho', hk2⟩ | ⟨s', he, ho', hk2⟩
      · exact .inl ⟨s', he, ho', hk'.trans hk2⟩
      · exact .inr ⟨s', he, ho', hk'.trans hk2⟩

theorem freeTop_owned {d : Nat} {free : Nat → Volume → Option (Bool × Volume)} (hf : Frees d free)
    (hzero : ∀ s, free 0 s = some (true, s)) {ino k : Nat} (hl : ∀ s, Live s (.data ino k) d) (busy : Bool)
    {s : Volume} (h : Owned s) : ∃ busy' s', freeTop free ino k busy s = some (busy', s') ∧ Owned s' := by
  unfold freeTop
  by_cases h0 : s.val (.data ino k) = 0
  · rw [h0, hzero]
    refine ⟨busy, _, rfl, h.of_vals ⟨rfl, rfl, rfl⟩ ?_ fun _ hb => hb⟩
    intro sl e _
    by_cases hsl : sl = .data ino k
    · rw [hsl, val_setVal_self s (by omega), h0]
    · exact val_setVal_ne s 0 hsl
  · rcases hf s _ h (hl s) h0 with ⟨s', he, ho, -⟩ | ⟨s', he, ho, -⟩
    · rw [he]
      exact ⟨busy, _, rfl, ho⟩
    · rw [he]
      exact ⟨true, _, rfl, ho⟩

/-- **A pass of `minix_truncate`** keeps ownership and never panics. -/
theorem truncatePass_owned (env : Env) (ino : Nat) {s : Volume} (h : Owned s) :
    ∃ busy s', truncatePass env ino s = some (busy, s') ∧ Owned s' := by
  unfold truncatePass
  have hdirect : ∀ p ∈ (List.range 7).map (Slot.data ino), ∀ s', Keeps 1 s s' → Live s' p 0 := by
    intro p hp s' _
    obtain ⟨k, hk, rfl⟩ := List.mem_map.mp hp
    exact .direct ino (List.mem_range.mp hk)
  obtain ⟨b1, s1, h1, ho1, -⟩ := freeSlots_spec (freeBlock_frees env 0) _ false s h hdirect
  obtain ⟨b2, s2, h2, ho2⟩ := freeTop_owned (freeTree_frees (freeBlock_frees env 0)) (fun _ => if_pos rfl)
    (fun s => Live.single (s := s) ino) b1 ho1
  obtain ⟨b3, s3, h3, ho3⟩ := freeTop_owned (freeTree_frees (freeTree_frees (freeBlock_frees env 0)))
    (fun _ => if_pos rfl) (fun s => Live.double (s := s) ino) b2 ho2
  refine ⟨b3, s3, ?_, ho3⟩
  rw [h1]
  show (freeTop (freeInd env) ino 7 b1 s1).bind _ = _
  unfold freeInd
  rw [h2]
  exact h3

theorem minixTruncate_owned (mode : BitVec 16) (ino : Nat) (envs : List Env) :
    ∀ {s : Files}, Owned s.vol → ∃ s', minixTruncate mode ino envs s = some s' ∧ Owned s'.vol := by
  induction envs with
  | nil =>
      intro s h
      exact ⟨s, rfl, h⟩
  | cons env envs ih =>
      intro s h
      unfold minixTruncate
      by_cases hm : hasZones mode = true
      · rw [if_neg (not_not.mpr hm)]
        obtain ⟨busy, vol, hpass, ho⟩ := truncatePass_owned env ino h
        rw [hpass]
        cases busy with
        | true => exact ih ho
        | false => exact ⟨_, rfl, ho⟩
      · rw [if_pos hm]
        exact ⟨s, rfl, h⟩

/-! ## The other operations -/

/-- Slots may be emptied. -/
theorem Owned.of_emptied {s s' : Volume} (h : Owned s) (hg : SameGeometry s s') (hz : s'.zmap = s.zmap)
    (hv : ∀ sl, s'.val sl ≠ 0 → s'.val sl = s.val sl) : Owned s' := by
  have hlive : ∀ sl d, Live s' sl d → Live s sl d := by
    intro sl d hl
    induction hl with
    | direct ino hk => exact .direct ino hk
    | single ino => exact .single ino
    | double ino => exact .double ino
    | entry _ hw h0 hk ih => exact .entry ih ((hv _ (hw ▸ h0)).symm.trans hw) h0 hk
  refine ⟨hz ▸ h.reserved, hg.firstdatazone ▸ h.first, ?_, ?_⟩
  · intro sl d hl h0
    have he := hv sl h0
    rw [he] at h0 ⊢
    have hok := h.zone sl d (hlive sl d hl) h0
    exact hok.of_geometry hg (hz ▸ hok.bit)
  · intro sl sl' d d' hl hl' h0 he
    have hv1 := hv sl h0
    have hv2 := hv sl' (he ▸ h0)
    rw [hv1] at h0 he
    exact h.one sl sl' d d' (hlive sl d hl) (hlive sl' d' hl') h0 (he.trans hv2)

theorem memset_owned {s : Files} (h : Owned s.vol) (ino : Nat) : Owned (memset ino s).vol := by
  refine Owned.of_emptied h ⟨rfl, rfl, rfl⟩ rfl ?_
  intro sl h0
  cases sl with
  | data i k =>
      refine if_neg ?_
      rintro rfl
      exact h0 (if_pos rfl)
  | entry w k => rfl

theorem minixFreeInode_owned {s : Files} (h : Owned s.vol) (hd : Head) (ino : Nat) :
    Owned (minixFreeInode hd ino s).vol := by
  have hm := memset_owned h ino
  unfold minixFreeInode
  split
  · exact hm
  · split
    · exact h
    · split
      · exact h
      · split
        · exact h
        · split
          · exact h
          · split
            · exact h
            · exact hm

theorem writeLoop_owned {ino fuel pos : Nat} {written : Int} {buf : List Byte} {s : Files} (h : Owned s.vol)
    {r : Int × Nat × Files} (hrun : writeLoop ino fuel written pos buf s = some r) : Owned r.2.2.vol := by
  induction fuel generalizing written pos buf s with
  | zero =>
      obtain rfl := Option.some.inj hrun
      exact h
  | succ fuel ih =>
      unfold writeLoop at hrun
      by_cases hnil : buf = []
      · rw [if_pos hnil] at hrun
        obtain rfl := Option.some.inj hrun
        exact h
      · rw [if_neg hnil] at hrun
        by_cases hb : pos / BLOCK_SIZE < maxBlock
        · obtain ⟨block, vol, hmap, hm⟩ := bmap_grows h true ino hb
          rw [hmap] at hrun
          dsimp only at hrun
          by_cases h0 : block = 0
          · rw [if_pos h0] at hrun
            obtain rfl := Option.some.inj hrun
            exact hm.grows.owned
          · rw [if_neg h0] at hrun
            refine ih ?_ hrun
            have hz := hm.zone
            have ho := store_owned hm.grows.owned hb (hz ▸ h0) (pos % BLOCK_SIZE)
              (buf.take (min (BLOCK_SIZE - pos % BLOCK_SIZE) buf.length))
            rw [← hz] at ho
            split <;> exact ho
        · have hnone : s.vol.bmap true ino (pos / BLOCK_SIZE) = none := if_pos (by unfold maxBlock at hb; omega)
          rw [hnone] at hrun
          cases hrun

/-! ## Any sequence of operations -/

inductive Op where
  | createBlock (ino b : Nat)
  | fileWrite (ino : Nat) (filp : Filp) (buf : List Byte)
  | truncate (mode : BitVec 16) (ino : Nat) (envs : List Env)
  | freeInode (h : Head) (ino : Nat)

/-- One operation; none is a panic. -/
def Op.run : Op → Files → Option Files
  | .createBlock ino b, s => (s.vol.bmap true ino b).map fun r => { s with vol := r.2 }
  | .fileWrite ino filp buf, s => (minixFileWrite ino filp buf s).map fun r => r.2.2
  | .truncate mode ino envs, s => minixTruncate mode ino envs s
  | .freeInode h ino, s => some (minixFreeInode h ino s)

theorem Op.run_owned {op : Op} {s s' : Files} (h : Owned s.vol) (hrun : op.run s = some s') : Owned s'.vol := by
  cases op with
  | createBlock ino b =>
      obtain ⟨⟨z, vol⟩, hmap, rfl⟩ := Option.map_eq_some_iff.mp hrun
      by_cases hb : b < maxBlock
      · obtain ⟨z', vol', hmap', hm⟩ := bmap_grows h true ino hb
        obtain ⟨rfl, rfl⟩ := Prod.mk.inj (Option.some.inj (hmap.symm.trans hmap'))
        exact hm.grows.owned
      · have hnone : s.vol.bmap true ino b = none := if_pos (by unfold maxBlock at hb; omega)
        rw [hnone] at hmap
        cases hmap
  | fileWrite ino filp buf =>
      obtain ⟨r, hw, rfl⟩ := Option.map_eq_some_iff.mp hrun
      unfold minixFileWrite at hw
      dsimp only at hw
      cases hl : writeLoop ino buf.length 0 (if filp.append then s.iSize ino else filp.fPos) buf s with
      | none =>
          rw [hl] at hw
          cases hw
      | some q =>
          rw [hl] at hw
          obtain rfl := Option.some.inj hw
          exact writeLoop_owned h hl
  | truncate mode ino envs =>
      obtain ⟨s1, ht, ho⟩ := minixTruncate_owned mode ino envs h
      obtain rfl := Option.some.inj (ht.symm.trans hrun)
      exact ho
  | freeInode hd ino =>
      obtain rfl := Option.some.inj hrun
      exact minixFreeInode_owned h hd ino

/-- Operations one after the other. -/
inductive Ops : Files → Files → Prop
  | refl (s : Files) : Ops s s
  | tail {s s' s'' : Files} {op : Op} (hs : Ops s s') (hrun : op.run s' = some s'') : Ops s s''

/-- **Ownership in every state reached**: a zone number in a slot of an inode or of its blocks is in that slot alone,
    is a zone of the file system and has its bit set; a zone whose bit is clear is in no slot; and `minix_truncate`
    does not panic. -/
theorem ownership {s s' : Files} (h : Owned s.vol) (hs : Ops s s') :
    Owned s'.vol ∧ (∀ z, z ≠ 0 → s'.vol.zmap (s'.vol.bitOf z) = false → ¬ Refs s'.vol z) ∧
      ∀ mode ino envs, (minixTruncate mode ino envs s').isSome := by
  have ho : Owned s'.vol := by
    induction hs with
    | refl => exact h
    | tail _ hrun ih => exact Op.run_owned ih hrun
  refine ⟨ho, fun z hz hclear => ho.not_refs hz hclear, ?_⟩
  intro mode ino envs
  obtain ⟨s1, ht, -⟩ := minixTruncate_owned mode ino envs ho
  rw [ht]
  rfl

theorem Op.run_createBlock {s : Files} {ino b z : Nat} {vol : Volume} (h : s.vol.bmap true ino b = some (z, vol)) :
    (Op.createBlock ino b).run s = some { s with vol := vol } := by
  simp only [Op.run, h, Option.map_some]

/-- A block of a new file is allocated, and the file truncated. -/
theorem ownership_create : ∃ s s', (Op.createBlock 1 600).run newFiles = some s ∧
    (Op.truncate S_IFREG 1 [⟨fun _ => false, fun _ _ => 0xff⟩]).run s = some s' ∧ Owned s'.vol := by
  obtain ⟨z, vol, hmap, -⟩ := bmap_grows newFiles_wf.owned true 1 (b := 600) (by decide)
  have hcreate := Op.run_createBlock hmap
  have h1 := Ops.tail (.refl newFiles) hcreate
  have hreturns := (ownership newFiles_wf.owned h1).2.2 S_IFREG 1 [⟨fun _ => false, fun _ _ => 0xff⟩]
  obtain ⟨s', ht⟩ := Option.isSome_iff_exists.mp hreturns
  have htrunc : (Op.truncate S_IFREG 1 [⟨fun _ => false, fun _ _ => 0xff⟩]).run _ = some s' := ht
  exact ⟨_, s', hcreate, htrunc, (ownership newFiles_wf.owned (.tail h1 htrunc)).1⟩

end Truncate
end Minix
end Fs
end Linux095
