import Linux095.Fs.Minix.Truncate

/-!
# `Fs.Minix.FreeLog` — what a truncation frees (`fs/minix/truncate.c`)

`minix_truncate` walks three levels of blocks, and starts again from the top whenever a block was busy.

* `logTruncate` — `minixTruncate`, with a log of the zones whose bit was cleared; `logTruncate_projects`;
* `Partly` — what is left of the file, and what the log says of the rest: the invariant of the walk;
* `LFrees` — freeing the zone of a slot with the blocks below it keeps it, whatever is busy; one lemma for each level;
* `truncate_frees_once` — **each zone of the file is freed once, no other one is, and no block before those it names**.
-/

namespace Linux095
namespace Fs
namespace Minix
namespace Truncate

open Zones FileDev

/-! ## Truncation with a log -/

/-- A volume, and the zones whose bits have been cleared, the last one at the end. -/
structure Logged where
  vol : Volume
  log : List Nat

def Logged.setVal (t : Logged) (p : Slot) (z : Nat) : Logged :=
  { t with
    vol := t.vol.setVal p z }

theorem Logged.val_setVal (t : Logged) (p : Slot) : (t.setVal p 0).vol.val p = 0 := val_setVal_self t.vol (by omega)

/-- `minix_free_block`, which notes the zone when it comes to `clear_bit`. -/
def logBlock (env : Env) (z : Nat) (t : Logged) : Option (Bool × Logged) :=
  match freeBlock env z t.vol with
  | none => none
  | some (true, s) => some (true, ⟨s, t.log ++ [z]⟩)
  | some (false, s) => some (false, ⟨s, t.log⟩)

/-- `freeSlots`. -/
def logSlots (free : Nat → Logged → Option (Bool × Logged)) : List Slot → Bool → Logged → Option (Bool × Logged)
  | [], busy, t => some (busy, t)
  | p :: ps, busy, t =>
      if t.vol.val p = 0 then logSlots free ps busy t
      else
        match free (t.vol.val p) t with
        | none => none
        | some (true, t') => logSlots free ps busy (t'.setVal p 0)
        | some (false, t') => logSlots free ps true t'

/-- `freeTree`. -/
def logTree (env : Env) (free : Nat → Logged → Option (Bool × Logged)) (block : Nat) (t : Logged) :
    Option (Bool × Logged) :=
  if block = 0 then some (true, t)
  else
    match logSlots free ((List.range 512).map (.entry block)) false t with
    | none => none
    | some (true, t') => some (false, t')
    | some (false, t') => logBlock env block t'

/-- `minix_free_ind`. -/
def logInd (env : Env) : Nat → Logged → Option (Bool × Logged) := logTree env (logBlock env)

/-- `minix_free_dind`. -/
def logDind (env : Env) : Nat → Logged → Option (Bool × Logged) := logTree env (logInd env)

/-- `freeTop`. -/
def logTop (free : Nat → Logged → Option (Bool × Logged)) (ino k : Nat) (busy : Bool) (t : Logged) :
    Option (Bool × Logged) :=
  match free (t.vol.val (.data ino k)) t with
  | none => none
  | some (true, t') => some (busy, t'.setVal (.data ino k) 0)
  | some (false, t') => some (true, t')

/-- `truncatePass`. -/
def logPass (env : Env) (ino : Nat) (t : Logged) : Option (Bool × Logged) := do
  let (busy, t) ← logSlots (logBlock env) ((List.range 7).map (.data ino)) false t
  let (busy, t) ← logTop (logInd env) ino 7 busy t
  logTop (logDind env) ino 8 busy t

/-- `minixTruncate`; true when it has returned. -/
def logTruncate (mode : BitVec 16) (ino : Nat) : List Env → Files → List Nat → Option (Bool × Files × List Nat)
  | [], s, log => some (false, s, log)
  | env :: envs, s, log =>
      if ¬ hasZones mode then some (true, s, log)
      else
        match logPass env ino ⟨s.vol, log⟩ with
        | none => none
        | some (true, t) => logTruncate mode ino envs { s with vol := t.vol } t.log
        | some (false, t) => some (true, setSize { s with vol := t.vol } ino 0, t.log)

/-- Without the log. -/
def forget (r : Option (Bool × Logged)) : Option (Bool × Volume) := r.map fun x => (x.1, x.2.vol)

/-- The two functions differ in the log only. -/
def Projects (free : Nat → Logged → Option (Bool × Logged)) (free₀ : Nat → Volume → Option (Bool × Volume)) : Prop :=
  ∀ z t, forget (free z t) = free₀ z t.vol

theorem logBlock_projects (env : Env) : Projects (logBlock env) (freeBlock env) := by
  intro z t
  unfold logBlock
  cases h : freeBlock env z t.vol with
  | none => rfl
  | some r =>
      obtain ⟨b, s⟩ := r
      cases b with
      | true => rfl
      | false => rfl

variable {free : Nat → Logged → Option (Bool × Logged)} {free₀ : Nat → Volume → Option (Bool × Volume)}

theorem logSlots_projects (h : Projects free free₀) (ps : List Slot) (busy : Bool) (t : Logged) :
    forget (logSlots free ps busy t) = freeSlots free₀ ps busy t.vol := by
  induction ps generalizing busy t with
  | nil => rfl
  | cons p ps ih =>
      unfold logSlots freeSlots
      by_cases h0 : t.vol.val p = 0
      · rw [if_pos h0, if_pos h0]
        exact ih busy t
      · rw [if_neg h0, if_neg h0, ← h]
        cases free (t.vol.val p) t with
        | none => rfl
        | some r =>
            obtain ⟨b, t'⟩ := r
            cases b with
            | true => exact ih busy (t'.setVal p 0)
            | false => exact ih true t'

theorem logTree_projects (env : Env) (h : Projects free free₀) : Projects (logTree env free) (freeTree env free₀) := by
  intro z t
  unfold logTree freeTree
  by_cases h0 : z = 0
  · rw [if_pos h0, if_pos h0]
    rfl
  · rw [if_neg h0, if_neg h0, ← logSlots_projects h]
    cases logSlots free ((List.range 512).map (Slot.entry z)) false t with
    | none => rfl
    | some r =>
        obtain ⟨b, t'⟩ := r
        cases b with
        | true => rfl
        | false => exact logBlock_projects env z t'

theorem logTop_projects (h : Projects free free₀) (ino k : Nat) (busy : Bool) (t : Logged) :
    forget (logTop free ino k busy t) = freeTop free₀ ino k busy t.vol := by
  unfold logTop freeTop
  rw [← h]
  cases free (t.vol.val (.data ino k)) t with
  | none => rfl
  | some r =>
      obtain ⟨b, t'⟩ := r
      cases b with
      | true => rfl
      | false => rfl

theorem logPass_projects (env : Env) (ino : Nat) (t : Logged) :
    forget (logPass env ino t) = truncatePass env ino t.vol := by
  have hind : Projects (logInd env) (freeInd env) := logTree_projects env (logBlock_projects env)
  have hdind : Projects (logDind env) (freeDind env) := logTree_projects env hind
  unfold logPass truncatePass
  rw [← logSlots_projects (logBlock_projects env)]
  cases logSlots (logBlock env) ((List.range 7).map (Slot.data ino)) false t with
  | none => rfl
  | some r =>
      show forget ((logTop (logInd env) ino 7 r.1 r.2).bind _) = (freeTop (freeInd env) ino 7 r.1 r.2.vol).bind _
      rw [← logTop_projects hind]
      cases logTop (logInd env) ino 7 r.1 r.2 with
      | none => rfl
      | some r' => exact logTop_projects hdind ino 8 r'.1 r'.2

/-- **The log changes nothing.** -/
theorem logTruncate_projects (mode : BitVec 16) (ino : Nat) (envs : List Env) (s : Files) (log : List Nat) :
    (logTruncate mode ino envs s log).map (fun r => r.2.1) = minixTruncate mode ino envs s := by
  induction envs generalizing s log with
  | nil => rfl
  | cons env envs ih =>
      unfold logTruncate minixTruncate
      by_cases hm : hasZones mode = true
      · rw [if_neg (not_not.mpr hm), if_neg (not_not.mpr hm), ← logPass_projects env ino ⟨s.vol, log⟩]
        cases logPass env ino ⟨s.vol, log⟩ with
        | none => rfl
        | some r =>
            obtain ⟨b, t⟩ := r
            cases b with
            | true => exact ih _ t.log
            | false => rfl
      · rw [if_pos hm, if_pos hm]
        rfl

/-! ## The zones of a file -/

/-- The slots of a file, each with the number of levels below it. -/
inductive Under (s : Volume) (ino : Nat) : Slot → Nat → Prop
  | direct {k : Nat} (hk : k < 7) : Under s ino (.data ino k) 0
  | single : Under s ino (.data ino 7) 1
  | double : Under s ino (.data ino 8) 2
  | entry {p : Slot} {d z k : Nat} (hp : Under s ino p (d + 1)) (hz : s.val p = z) (h0 : z ≠ 0) (hk : k < 512) :
      Under s ino (.entry z k) d

/-- The zone is one of the file. -/
def FileZone (s : Volume) (ino z : Nat) : Prop := ∃ sl d, Under s ino sl d ∧ s.val sl = z ∧ z ≠ 0

/-- The zone `w` is a block of zone numbers, and `z` is one of them. -/
def Names (s : Volume) (ino w z : Nat) : Prop :=
  ∃ k d, Under s ino (.entry w k) d ∧ s.val (.entry w k) = z ∧ z ≠ 0

/-- **A well-formed zone map**: the zones of the file are in the data zone, and each is in one slot only. -/
structure WellFormed (s : Volume) (ino : Nat) : Prop where
  zone : ∀ sl d, Under s ino sl d → s.val sl ≠ 0 → s.sFirstdatazone.toNat ≤ s.val sl ∧ s.val sl < s.sNzones.toNat
  one : ∀ sl sl' d d', Under s ino sl d → Under s ino sl' d' → s.val sl ≠ 0 → s.val sl = s.val sl' → sl = sl'

theorem Under.entry_inv {s : Volume} {ino z k d : Nat} (h : Under s ino (.entry z k) d) :
    ∃ p, Under s ino p (d + 1) ∧ s.val p = z ∧ z ≠ 0 ∧ k < 512 := by
  cases h with
  | entry hp hz h0 hk => exact ⟨_, hp, hz, h0, hk⟩

theorem Under.live {s : Volume} {ino d : Nat} {sl : Slot} (h : Under s ino sl d) : Live s sl d := by
  induction h with
  | direct hk => exact .direct ino hk
  | single => exact .single ino
  | double => exact .double ino
  | entry _ hz h0 hk ih => exact .entry ih hz h0 hk

/-- Where no zone is in two slots of the volume, the files are well-formed. -/
theorem WellFormed.of_owned {s : Volume} (h : Owned s) (ino : Nat) : WellFormed s ino where
  zone sl d hl h0 := ⟨(h.zone sl d hl.live h0).lo, (h.zone sl d hl.live h0).hi⟩
  one sl sl' d d' hl hl' := h.one sl sl' d d' hl.live hl'.live

/-- A slot is on one level. -/
theorem WellFormed.level {s : Volume} {ino d d' : Nat} (h : WellFormed s ino) {sl : Slot} (hl : Under s ino sl d)
    (hl' : Under s ino sl d') : d = d' := by
  induction hl generalizing d' with
  | direct hk =>
      cases hl' with
      | direct => rfl
      | single => omega
      | double => omega
  | single =>
      cases hl' with
      | direct hk => omega
      | single => rfl
  | double =>
      cases hl' with
      | direct hk => omega
      | double => rfl
  | entry hp hz h0 hk ih =>
      obtain ⟨p', hp', hz', -, -⟩ := hl'.entry_inv
      obtain rfl := h.one _ _ _ _ hp hp' (hz ▸ h0) (hz.trans hz'.symm)
      have := ih hp'
      omega

/-! ## Emptying a slot -/

/-- The zone of the slot `p` is freed, its block has other contents, and the slot is emptied. -/
def emptied (s : Volume) (p : Slot) (f : Nat → Byte) : Volume :=
  ((s.setBit (s.bitOf (s.val p)) false).setBlock (s.val p) f).setVal p 0

section Emptied

variable {s : Volume} {ino d : Nat} {p : Slot} (f : Nat → Byte)

theorem val_emptied_self : (emptied s p f).val p = 0 := val_setVal_self _ (by omega)

/-- A slot that is not in the block of the zone. -/
theorem val_emptied_ne {sl : Slot} (hne : sl ≠ p) (hblock : ∀ k, sl ≠ .entry (s.val p) k) :
    (emptied s p f).val sl = s.val sl := by
  unfold emptied
  rw [val_setVal_ne _ 0 hne]
  cases sl with
  | data i k => rfl
  | entry w k =>
      refine val_setBlock_entry_ne _ f ?_
      rintro rfl
      exact hblock k rfl

/-- The slots that are left were there before, and hold what they held. -/
theorem under_of_emptied (h : WellFormed s ino) (hp : Under s ino p d) (hp0 : s.val p ≠ 0) {sl : Slot} {e : Nat}
    (hl : Under (emptied s p f) ino sl e) :
    Under s ino sl e ∧ (sl ≠ p → (emptied s p f).val sl = s.val sl) := by
  induction hl with
  | direct hk => exact ⟨.direct hk, fun hne => val_emptied_ne f hne nofun⟩
  | single => exact ⟨.single, fun hne => val_emptied_ne f hne nofun⟩
  | double => exact ⟨.double, fun hne => val_emptied_ne f hne nofun⟩
  | @entry q e w k _ hw h0 hk ih =>
      have hqp : q ≠ p := by
        rintro rfl
        rw [val_emptied_self] at hw
        exact h0 hw.symm
      have hval : s.val q = w := (ih.2 hqp).symm.trans hw
      refine ⟨.entry ih.1 hval h0 hk, fun hne => val_emptied_ne f hne ?_⟩
      -- the block of `q` is not the one that was freed
      rintro j heq
      obtain ⟨rfl, -⟩ := Slot.entry.inj heq
      exact hqp (h.one _ _ _ _ ih.1 hp (hval ▸ hp0) hval)

/-- Slots that are not `p` or in its block are left as they are, if the slots above them are of the same kind. -/
theorem under_emptied {P : Slot → Nat → Prop}
    (hP : ∀ sl e, Under s ino sl e → P sl e → sl ≠ p ∧ ∀ k, sl ≠ .entry (s.val p) k)
    (hup : ∀ q e k, Under s ino q (e + 1) → s.val q ≠ 0 → Under s ino (.entry (s.val q) k) e →
      P (.entry (s.val q) k) e → P q (e + 1))
    {sl : Slot} {e : Nat} (hl : Under s ino sl e) (hsl : P sl e) :
    Under (emptied s p f) ino sl e ∧ (emptied s p f).val sl = s.val sl := by
  have hval : ∀ sl e, Under s ino sl e → P sl e → (emptied s p f).val sl = s.val sl := fun sl e hl hsl =>
    val_emptied_ne f (hP sl e hl hsl).1 (hP sl e hl hsl).2
  refine ⟨?_, hval sl e hl hsl⟩
  induction hl with
  | direct hk => exact .direct hk
  | single => exact .single
  | double => exact .double
  | @entry q e w k hq hw h0 hk ih =>
      subst hw
      have hq' := hup q e k hq h0 (.entry hq rfl h0 hk) hsl
      exact .entry (ih hq') (hval q _ hq hq') h0 hk

/-- The slots with more levels below them are left. -/
theorem above_emptied (h : WellFormed s ino) (hp : Under s ino p d) (hp0 : s.val p ≠ 0) {sl : Slot} {e : Nat}
    (hl : Under s ino sl e) (he : d + 1 ≤ e) :
    Under (emptied s p f) ino sl e ∧ (emptied s p f).val sl = s.val sl := by
  refine under_emptied f (P := fun _ e => d + 1 ≤ e) ?_ (fun _ _ _ _ _ _ he => by omega) hl he
  intro sl e hl he
  constructor
  · rintro rfl
    have := h.level hp hl
    omega
  · rintro k rfl
    obtain ⟨q, hq, hv, -, -⟩ := hl.entry_inv
    obtain rfl := h.one p q _ _ hp hq hp0 hv.symm
    have := h.level hp hq
    omega

/-- If the block of the zone is empty, all other slots that hold something are left. -/
theorem side_emptied (hempty : ∀ k e, Under s ino (.entry (s.val p) k) e → s.val (.entry (s.val p) k) = 0) {sl : Slot}
    {e : Nat} (hl : Under s ino sl e) (h0 : s.val sl ≠ 0) (hne : sl ≠ p) :
    Under (emptied s p f) ino sl e ∧ (emptied s p f).val sl = s.val sl := by
  refine under_emptied f (P := fun sl _ => s.val sl ≠ 0 ∧ sl ≠ p) ?_ ?_ hl ⟨h0, hne⟩
  · rintro sl e hl ⟨h0, hne⟩
    refine ⟨hne, ?_⟩
    rintro k rfl
    exact h0 (hempty k e hl)
  · rintro q e k _ hq0 hl ⟨h0, -⟩
    refine ⟨hq0, ?_⟩
    rintro rfl
    exact h0 (hempty k e hl)

end Emptied

/-! ## The walk -/

/-- From `s` to `s'`, slots may be emptied, and those below them go. -/
def Shrinks (ino : Nat) (s s' : Volume) : Prop :=
  ∀ sl e, Under s' ino sl e → Under s ino sl e ∧ (s'.val sl = 0 ∨ s'.val sl = s.val sl)

theorem Shrinks.refl (ino : Nat) (s : Volume) : Shrinks ino s s := fun _ _ hl => ⟨hl, .inr rfl⟩

theorem Shrinks.trans {ino : Nat} {s t u : Volume} (h : Shrinks ino s t) (h' : Shrinks ino t u) : Shrinks ino s u := by
  intro sl e hl
  obtain ⟨hl₁, hv₁⟩ := h' sl e hl
  obtain ⟨hl₂, hv₂⟩ := h sl e hl₁
  refine ⟨hl₂, ?_⟩
  rcases hv₁ with h0 | hv₁
  · exact .inl h0
  · rwa [hv₁]

/-- An empty slot stays empty. -/
theorem Shrinks.zero {ino : Nat} {s s' : Volume} (h : Shrinks ino s s') {sl : Slot} {e : Nat} (hl : Under s' ino sl e)
    (h0 : s.val sl = 0) : s'.val sl = 0 := by
  rcases (h sl e hl).2 with hv | hv
  · exact hv
  · exact hv.trans h0

/-- As well, the slots with at least `d` levels below them are as they were. -/
structure Goes (ino d : Nat) (s s' : Volume) : Prop where
  above : ∀ sl e, Under s ino sl e → d ≤ e → Under s' ino sl e ∧ s'.val sl = s.val sl
  shrinks : Shrinks ino s s'

theorem Goes.refl (ino d : Nat) (s : Volume) : Goes ino d s s := ⟨fun _ _ hl _ => ⟨hl, rfl⟩, .refl ino s⟩

theorem Goes.trans {ino d : Nat} {s t u : Volume} (h : Goes ino d s t) (h' : Goes ino d t u) : Goes ino d s u where
  above sl e hl he := by
    obtain ⟨hl₁, hv₁⟩ := h.above sl e hl he
    obtain ⟨hl₂, hv₂⟩ := h'.above sl e hl₁ he
    exact ⟨hl₂, hv₂.trans hv₁⟩
  shrinks := h.shrinks.trans h'.shrinks

theorem Goes.mono {ino d d' : Nat} {s s' : Volume} (h : Goes ino d s s') (hd : d ≤ d') : Goes ino d' s s' :=
  ⟨fun sl e hl he => h.above sl e hl (hd.trans he), h.shrinks⟩

theorem goes_emptied {s : Volume} {ino d : Nat} {p : Slot} (h : WellFormed s ino) (hp : Under s ino p d)
    (hp0 : s.val p ≠ 0) (f : Nat → Byte) : Goes ino (d + 1) s (emptied s p f) where
  above sl e hl he := above_emptied f h hp hp0 hl he
  shrinks sl e hl := by
    obtain ⟨hl', hv⟩ := under_of_emptied f h hp hp0 hl
    refine ⟨hl', ?_⟩
    by_cases hsl : sl = p
    · subst hsl
      exact .inl (val_emptied_self f)
    · exact .inr (hv hsl)

/-- **What has become of the file `ino` of `s₀`**: zones are in the log, or still in their slots. -/
structure Partly (s₀ : Volume) (ino : Nat) (t : Logged) : Prop where
  geometry : SameGeometry s₀ t.vol
  shrinks : Shrinks ino s₀ t.vol
  nodup : t.log.Nodup
  only : ∀ z ∈ t.log, FileZone s₀ ino z
  gone : ∀ sl d, Under t.vol ino sl d → t.vol.val sl ∉ t.log
  left : ∀ sl d, Under s₀ ino sl d → s₀.val sl ≠ 0 →
    s₀.val sl ∈ t.log ∨ Under t.vol ino sl d ∧ t.vol.val sl = s₀.val sl
  /-- A block of zone numbers comes after those it names. -/
  order : ∀ l w l', t.log = l ++ w :: l' → ∀ z, Names s₀ ino w z → z ∈ l

section Partly

variable {s₀ : Volume} {ino d : Nat} {t : Logged} {p : Slot}

theorem Partly.start (s₀ : Volume) (ino : Nat) : Partly s₀ ino ⟨s₀, []⟩ where
  geometry := .refl s₀
  shrinks := .refl ino s₀
  nodup := .nil
  only _ h := nomatch h
  gone _ _ _ := List.not_mem_nil
  left _ _ hl _ := .inr ⟨hl, rfl⟩
  order l w l' h := by simp at h

/-- What is left is well-formed. -/
theorem Partly.wellFormed (h₀ : WellFormed s₀ ino) (h : Partly s₀ ino t) : WellFormed t.vol ino where
  zone sl d hl h0 := by
    obtain ⟨hl₀, hz | hv⟩ := h.shrinks sl d hl
    · exact absurd hz h0
    · rw [h.geometry.firstdatazone, h.geometry.nzones]
      rw [hv] at h0 ⊢
      exact h₀.zone sl d hl₀ h0
  one sl sl' d d' hl hl' h0 he := by
    obtain ⟨hl₀, hz | hv⟩ := h.shrinks sl d hl
    · exact absurd hz h0
    obtain ⟨hl₀', hz' | hv'⟩ := h.shrinks sl' d' hl'
    · exact absurd (he.trans hz') h0
    rw [hv] at h0 he
    rw [hv'] at he
    exact h₀.one sl sl' d d' hl₀ hl₀' h0 he

/-- **A zone whose block is empty is freed.** -/
theorem Partly.freed (h₀ : WellFormed s₀ ino) (h : Partly s₀ ino t) (hp : Under t.vol ino p d) (hp0 : t.vol.val p ≠ 0)
    (hempty : ∀ k e, Under t.vol ino (.entry (t.vol.val p) k) e → t.vol.val (.entry (t.vol.val p) k) = 0)
    (f : Nat → Byte) : Partly s₀ ino ⟨emptied t.vol p f, t.log ++ [t.vol.val p]⟩ := by
  have hwf := h.wellFormed h₀
  have hgoes := goes_emptied hwf hp hp0 f
  obtain ⟨hp₀, hz | hv⟩ := h.shrinks p d hp
  · exact absurd hz hp0
  refine ⟨?_, h.shrinks.trans hgoes.shrinks, ?_, ?_, ?_, ?_, ?_⟩
  · exact h.geometry.trans ⟨by simp [emptied, Volume.setBit, Volume.setBlock],
      by simp [emptied, Volume.setBit, Volume.setBlock], by simp [emptied, Volume.setBit, Volume.setBlock]⟩
  · refine List.nodup_append.mpr ⟨h.nodup, List.nodup_singleton _, ?_⟩
    rintro z hz _ hmem rfl
    rw [List.mem_singleton.mp hmem] at hz
    exact h.gone p d hp hz
  · intro z hz
    rcases List.mem_append.mp hz with hz | hz
    · exact h.only z hz
    · rw [List.mem_singleton.mp hz]
      exact ⟨p, d, hp₀, hv.symm, hp0⟩
  · intro sl e hl hmem
    obtain ⟨hl', hval⟩ := under_of_emptied f hwf hp hp0 hl
    -- neither `p`, which is empty, nor another slot holds the zone
    by_cases hsl : sl = p
    · subst hsl
      rw [val_emptied_self] at hmem
      rcases List.mem_append.mp hmem with hmem | hmem
      · obtain ⟨_, _, _, _, h0⟩ := h.only 0 hmem
        exact h0 rfl
      · exact hp0 (List.mem_singleton.mp hmem).symm
    · rw [hval hsl] at hmem
      rcases List.mem_append.mp hmem with hmem | hmem
      · exact h.gone sl e hl' hmem
      · have heq := List.mem_singleton.mp hmem
        exact hsl (hwf.one sl p e d hl' hp (heq ▸ hp0) heq)
  · intro sl e hl h0
    rcases h.left sl e hl h0 with hmem | ⟨hl', hval⟩
    · exact .inl (List.mem_append_left _ hmem)
    · by_cases hsl : sl = p
      · subst hsl
        rw [← hval]
        exact .inl (List.mem_append_right _ (List.mem_singleton_self _))
      · obtain ⟨hl'', hval'⟩ := side_emptied f hempty hl' (hval ▸ h0) hsl
        exact .inr ⟨hl'', hval'.trans hval⟩
  · -- what the block named has been freed, since the block is empty
    have hlast : ∀ z, Names s₀ ino (t.vol.val p) z → z ∈ t.log := by
      rintro _ ⟨k, e, hl, rfl, h0⟩
      rcases h.left _ e hl h0 with hmem | ⟨hl', hval⟩
      · exact hmem
      · rw [hempty k e hl'] at hval
        exact absurd hval.symm h0
    intro l w l' heq z hnames
    rcases List.append_eq_append_iff.mp heq with ⟨m, rfl, hr⟩ | ⟨m, hl, hr⟩
    · obtain ⟨rfl, hw⟩ | ⟨-, hnil⟩ := List.singleton_eq_append_iff.mp hr
      · obtain ⟨rfl, -⟩ := List.cons.inj hw
        rw [List.append_nil]
        exact hlast z hnames
      · cases hnil
    · cases m with
      | nil =>
          obtain ⟨rfl, -⟩ := List.cons.inj hr
          rw [List.append_nil] at hl
          exact hl ▸ hlast z hnames
      | cons x m =>
          obtain ⟨rfl, -⟩ := List.cons.inj hr
          exact h.order l w m hl z hnames

end Partly

/-! ## Freeing what is below a slot -/

section Walk

variable {env : Env} {s₀ : Volume} {ino : Nat}

/-- **Freeing the zone of a slot with `d` levels below it**: it succeeds, and then the slot may be emptied, or some
block was busy. -/
def LFrees (env : Env) (s₀ : Volume) (ino d : Nat) (free : Nat → Logged → Option (Bool × Logged)) : Prop :=
  ∀ t p, Partly s₀ ino t → Under t.vol ino p d → t.vol.val p ≠ 0 →
    (∃ t', free (t.vol.val p) t = some (true, t') ∧ Partly s₀ ino (t'.setVal p 0) ∧
        Goes ino (d + 1) t.vol (t'.setVal p 0).vol) ∨
      ((∃ z, env.busy z = true) ∧ ∃ t', free (t.vol.val p) t = some (false, t') ∧ Partly s₀ ino t' ∧
        Goes ino (d + 1) t.vol t'.vol)

variable (env) in
/-- `minix_free_block`, for a zone whose block is empty. -/
theorem logBlock_frees (h₀ : WellFormed s₀ ino) {d : Nat} {t : Logged} {p : Slot} (h : Partly s₀ ino t)
    (hp : Under t.vol ino p d) (hp0 : t.vol.val p ≠ 0)
    (hempty : ∀ k e, Under t.vol ino (.entry (t.vol.val p) k) e → t.vol.val (.entry (t.vol.val p) k) = 0) :
    (∃ t', logBlock env (t.vol.val p) t = some (true, t') ∧ Partly s₀ ino (t'.setVal p 0) ∧
        Goes ino (d + 1) t.vol (t'.setVal p 0).vol) ∨
      ((∃ z, env.busy z = true) ∧ logBlock env (t.vol.val p) t = some (false, t)) := by
  have hwf := h.wellFormed h₀
  obtain ⟨hlo, hhi⟩ := hwf.zone p d hp hp0
  unfold logBlock freeBlock
  rw [if_neg (by omega)]
  by_cases hb : env.busy (t.vol.val p) = true
  · rw [if_pos hb]
    exact .inr ⟨⟨_, hb⟩, rfl⟩
  · rw [if_neg hb]
    exact .inl ⟨_, rfl, h.freed h₀ hp hp0 hempty _, goes_emptied hwf hp hp0 _⟩

variable (env) in
/-- A zone of the lowest level is no block of zone numbers. -/
theorem logBlock_lFrees (h₀ : WellFormed s₀ ino) : LFrees env s₀ ino 0 (logBlock env) := by
  intro t p h hp hp0
  have hwf := h.wellFormed h₀
  have hempty : ∀ k e, Under t.vol ino (.entry (t.vol.val p) k) e → t.vol.val (.entry (t.vol.val p) k) = 0 := by
    intro k e hl
    obtain ⟨q, hq, hv, -, -⟩ := hl.entry_inv
    obtain rfl := hwf.one p q _ _ hp hq hp0 hv.symm
    have := hwf.level hp hq
    omega
  rcases logBlock_frees env h₀ h hp hp0 hempty with hfreed | ⟨hbusy, hrun⟩
  · exact .inl hfreed
  · exact .inr ⟨hbusy, t, hrun, h, .refl ino 1 t.vol⟩

/-- **Over several slots**: unless some block is busy, they are all empty in the end. -/
theorem logSlots_spec {d : Nat} {free : Nat → Logged → Option (Bool × Logged)} (hf : LFrees env s₀ ino d free)
    (ps : List Slot) (busy : Bool) (t : Logged) (h : Partly s₀ ino t)
    (hps : ∀ p ∈ ps, ∀ s', Goes ino (d + 1) t.vol s' → Under s' ino p d) :
    ∃ busy' t', logSlots free ps busy t = some (busy', t') ∧ Partly s₀ ino t' ∧ Goes ino (d + 1) t.vol t'.vol ∧
      (busy' = false → busy = false ∧ ∀ p ∈ ps, t'.vol.val p = 0) ∧
      (busy' = true → busy = true ∨ ∃ z, env.busy z = true) := by
  induction ps generalizing busy t with
  | nil => exact ⟨busy, t, rfl, h, .refl ino _ _, fun hb => ⟨hb, fun p hp => nomatch hp⟩, .inl⟩
  | cons p ps ih =>
      have hrest : ∀ t₁, Goes ino (d + 1) t.vol t₁ → ∀ q ∈ ps, ∀ s', Goes ino (d + 1) t₁ s' → Under s' ino q d :=
        fun t₁ hg q hq s' hg' => hps q (List.mem_cons_of_mem _ hq) s' (hg.trans hg')
      -- the slot `p` stays empty
      have hzero : ∀ t₁ t₂, Goes ino (d + 1) t.vol t₁ → t₁.val p = 0 → Goes ino (d + 1) t₁ t₂ → t₂.val p = 0 := by
        intro t₁ t₂ hg h0 hg'
        exact hg'.shrinks.zero (hps p List.mem_cons_self t₂ (hg.trans hg')) h0
      unfold logSlots
      by_cases h0 : t.vol.val p = 0
      · rw [if_pos h0]
        obtain ⟨b, t', hrun, ht', hg, hfalse, htrue⟩ := ih busy t h (hrest t.vol (.refl ino _ _))
        refine ⟨b, t', hrun, ht', hg, fun hb => ⟨(hfalse hb).1, ?_⟩, htrue⟩
        exact List.forall_mem_cons.mpr ⟨hzero _ _ (.refl ino _ _) h0 hg, (hfalse hb).2⟩
      · rw [if_neg h0]
        have hp := hps p List.mem_cons_self t.vol (.refl ino _ _)
        rcases hf t p h hp h0 with ⟨t₁, hfree, ht₁, hg₁⟩ | ⟨hbusy, t₁, hfree, ht₁, hg₁⟩
        · rw [hfree]
          obtain ⟨b, t', hrun, ht', hg, hfalse, htrue⟩ := ih busy _ ht₁ (hrest _ hg₁)
          refine ⟨b, t', hrun, ht', hg₁.trans hg, fun hb => ⟨(hfalse hb).1, ?_⟩, htrue⟩
          exact List.forall_mem_cons.mpr ⟨hzero _ _ hg₁ (Logged.val_setVal _ p) hg, (hfalse hb).2⟩
        · rw [hfree]
          obtain ⟨b, t', hrun, ht', hg, hfalse, -⟩ := ih true t₁ ht₁ (hrest _ hg₁)
          exact ⟨b, t', hrun, ht', hg₁.trans hg, fun hb => absurd (hfalse hb).1 (by decide), fun _ => .inr hbusy⟩

/-- **One level up.** -/
theorem logTree_lFrees (h₀ : WellFormed s₀ ino) {d : Nat} {free : Nat → Logged → Option (Bool × Logged)}
    (hf : LFrees env s₀ ino d free) : LFrees env s₀ ino (d + 1) (logTree env free) := by
  intro t p h hp hp0
  unfold logTree
  rw [if_neg hp0]
  have hentries : ∀ q ∈ (List.range 512).map (Slot.entry (t.vol.val p)), ∀ s', Goes ino (d + 1) t.vol s' →
      Under s' ino q d := by
    intro q hq s' hg
    obtain ⟨k, hk, rfl⟩ := List.mem_map.mp hq
    obtain ⟨hp', hv'⟩ := hg.above p _ hp le_rfl
    exact .entry hp' hv' hp0 (List.mem_range.mp hk)
  obtain ⟨busy, t₁, hloop, ht₁, hg₁, hfalse, htrue⟩ := logSlots_spec hf _ false t h hentries
  rw [hloop]
  cases busy with
  | true =>
      have hbusy := (htrue rfl).resolve_left (by decide)
      exact .inr ⟨hbusy, t₁, rfl, ht₁, hg₁.mono (by omega)⟩
  | false =>
      -- the block itself, still in its slot, and empty
      obtain ⟨hp₁, hv₁⟩ := hg₁.above p _ hp le_rfl
      have hempty : ∀ k e, Under t₁.vol ino (.entry (t₁.vol.val p) k) e → t₁.vol.val (.entry (t₁.vol.val p) k) = 0 := by
        intro k e hl
        obtain ⟨-, -, -, -, hk⟩ := hl.entry_inv
        rw [hv₁]
        exact (hfalse rfl).2 _ (List.mem_map_of_mem (List.mem_range.mpr hk))
      have hg := hg₁.mono (Nat.le_succ (d + 1))
      have hblock := logBlock_frees env h₀ ht₁ hp₁ (hv₁ ▸ hp0) hempty
      rw [hv₁] at hblock
      rcases hblock with ⟨t₂, hfree, ht₂, hg₂⟩ | ⟨hbusy, hfree⟩
      · exact .inl ⟨t₂, hfree, ht₂, hg.trans hg₂⟩
      · exact .inr ⟨hbusy, t₁, hfree, ht₁, hg⟩

/-- **The slots `i_data[7]` and `i_data[8]`**, which are freed even if they are empty. -/
theorem logTop_spec {d k : Nat} {free : Nat → Logged → Option (Bool × Logged)} (hf : LFrees env s₀ ino d free)
    (hzero : ∀ t, free 0 t = some (true, t)) {t : Logged} (hk : Under t.vol ino (.data ino k) d) (busy : Bool)
    (h : Partly s₀ ino t) :
    ∃ busy' t', logTop free ino k busy t = some (busy', t') ∧ Partly s₀ ino t' ∧ Goes ino (d + 1) t.vol t'.vol ∧
      (busy' = false → busy = false ∧ t'.vol.val (.data ino k) = 0) ∧
      (busy' = true → busy = true ∨ ∃ z, env.busy z = true) := by
  unfold logTop
  by_cases h0 : t.vol.val (.data ino k) = 0
  · have hsame : t.setVal (.data ino k) 0 = t := by
      have hdata : (fun i j => if i = ino ∧ j = k then 0 else t.vol.iData i j) = t.vol.iData := by
        funext i j
        split
        · rename_i hij
          obtain ⟨rfl, rfl⟩ := hij
          exact h0.symm
        · rfl
      exact congrArg (fun f => (⟨{ t.vol with iData := f }, t.log⟩ : Logged)) hdata
    rw [h0, hzero]
    refine ⟨busy, _, rfl, ?_, ?_, fun hb => ⟨hb, Logged.val_setVal _ _⟩, .inl⟩
    · rw [hsame]
      exact h
    · rw [hsame]
      exact .refl ino _ _
  · rcases hf t _ h hk h0 with ⟨t', hfree, ht', hg⟩ | ⟨hbusy, t', hfree, ht', hg⟩
    · rw [hfree]
      exact ⟨busy, _, rfl, ht', hg, fun hb => ⟨hb, Logged.val_setVal _ _⟩, .inl⟩
    · rw [hfree]
      exact ⟨true, t', rfl, ht', hg, nofun, fun _ => .inr hbusy⟩

theorem under_data (ino : Nat) (s : Volume) {k : Nat} (hk : k < 9) : ∃ d, Under s ino (.data ino k) d := by
  rcases Nat.lt_or_ge k 7 with h7 | h7
  · exact ⟨0, .direct h7⟩
  · rcases Nat.lt_or_ge k 8 with h8 | h8
    · obtain rfl : k = 7 := by omega
      exact ⟨1, .single⟩
    · obtain rfl : k = 8 := by omega
      exact ⟨2, .double⟩

variable (env) in
/-- **A pass**: if it ends with no block busy, `i_data` is empty. -/
theorem logPass_spec (h₀ : WellFormed s₀ ino) {t : Logged} (h : Partly s₀ ino t) :
    ∃ busy t', logPass env ino t = some (busy, t') ∧ Partly s₀ ino t' ∧
      (busy = false → ∀ k < 9, t'.vol.val (.data ino k) = 0) ∧ (busy = true → ∃ z, env.busy z = true) := by
  have hdirect : ∀ p ∈ (List.range 7).map (Slot.data ino), ∀ s', Goes ino 1 t.vol s' → Under s' ino p 0 := by
    intro p hp s' _
    obtain ⟨k, hk, rfl⟩ := List.mem_map.mp hp
    exact .direct (List.mem_range.mp hk)
  have hblock := logBlock_lFrees env h₀
  obtain ⟨b₁, t₁, h₁, ht₁, -, hfalse₁, htrue₁⟩ := logSlots_spec hblock _ false t h hdirect
  obtain ⟨b₂, t₂, h₂, ht₂, hg₂, hfalse₂, htrue₂⟩ :=
    logTop_spec (logTree_lFrees h₀ hblock) (fun _ => if_pos rfl) .single b₁ ht₁
  obtain ⟨b₃, t₃, h₃, ht₃, hg₃, hfalse₃, htrue₃⟩ :=
    logTop_spec (logTree_lFrees h₀ (logTree_lFrees h₀ hblock)) (fun _ => if_pos rfl) .double b₂ ht₂
  refine ⟨b₃, t₃, ?_, ht₃, fun hb k hk => ?_, fun hb => ?_⟩
  · unfold logPass
    rw [h₁]
    show (logTop (logInd env) ino 7 b₁ t₁).bind _ = _
    unfold logInd
    rw [h₂]
    exact h₃
  · -- what was empty after an earlier part still is
    obtain ⟨hb₂, h8⟩ := hfalse₃ hb
    obtain ⟨hb₁, h7⟩ := hfalse₂ hb₂
    obtain ⟨d₂, hd₂⟩ := under_data ino t₂.vol hk
    obtain ⟨d₃, hd₃⟩ := under_data ino t₃.vol hk
    rcases Nat.lt_or_ge k 7 with hlt | hge
    · have hzero := (hfalse₁ hb₁).2 _ (List.mem_map_of_mem (List.mem_range.mpr hlt))
      exact hg₃.shrinks.zero hd₃ (hg₂.shrinks.zero hd₂ hzero)
    · rcases Nat.lt_or_ge k 8 with hlt | hge
      · obtain rfl : k = 7 := by omega
        exact hg₃.shrinks.zero hd₃ h7
      · obtain rfl : k = 8 := by omega
        exact h8
  · rcases htrue₃ hb with hb | hbusy
    · rcases htrue₂ hb with hb | hbusy
      · exact (htrue₁ hb).resolve_left (by decide)
      · exact hbusy
    · exact hbusy

end Walk

/-- A file without zones in `i_data` has none, and all that it had are in the log. -/
theorem Partly.all {s₀ : Volume} {ino : Nat} {t : Logged} (h : Partly s₀ ino t)
    (hzero : ∀ k < 9, t.vol.val (.data ino k) = 0) {z : Nat} (hz : FileZone s₀ ino z) : z ∈ t.log := by
  have hempty : ∀ sl d, Under t.vol ino sl d → t.vol.val sl = 0 := by
    intro sl d hl
    induction hl with
    | direct hk => exact hzero _ (by omega)
    | single => exact hzero 7 (by omega)
    | double => exact hzero 8 (by omega)
    | entry _ hz h0 _ ih => exact absurd (hz.symm.trans ih) h0
  obtain ⟨sl, d, hl, rfl, h0⟩ := hz
  rcases h.left sl d hl h0 with hmem | ⟨hl', hv⟩
  · exact hmem
  · exact absurd (hv.symm.trans (hempty sl d hl')) h0

/-! ## All passes -/

/-- The zones of the file are freed in this order. -/
structure FreesOnce (s : Volume) (ino : Nat) (log : List Nat) : Prop where
  once : log.Nodup
  only : ∀ z ∈ log, FileZone s ino z
  /-- A block of zone numbers is freed after those it names. -/
  order : ∀ l w l', log = l ++ w :: l' → ∀ z, Names s ino w z → z ∈ l

/-- `minix_truncate` has returned. -/
structure Returned (s : Volume) (ino : Nat) (log : List Nat) (s' : Files) : Prop where
  all : ∀ z, FileZone s ino z → z ∈ log
  data : ∀ k < 9, s'.vol.iData ino k = 0
  size : s'.iSize ino = 0

theorem logTruncate_spec {mode : BitVec 16} {ino : Nat} {s₀ : Volume} (hmode : hasZones mode = true)
    (h₀ : WellFormed s₀ ino) (envs : List Env) (s : Files) (log : List Nat) (h : Partly s₀ ino ⟨s.vol, log⟩) :
    ∃ done s' log', logTruncate mode ino envs s log = some (done, s', log') ∧ FreesOnce s₀ ino log' ∧
      (done = true → Returned s₀ ino log' s') ∧ ((∃ env ∈ envs, ∀ z, env.busy z = false) → done = true) := by
  induction envs generalizing s log with
  | nil => exact ⟨false, s, log, rfl, ⟨h.nodup, h.only, h.order⟩, nofun, fun ⟨_, hmem, _⟩ => nomatch hmem⟩
  | cons env envs ih =>
      obtain ⟨busy, t, hpass, ht, hfalse, htrue⟩ := logPass_spec env h₀ h
      unfold logTruncate
      rw [if_neg (not_not.mpr hmode), hpass]
      cases busy with
      | true =>
          obtain ⟨done, s', log', hrun, honce, hreturned, hends⟩ := ih { s with vol := t.vol } t.log ht
          refine ⟨done, s', log', hrun, honce, hreturned, ?_⟩
          rintro ⟨env', hmem, hquiet⟩
          refine hends ⟨env', (List.mem_cons.mp hmem).resolve_left ?_, hquiet⟩
          rintro rfl
          obtain ⟨z, hz⟩ := htrue rfl
          rw [hquiet z] at hz
          cases hz
      | false =>
          refine ⟨true, _, t.log, rfl, ⟨ht.nodup, ht.only, ht.order⟩, fun _ => ⟨?_, ?_, ?_⟩, fun _ => rfl⟩
          · exact fun z hz => ht.all (hfalse rfl) hz
          · exact hfalse rfl
          · exact if_pos rfl

/-- **Truncation frees everything once.** For a file with a well-formed zone map, whatever is busy in which pass, the
zones that are freed are zones of the file, none of them twice, and no block of zone numbers before those it names. When
`minix_truncate` returns, which it does after a pass in which nothing is busy, it has freed all of them, and the file is
empty. -/
theorem truncate_frees_once {mode : BitVec 16} {ino : Nat} {s : Files} (hmode : hasZones mode = true)
    (h : WellFormed s.vol ino) (envs : List Env) :
    ∃ done s' log, logTruncate mode ino envs s [] = some (done, s', log) ∧ minixTruncate mode ino envs s = some s' ∧
      FreesOnce s.vol ino log ∧ (done = true → Returned s.vol ino log s') ∧
      ((∃ env ∈ envs, ∀ z, env.busy z = false) → done = true) := by
  obtain ⟨done, s', log, hrun, honce, hreturned, hends⟩ :=
    logTruncate_spec hmode h envs s [] (.start s.vol ino)
  refine ⟨done, s', log, hrun, ?_, honce, hreturned, hends⟩
  rw [← logTruncate_projects mode ino envs s [], hrun]
  rfl

/-- A block behind two levels is allocated, and all three are freed. -/
theorem truncate_frees_once_create : ∃ s s' log, (Op.createBlock 1 600).run newFiles = some s ∧
    logTruncate S_IFREG 1 [⟨fun _ => false, fun _ _ => 0xff⟩] s [] = some (true, s', log) ∧
      FreesOnce s.vol 1 log ∧ Returned s.vol 1 log s' := by
  obtain ⟨z, vol, hmap, hm⟩ := bmap_grows newFiles_wf.owned true 1 (b := 600) (by decide)
  have hwf : WellFormed ({ newFiles with vol := vol } : Files).vol 1 := .of_owned hm.grows.owned 1
  obtain ⟨done, s', log, hrun, -, honce, hreturned, hends⟩ :=
    truncate_frees_once (show hasZones S_IFREG = true by decide) hwf [⟨fun _ => false, fun _ _ => 0xff⟩]
  obtain rfl := hends ⟨_, List.mem_singleton_self _, fun _ => rfl⟩
  exact ⟨_, s', log, Op.run_createBlock hmap, hrun, honce, hreturned rfl⟩

end Truncate
end Minix
end Fs
end Linux095
