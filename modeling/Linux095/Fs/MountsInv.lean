import Linux095.Fs.Mounts

/-!
# `Fs.MountsInv` — inodes have the super blocks of their devices

* `Inv` — devices are in one super block each; an inode that is in core has the one of its device, or its device is not
  mounted and nobody uses it; references are counted;
* `inodes_owned` — **inodes that are used have the super blocks of their devices**, in all runs in which no device is
  mounted in another super block than those inodes have that are left of it;
* `remount_keeps_old_super` — a run in which one is.
-/

namespace Linux095
namespace Fs
namespace Mounts
open Seq Prog Relation
open Minix.Truncate (S_IFMT S_IFDIR hasZones)

section

variable {sb : Nat → Super} {s s' : State} {r : Nat → Int} {i j : Nat} {dev : Dev}

/-! ## Super blocks -/

theorem getSuper_some (h : getSuper sb dev = some j) : dev ≠ 0 ∧ j < NR_SUPER ∧ (sb j).sDev = dev := by
  unfold getSuper at h
  split at h
  · cases h
  · next hdev =>
      have hfound := List.find?_some h
      exact ⟨hdev, List.mem_range.1 (List.mem_of_find?_eq_some h), beq_iff_eq.1 hfound⟩

theorem getSuper_none (hdev : dev ≠ 0) : getSuper sb dev = none ↔ ∀ j < NR_SUPER, (sb j).sDev ≠ dev := by
  unfold getSuper
  rw [if_neg hdev, List.find?_eq_none]
  exact ⟨fun h j hj heq => h j (List.mem_range.2 hj) (beq_iff_eq.2 heq),
    fun h j hj heq => h j (List.mem_range.1 hj) (beq_iff_eq.1 heq)⟩

/-- No device is in two super blocks. -/
def Unique (sb : Nat → Super) : Prop :=
  ∀ j < NR_SUPER, ∀ j' < NR_SUPER, (sb j).sDev ≠ 0 → (sb j).sDev = (sb j').sDev → j = j'

theorem Unique.getSuper_eq (h : Unique sb) (hj : j < NR_SUPER) (hdev : (sb j).sDev ≠ 0) :
    getSuper sb (sb j).sDev = some j := by
  cases hg : getSuper sb (sb j).sDev with
  | none => exact absurd rfl ((getSuper_none hdev).1 hg j hj)
  | some j' =>
      obtain ⟨-, hj', heq⟩ := getSuper_some hg
      rw [h j hj j' hj' hdev heq.symm]

/-- Only the devices count. -/
theorem getSuper_congr {sb' : Nat → Super} (h : ∀ j < NR_SUPER, (sb' j).sDev = (sb j).sDev) (dev : Dev) :
    getSuper sb' dev = getSuper sb dev := by
  unfold getSuper
  split
  · rfl
  · exact List.find?_congr fun j hj => by rw [h j (List.mem_range.1 hj)]

/-! ## References -/

/-- The references of a super block. -/
def Super.refs (x : Super) (i : Nat) : Nat :=
  (if x.sCovered = some i then 1 else 0) + if x.sMounted = some i then 1 else 0

theorem refs_uncovered {x : Super} (h : x.sCovered = none) (i : Nat) :
    x.refs i = if x.sMounted = some i then 1 else 0 := by
  unfold Super.refs
  rw [h, if_neg (Option.some_ne_none i).symm, Nat.zero_add]

/-- The references of all super blocks. -/
def mounts (sb : Nat → Super) (i : Nat) : Nat := ∑ j ∈ Finset.range NR_SUPER, (sb j).refs i

theorem refs_le_mounts (sb : Nat → Super) (hj : j < NR_SUPER) (i : Nat) : (sb j).refs i ≤ mounts sb i :=
  Finset.single_le_sum (f := fun j => (sb j).refs i) (fun _ _ => Nat.zero_le _) (Finset.mem_range.2 hj)

/-- A super block changes. -/
theorem mounts_setSuper (s : State) (f : Super → Super) (hj : j < NR_SUPER) (i : Nat) :
    mounts (s.setSuper j f).superBlock i + (s.superBlock j).refs i =
      mounts s.superBlock i + (f (s.superBlock j)).refs i := by
  have hmem := Finset.mem_range.2 hj
  have hself : (s.setSuper j f).superBlock j = f (s.superBlock j) := if_pos rfl
  have hrest : ∑ x ∈ (Finset.range NR_SUPER).erase j, ((s.setSuper j f).superBlock x).refs i =
      ∑ x ∈ (Finset.range NR_SUPER).erase j, (s.superBlock x).refs i :=
    Finset.sum_congr rfl fun x hx => congrArg (fun y : Super => y.refs i) (if_neg (Finset.ne_of_mem_erase hx))
  unfold mounts
  rw [← Finset.add_sum_erase _ _ hmem, ← Finset.add_sum_erase (Finset.range NR_SUPER) _ hmem, hrest, hself]
  omega

/-! ## The invariant -/

/-- An inode has the super block of its device, if it has one; it is not used if its device is not mounted, and clean if
it is not used. -/
def Ok (sb : Nat → Super) (i : Nat) (x : Inode) : Prop :=
  x.iDev ≠ 0 → i < NR_INODE ∧ (x.iCount = 0 → x.iDirt = false) ∧
    ((∃ j, x.iSb = some j ∧ getSuper sb x.iDev = some j) ∨ getSuper sb x.iDev = none ∧ x.iCount = 0)

/-- Processes have `r i` references to the inode `i`. -/
structure Inv (r : Nat → Int) (s : State) : Prop where
  table : ∀ j, NR_SUPER ≤ j → (s.superBlock j).sMounted = none
  unique : Unique s.superBlock
  ok : ∀ i, Ok s.superBlock i (s.inode i)
  counts : ∀ i, r i + mounts s.superBlock i ≤ (s.inode i).iCount

theorem Inv.owned (h : Inv r s) : Owned s := by
  intro i hdev hused
  obtain ⟨-, hclean, ⟨j, hsb, hget⟩ | ⟨-, hcount⟩⟩ := h.ok i hdev
  · obtain ⟨-, hj, hj'⟩ := getSuper_some hget
    refine ⟨j, hj, hsb, fun k hk => ⟨fun heq => ?_, fun heq => heq ▸ hj'⟩⟩
    exact h.unique k hk j hj (heq ▸ hdev) (heq.trans hj'.symm)
  · rcases hused with hpos | hdirt
    · exact absurd hcount hpos.ne'
    · rw [hclean hcount] at hdirt
      cases hdirt

/-- A used inode has its super block. -/
theorem Ok.used {x : Inode} (h : Ok sb i x) (hdev : x.iDev ≠ 0) (hused : x.iCount ≠ 0) :
    i < NR_INODE ∧ ∃ j, x.iSb = some j ∧ getSuper sb x.iDev = some j := by
  obtain ⟨hi, -, hsb | ⟨-, hcount⟩⟩ := h hdev
  · exact ⟨hi, hsb⟩
  · exact absurd hcount hused

/-- So is an inode right, if it has its super block and is used. -/
theorem Ok.of_used {x : Inode} (hi : i < NR_INODE) (hsb : ∃ j, x.iSb = some j ∧ getSuper sb x.iDev = some j)
    (hused : x.iCount ≠ 0) : Ok sb i x :=
  fun _ => ⟨hi, fun hcount => absurd hcount hused, .inl hsb⟩

/-- `v` references more. -/
def add (r : Nat → Int) (i : Nat) (v : Int) : Nat → Int := fun x => if x = i then r x + v else r x

theorem add_zero (r : Nat → Int) (i : Nat) : add r i 0 = r := by
  funext x
  unfold add
  rw [Int.add_zero, ite_self]

theorem add_add (r : Nat → Int) (i : Nat) (v w : Int) : add (add r i v) i w = add r i (v + w) := by
  funext x
  unfold add
  split
  · rw [Int.add_assoc]
  · rfl

theorem add_comm (r : Nat → Int) (i k : Nat) (v w : Int) : add (add r i v) k w = add (add r k w) i v := by
  funext x
  unfold add
  split <;> split <;> first | rfl | omega

/-- One inode changes. -/
theorem Inv.setInode (h : Inv r s) {f : Inode → Inode} {v : Int} (hok : Ok s.superBlock i (f (s.inode i)))
    (hcount : ((s.inode i).iCount : Int) + v ≤ (f (s.inode i)).iCount) : Inv (add r i v) (s.setInode i f) where
  table := h.table
  unique := h.unique
  ok x := by
    by_cases hx : x = i
    · have hself : (s.setInode i f).inode x = f (s.inode i) := by rw [hx]; exact if_pos rfl
      rw [hself, hx]
      exact hok
    · have hother : (s.setInode i f).inode x = s.inode x := if_neg hx
      rw [hother]
      exact h.ok x
  counts x := by
    have hcounts := h.counts x
    unfold add
    by_cases hx : x = i
    · have hself : (s.setInode i f).inode x = f (s.inode i) := by rw [hx]; exact if_pos rfl
      rw [if_pos hx, hself]
      rw [hx] at hcounts ⊢
      dsimp only [State.setInode]
      omega
    · have hother : (s.setInode i f).inode x = s.inode x := if_neg hx
      rw [if_neg hx, hother]
      exact hcounts

/-- One inode changes, and its references do not. -/
theorem Inv.setInode_same (h : Inv r s) {f : Inode → Inode} (hok : Ok s.superBlock i (f (s.inode i)))
    (hcount : (s.inode i).iCount ≤ (f (s.inode i)).iCount) : Inv r (s.setInode i f) := by
  have hset : Inv (add r i 0) (s.setInode i f) := h.setInode hok (by omega)
  rw [add_zero] at hset
  exact hset

theorem table_setSuper (h : ∀ k, NR_SUPER ≤ k → (s.superBlock k).sMounted = none) (hj : j < NR_SUPER)
    (f : Super → Super) (k : Nat) (hk : NR_SUPER ≤ k) : ((s.setSuper j f).superBlock k).sMounted = none := by
  have hother : (s.setSuper j f).superBlock k = s.superBlock k := if_neg fun heq => by omega
  rw [hother]
  exact h k hk

/-- A super block changes, but not its device: `r'` makes up for its references. -/
theorem Inv.setSuper {r' : Nat → Int} (h : Inv r s) {f : Super → Super} (hj : j < NR_SUPER)
    (hdev : ∀ x, (f x).sDev = x.sDev)
    (hrefs : ∀ i, r' i + (f (s.superBlock j)).refs i ≤ r i + (s.superBlock j).refs i) :
    Inv r' (s.setSuper j f) := by
  have hsame : ∀ k, ((s.setSuper j f).superBlock k).sDev = (s.superBlock k).sDev := fun k => by
    dsimp only [State.setSuper]
    split
    · exact hdev _
    · rfl
  have hget : ∀ d, getSuper (s.setSuper j f).superBlock d = getSuper s.superBlock d :=
    getSuper_congr fun k _ => hsame k
  refine ⟨table_setSuper h.table hj f, fun k hk k' hk' => ?_, fun i hi => ?_, fun i => ?_⟩
  · rw [hsame, hsame]
    exact h.unique k hk k' hk'
  · rw [hget]
    exact h.ok i hi
  · have hcounts := h.counts i
    have hmounts := mounts_setSuper s f hj i
    have hr := hrefs i
    have hinode : (s.setSuper j f).inode i = s.inode i := rfl
    rw [hinode]
    omega

/-! ## Inodes in core -/

theorem findEmpty_some {l : Nat} (h : findEmpty s = (some i, l)) : i < NR_INODE ∧ (s.inode i).iCount = 0 := by
  have hrange : ∀ x ∈ (List.range NR_INODE).map fun k => (s.lastInode + 1 + k) % NR_INODE, x < NR_INODE := by
    intro x hx
    obtain ⟨k, -, rfl⟩ := List.mem_map.1 hx
    exact Nat.mod_lt _ (by decide)
  unfold findEmpty at h
  dsimp only at h
  split at h
  · next x hfind =>
      obtain ⟨rfl, -⟩ := Prod.mk.inj h |>.imp Option.some.inj id
      have hfree := List.find?_some hfind
      rw [decide_eq_true_eq] at hfree
      exact ⟨hrange _ (List.mem_of_find?_eq_some hfind), hfree.1⟩
  · obtain ⟨hmem, hfree⟩ := List.mem_filter.1 (List.mem_of_getLast? (Prod.mk.inj h).1)
    exact ⟨hrange _ hmem, of_decide_eq_true hfree⟩

/-- What `get_empty_inode` makes of a state. -/
structure Empty (r : Nat → Int) (s : State) (e : Nat) (s' : State) : Prop where
  lt : e < NR_INODE
  inv : Inv (add r e 1) s'
  supers : s'.superBlock = s.superBlock
  noDev : (s'.inode e).iDev = 0
  count : (s'.inode e).iCount = 1

theorem getEmptyInode_spec (h : Inv r s) : Ends getEmptyInode s (fun _ => True) (Empty r s) := by
  unfold getEmptyInode
  refine Ends.bind (.reads ?_)
  cases hfound : findEmpty s with
  | mk found last =>
    dsimp only
    cases found with
    | none => exact .halt trivial
    | some i =>
        obtain ⟨hi, hfree⟩ := findEmpty_some hfound
        refine Ends.bind (.reads ?_)
        split
        · exact .halt trivial
        · have hself : ((s.setInode i fun _ => { Inode.zero with iCount := 1 }).inode i) =
              { Inode.zero with iCount := 1 } := if_pos rfl
          have hinv : Inv (add r i 1) (s.setInode i fun _ => { Inode.zero with iCount := 1 }) :=
            h.setInode (fun hdev => absurd rfl hdev) (by dsimp only; omega)
          refine Ends.bind (.modify (.pure ⟨hi, ⟨hinv.table, hinv.unique, hinv.ok, hinv.counts⟩, rfl, ?_, ?_⟩))
          · exact congrArg Inode.iDev hself
          · exact congrArg Inode.iCount hself

/-- `sync_inodes` cleans inodes. -/
theorem Inv.syncInodes (h : Inv r s) : Inv r s.syncInodes := by
  refine ⟨h.table, h.unique, fun i hdev => ?_, h.counts⟩
  obtain ⟨hi, -, hsb⟩ := h.ok i hdev
  refine ⟨hi, fun _ => ?_, hsb⟩
  have hdirty : (s.syncInodes.inode i).iDirt = ((s.inode i).iDirt && (s.inode i).iDev == 0) := rfl
  have hdev' : ((s.inode i).iDev == 0) = false := beq_eq_false_iff_ne.2 hdev
  rw [hdirty, hdev', Bool.and_false]

/-- `i_count--`, for a count that may become 0 if the inode is clean. -/
theorem Inv.drop (h : Inv r s) (hcount : (s.inode i).iCount ≠ 0)
    (hlast : (s.inode i).iDev ≠ 0 → (s.inode i).iCount = 1 → (s.inode i).iDirt = false) :
    Inv (add r i (-1)) (s.drop i) := by
  refine h.setInode (fun hdev => ?_) (by dsimp only; omega)
  obtain ⟨hi, hsb⟩ := (h.ok i).used hdev hcount
  refine ⟨hi, fun hzero => hlast hdev ?_, .inl hsb⟩
  dsimp only at hzero
  omega

/-- What `iput` makes of a state. -/
structure Put (r : Nat → Int) (freed : Bool) (i : Nat) (s s' : State) : Prop where
  inv : Inv (add r i (-1)) s'
  supers : s'.superBlock = s.superBlock
  others : ∀ x, x ≠ i → ∃ v, s'.inode x = { s.inode x with iDirt := v }
  self : (s'.inode i).iDev ≠ 0 → (s'.inode i).iDev = (s.inode i).iDev ∧
    ((s.inode i).iNlink ≠ 0 ∨ freed = true → (s'.inode i).iCount + 1 = (s.inode i).iCount)

theorem setInode_setInode (s : State) (i : Nat) (f g : Inode → Inode) :
    (s.setInode i f).setInode i g = s.setInode i fun x => g (f x) := by
  have hinode : ∀ x, ((s.setInode i f).setInode i g).inode x = (s.setInode i fun x => g (f x)).inode x := by
    intro x
    dsimp only [State.setInode]
    split <;> rfl
  exact congrArg (State.mk s.superBlock · s.lastInode) (funext hinode)

theorem setInode_self {f : Inode → Inode} (h : f (s.inode i) = s.inode i) : s.setInode i f = s := by
  have hinode : ∀ x, (s.setInode i f).inode x = s.inode x := by
    intro x
    dsimp only [State.setInode]
    split
    · next hx => rw [hx, h]
    · rfl
  exact congrArg (State.mk s.superBlock · s.lastInode) (funext hinode)

/-- `s'` is `s`, with some inodes written. -/
def Written (s s' : State) : Prop :=
  s'.superBlock = s.superBlock ∧ ∀ x, ∃ v, s'.inode x = { s.inode x with iDirt := v }

theorem Put.of_setInode {freed : Bool} {f : Inode → Inode} (hw : Written s s')
    (hinv : Inv (add r i (-1)) (s'.setInode i f))
    (hself : (f (s'.inode i)).iDev ≠ 0 → (f (s'.inode i)).iDev = (s'.inode i).iDev ∧
      ((s'.inode i).iNlink ≠ 0 ∨ freed = true → (f (s'.inode i)).iCount + 1 = (s'.inode i).iCount)) :
    Put r freed i s (s'.setInode i f) := by
  have hi : (s'.setInode i f).inode i = f (s'.inode i) := if_pos rfl
  refine ⟨hinv, hw.1, fun x hx => ?_, ?_⟩
  · have hother : (s'.setInode i f).inode x = s'.inode x := if_neg hx
    rw [hother]
    exact hw.2 x
  · obtain ⟨v, hv⟩ := hw.2 i
    rw [hi]
    rw [hv] at hself ⊢
    exact hself

theorem iput_spec (h : Inv r s) (freed : Bool) :
    Ends (iput freed (some i)) s (fun _ => True) fun _ => Put r freed i s := by
  unfold iput
  refine Ends.bind (.reads ?_)
  split
  · exact .halt trivial
  next hcount =>
  split
  · next hdev =>
      exact .modify (.of_setInode ⟨rfl, fun _ => ⟨_, rfl⟩⟩ (h.drop hcount fun hne => absurd hdev hne)
        fun hne => absurd hdev hne)
  next hdev =>
  refine Ends.bind (.modify ?_)
  generalize hs' : (if (s.inode i).iMode &&& S_IFMT = S_IFBLK then s.syncInodes else s) = s'
  have hinv : Inv r s' := by
    rw [← hs']
    split
    · exact h.syncInodes
    · exact h
  have hw : Written s s' := by
    rw [← hs']
    split <;> exact ⟨rfl, fun _ => ⟨_, rfl⟩⟩
  obtain ⟨v, hv⟩ := hw.2 i
  have hcount' : (s'.inode i).iCount = (s.inode i).iCount := by rw [hv]
  have hdev' : (s'.inode i).iDev = (s.inode i).iDev := by rw [hv]
  have hnlink' : (s'.inode i).iNlink = (s.inode i).iNlink := by rw [hv]
  obtain ⟨hi, hsb⟩ := (hinv.ok i).used (hdev'.symm ▸ hdev) (hcount'.symm ▸ hcount)
  split
  · next hmore =>
      refine .modify (.of_setInode hw (hinv.drop (by omega) fun _ hone => by omega) fun _ => ⟨rfl, fun _ => ?_⟩)
      dsimp only
      omega
  next hlast =>
  split
  · next hnlink =>
      have hzero : Put r freed i s (s'.setInode i fun _ => .zero) :=
        .of_setInode hw (hinv.setInode (fun hne => absurd rfl hne) (by dsimp only [Inode.zero]; omega))
          fun hne => absurd rfl hne
      -- not in the map: truncated, and used for ever
      have hleft : freed = false → ∀ v, Put r freed i s (s'.setInode i fun x => { x with iDirt := v }) := by
        intro hfreed v
        refine .of_setInode hw
          (hinv.setInode (.of_used hi hsb (by dsimp only; omega)) (by dsimp only; omega)) fun _ => ⟨rfl, fun hor => ?_⟩
        rw [hnlink', hfreed] at hor
        rcases hor with hne | hfalse
        · exact absurd hnlink hne
        · cases hfalse
      refine Ends.bind (.modify (.modify ?_))
      cases hfreed : freed with
      | true =>
          rw [if_pos rfl, ← hfreed]
          split
          · unfold State.setDirt
            rw [setInode_setInode]
            exact hzero
          · exact hzero
      | false =>
          rw [if_neg Bool.false_ne_true, ← hfreed]
          split
          · exact hleft hfreed true
          · have hput := hleft hfreed (s'.inode i).iDirt
            rw [setInode_self rfl] at hput
            exact hput
  · next hnlink =>
      refine .modify ?_
      unfold State.setDirt State.drop
      rw [setInode_setInode]
      refine .of_setInode hw (hinv.setInode (fun _ => ⟨hi, fun _ => rfl, .inl hsb⟩) (by dsimp only; omega)) ?_
      refine fun _ => ⟨rfl, fun _ => ?_⟩
      dsimp only
      omega

/-- `iput` of the inode that `get_empty_inode` has taken. -/
theorem Put.empty {e : Nat} (hput : Put (add r e 1) false e s s') : Inv r s' := by
  have hinv := hput.inv
  rw [add_add, Int.add_right_neg, add_zero] at hinv
  exact hinv

/-- One reference more to the inode that a call returns. -/
def gain (r : Nat → Int) : Option Nat → Nat → Int
  | none => r
  | some i => add r i 1

theorem gain_apply (r : Nat → Int) (o : Option Nat) (i : Nat) : gain r o i = r i + if o = some i then 1 else 0 := by
  cases o with
  | none => exact (Int.add_zero _).symm
  | some m =>
      have hgain : gain r (some m) i = if i = m then r i + 1 else r i := rfl
      rw [hgain]
      by_cases hi : i = m
      · rw [if_pos hi, if_pos (congrArg some hi.symm)]
      · rw [if_neg hi, if_neg fun heq => hi (Option.some.inj heq).symm, Int.add_zero]

/-- What `iget` makes of a state. -/
def Got (r : Nat → Int) (s : State) (o : Option Nat) (s' : State) : Prop :=
  Inv (gain r o) s' ∧ s'.superBlock = s.superBlock

/-- `i_count++` of an inode that has its super block. -/
theorem Inv.dup (h : Inv r s) (hsb : (s.inode i).iDev ≠ 0 → (s.inode i).iCount = 0 →
    getSuper s.superBlock (s.inode i).iDev ≠ none) : Inv (add r i 1) (s.dup i) := by
  refine h.setInode (fun hdev => ?_) (by dsimp only; omega)
  obtain ⟨hi, -, hsuper | ⟨hnone, hcount⟩⟩ := h.ok i hdev
  · exact ⟨hi, fun hzero => absurd hzero (Nat.succ_ne_zero _), .inl hsuper⟩
  · exact absurd hnone (hsb hdev hcount)

theorem crossMount_spec {e : Nat} (hr : ∀ x, 0 ≤ r x) (h : Inv (add (add r e 1) i 1) s) :
    Ends (crossMount i e) s (fun _ => True) (Got r s) := by
  unfold crossMount
  refine Ends.bind (.reads ?_)
  cases hfind : (List.range NR_SUPER).find? fun j => (s.superBlock j).sCovered == some i with
  | none =>
      dsimp only
      rw [add_comm] at h
      refine (iput_spec h false).then_ fun _ s₁ hput => .pure ⟨hput.empty, hput.supers⟩
  | some j =>
      have hj : j < NR_SUPER := List.mem_range.1 (List.mem_of_find?_eq_some hfind)
      refine (iput_spec h false).then_ fun _ s₁ hput => ?_
      have hinv₁ := hput.inv
      rw [add_add, Int.add_right_neg, add_zero] at hinv₁
      refine Ends.bind (.reads ?_)
      cases hmounted : (s₁.superBlock j).sMounted with
      | none =>
          exact (iput_spec hinv₁ false).then_ fun _ s₂ hput₂ =>
            .pure ⟨hput₂.empty, hput₂.supers.trans hput.supers⟩
      | some m =>
          refine Ends.bind (.modify ?_)
          have hused : (s₁.inode m).iCount ≠ 0 := by
            have hcounts := hinv₁.counts m
            have hmounts := refs_le_mounts s₁.superBlock hj m
            have hrefs : 1 ≤ (s₁.superBlock j).refs m := by
              unfold Super.refs
              rw [if_pos hmounted]
              omega
            have hrm : 0 ≤ add r e 1 m := by
              have := hr m
              unfold add
              split <;> omega
            omega
          have hinv₂ := hinv₁.dup (fun _ hzero => absurd hzero hused)
          rw [add_comm] at hinv₂
          exact (iput_spec hinv₂ false).then_ fun _ s₃ hput₃ =>
            .pure ⟨hput₃.empty, hput₃.supers.trans hput.supers⟩

theorem iget_spec (h : Inv r s) (hr : ∀ x, 0 ≤ r x) (hsuper : getSuper s.superBlock dev ≠ none) (nr : Ino) (raw : Raw) :
    Ends (iget dev nr raw) s (fun _ => True) (Got r s) := by
  unfold iget
  split
  · exact .halt trivial
  next hdev =>
  refine (getEmptyInode_spec h).then_ fun e s₁ hempty => Ends.bind (.reads ?_)
  cases hfind : findInode s₁ dev nr with
  | some i =>
      have hfound := List.find?_some hfind
      rw [Bool.and_eq_true, beq_iff_eq, beq_iff_eq] at hfound
      refine Ends.bind (.modify (Ends.bind (.reads ?_)))
      have hinv₂ := hempty.inv.dup (i := i) fun _ _ => by rw [hfound.1, hempty.supers]; exact hsuper
      split
      · exact (crossMount_spec hr hinv₂).mono fun o s₃ hgot => ⟨hgot.1, hgot.2.trans hempty.supers⟩
      · rw [add_comm] at hinv₂
        exact (iput_spec hinv₂ false).then_ fun _ s₃ hput => .pure ⟨hput.empty, hput.supers.trans hempty.supers⟩
  | none =>
      refine Ends.bind (.reads ?_)
      rw [hempty.supers]
      cases hget : getSuper s.superBlock dev with
      | none => exact absurd hget hsuper
      | some j =>
          refine Ends.bind (.modify (.pure ⟨?_, hempty.supers⟩))
          refine hempty.inv.setInode_same (.of_used hempty.lt ⟨j, rfl, ?_⟩ ?_) (Nat.le_refl _)
          · dsimp only
            rw [hempty.supers]
            exact hget
          · dsimp only
            rw [hempty.count]
            exact Nat.one_ne_zero

theorem minixNewInode_spec (h : Inv r s) (nr : Option Ino) :
    Ends (minixNewInode dev nr) s (fun _ => True) (Got r s) := by
  unfold minixNewInode
  refine (getEmptyInode_spec h).then_ fun e s₁ hempty => Ends.bind (.reads ?_)
  cases hget : getSuper s₁.superBlock dev with
  | none =>
      exact (iput_spec hempty.inv false).then_ fun _ s₂ hput =>
        .pure ⟨hput.empty, hput.supers.trans hempty.supers⟩
  | some j =>
      refine Ends.bind (.modify ?_)
      have hinv₂ : Inv (add r e 1) (s₁.setInode e fun x => { x with iSb := some j }) :=
        hempty.inv.setInode_same (fun hdev => absurd hempty.noDev hdev) (Nat.le_refl _)
      cases nr with
      | none =>
          exact (iput_spec hinv₂ false).then_ fun _ s₃ hput =>
            .pure ⟨hput.empty, hput.supers.trans hempty.supers⟩
      | some nr =>
          refine Ends.bind (.modify (.pure ⟨?_, hempty.supers⟩))
          have hself : (s₁.setInode e fun x => { x with iSb := some j }).inode e =
              { s₁.inode e with iSb := some j } := if_pos rfl
          refine hinv₂.setInode_same (.of_used hempty.lt ⟨j, ?_, hget⟩ Nat.one_ne_zero) ?_
          · rw [hself]
          · rw [hself]
            exact hempty.count.le

/-! ## Super blocks that change their devices -/

/-- A super block gets another device, or none: nobody uses the inodes of the device it had, and the inodes of the new
device have it. -/
theorem Inv.setDevice (h : Inv r s) {f : Super → Super} (hj : j < NR_SUPER)
    (hnew : (f (s.superBlock j)).sDev ≠ 0 → getSuper s.superBlock (f (s.superBlock j)).sDev = none)
    (hrefs : ∀ i, (f (s.superBlock j)).refs i ≤ (s.superBlock j).refs i)
    (hunused : ∀ i, (s.inode i).iDev = (s.superBlock j).sDev → (s.inode i).iDev ≠ 0 → (s.inode i).iCount = 0)
    (hleft : ∀ i, (s.inode i).iDev = (f (s.superBlock j)).sDev → (s.inode i).iDev ≠ 0 → (s.inode i).iSb = some j) :
    Inv r (s.setSuper j f) := by
  have hself : (s.setSuper j f).superBlock j = f (s.superBlock j) := if_pos rfl
  have hother : ∀ k, k ≠ j → (s.setSuper j f).superBlock k = s.superBlock k := fun k hk => if_neg hk
  have hfresh : ∀ k < NR_SUPER, (f (s.superBlock j)).sDev ≠ 0 → (s.superBlock k).sDev ≠ (f (s.superBlock j)).sDev :=
    fun k hk hdev => (getSuper_none hdev).1 (hnew hdev) k hk
  have hunique : Unique (s.setSuper j f).superBlock := by
    intro k hk k' hk' hdev heq
    by_cases hkj : k = j
    · by_cases hkj' : k' = j
      · rw [hkj, hkj']
      · rw [hkj, hself] at hdev heq
        rw [hother k' hkj'] at heq
        exact absurd heq.symm (hfresh k' hk' hdev)
    · rw [hother k hkj] at hdev heq
      by_cases hkj' : k' = j
      · rw [hkj', hself] at heq
        exact absurd heq (hfresh k hk (heq ▸ hdev))
      · rw [hother k' hkj'] at heq
        exact h.unique k hk k' hk' hdev heq
  refine ⟨table_setSuper h.table hj f, hunique, fun i hdev => ?_, fun i => ?_⟩
  · obtain ⟨hi, hclean, hsb⟩ := h.ok i hdev
    have hdev' : (s.inode i).iDev ≠ 0 := hdev
    refine ⟨hi, hclean, ?_⟩
    by_cases hnew' : (f (s.superBlock j)).sDev = (s.inode i).iDev
    · refine .inl ⟨j, hleft i hnew'.symm hdev', ?_⟩
      have hget := hunique.getSuper_eq hj (by rw [hself, hnew']; exact hdev')
      rw [hself, hnew'] at hget
      exact hget
    · rcases hsb with ⟨k, hk, hget⟩ | ⟨hnone, hcount⟩
      · obtain ⟨-, hklt, hkdev⟩ := getSuper_some hget
        by_cases hkj : k = j
        · refine .inr ⟨(getSuper_none hdev').2 fun k' hk' heq => ?_, hunused i (hkj ▸ hkdev.symm) hdev'⟩
          by_cases hkj' : k' = j
          · rw [hkj', hself] at heq
            exact hnew' heq
          · rw [hother k' hkj'] at heq
            exact hkj' (hkj ▸ h.unique k' hk' k hklt (heq.symm ▸ hdev') (heq.trans hkdev.symm))
        · refine .inl ⟨k, hk, ?_⟩
          have hget' := hunique.getSuper_eq hklt (by rw [hother k hkj, hkdev]; exact hdev')
          rw [hother k hkj, hkdev] at hget'
          exact hget'
      · refine .inr ⟨(getSuper_none hdev').2 fun k' hk' heq => ?_, hcount⟩
        by_cases hkj' : k' = j
        · rw [hkj', hself] at heq
          exact hnew' heq
        · rw [hother k' hkj'] at heq
          exact (getSuper_none hdev').1 hnone k' hk' heq
  · have hcounts := h.counts i
    have hmounts := mounts_setSuper s f hj i
    have hr := hrefs i
    have hinode : (s.setSuper j f).inode i = s.inode i := rfl
    rw [hinode]
    omega

section

variable {rootDev : Dev}

theorem Inv.putSuper (h : Inv r s) (hunused : ∀ i, (s.inode i).iDev = dev → dev ≠ 0 → (s.inode i).iCount = 0) :
    Inv r (putSuper rootDev dev s) := by
  unfold Mounts.putSuper
  split
  · exact h
  · cases hget : getSuper s.superBlock dev with
    | none => exact h
    | some j =>
        dsimp only
        split
        · exact h
        · obtain ⟨hdev, hj, hjdev⟩ := getSuper_some hget
          refine h.setDevice hj (fun hne => absurd rfl hne) (fun _ => Nat.le_refl _) (fun i hi _ => ?_) ?_
          · exact hunused i (hi.trans hjdev) hdev
          · exact fun i hi hne => absurd hi hne

theorem Inv.invalidateInodes (h : Inv r s) : Inv r (invalidateInodes dev s) := by
  refine ⟨h.table, h.unique, fun i => ?_, fun i => ?_⟩
  · dsimp only [Mounts.invalidateInodes]
    split
    · exact fun hne => absurd rfl hne
    · exact h.ok i
  · have hcount : ((Mounts.invalidateInodes dev s).inode i).iCount = (s.inode i).iCount := by
      dsimp only [Mounts.invalidateInodes]
      split <;> rfl
    rw [hcount]
    exact h.counts i

theorem Inv.checkDiskChange (h : Inv r s) (changed : Bool) : Inv r (checkDiskChange rootDev dev changed s) := by
  unfold Mounts.checkDiskChange
  split
  · exact h
  · have hcomm : Mounts.invalidateInodes dev (Mounts.putSuper rootDev dev s) =
        Mounts.putSuper rootDev dev (Mounts.invalidateInodes dev s) := by
      unfold Mounts.putSuper
      have hsb : (Mounts.invalidateInodes dev s).superBlock = s.superBlock := rfl
      rw [hsb]
      split
      · rfl
      · split
        · rfl
        · split <;> rfl
    rw [hcomm]
    refine h.invalidateInodes.putSuper fun i hi hdev => ?_
    dsimp only [Mounts.invalidateInodes] at hi
    split at hi
    · exact absurd hi.symm hdev
    · next hne => exact absurd hi hne

theorem readSuper_spec (h : Inv r s) (changed good : Bool) (hclear : Clear rootDev s dev changed) :
    Ends (readSuper rootDev dev changed good) s (fun _ => True) fun o s' =>
      Inv r s' ∧ ∀ j, o = some j → j < NR_SUPER ∧ getSuper s'.superBlock dev = some j := by
  unfold readSuper
  split
  · exact .pure ⟨h, fun j hj => by cases hj⟩
  next hdev =>
  refine Ends.bind (.modify (Ends.bind (.reads ?_)))
  have h₁ : Inv r (Mounts.checkDiskChange rootDev dev changed s) := h.checkDiskChange changed
  unfold Clear at hclear
  dsimp only at hclear
  generalize Mounts.checkDiskChange rootDev dev changed s = s₁ at h₁ hclear
  cases hget : getSuper s₁.superBlock dev with
  | some j =>
      refine .pure ⟨h₁, fun k hk => ?_⟩
      rw [← Option.some.inj hk]
      exact ⟨(getSuper_some hget).2.1, hget⟩
  | none =>
      refine Ends.bind (.reads ?_)
      cases hfree : freeSuper s₁.superBlock with
      | none => exact .pure ⟨h₁, fun j hj => by cases hj⟩
      | some j =>
          have hj : j < NR_SUPER := List.mem_range.1 (List.mem_of_find?_eq_some hfree)
          have hfound := List.find?_some hfree
          rw [beq_iff_eq] at hfound
          refine Ends.bind (.modify (.pure ?_))
          cases good with
          | false =>
              refine ⟨h₁.setDevice hj (fun hne => absurd rfl hne) (fun i => Nat.zero_le _) ?_ ?_, ?_⟩
              · exact fun i hi hne => absurd (hi.trans hfound) hne
              · exact fun i hi hne => absurd hi hne
              · exact fun k hk => by cases hk
          | true =>
              have hinv : Inv r (s₁.setSuper j fun _ => ⟨dev, none, none⟩) := by
                refine h₁.setDevice hj (fun _ => hget) (fun i => Nat.zero_le _) ?_ ?_
                · exact fun i hi hne => absurd (hi.trans hfound) hne
                · exact fun i hi _ => hclear hget j hfree i hi
              refine ⟨hinv, fun k hk => ?_⟩
              have hself : ((s₁.setSuper j fun _ => (⟨dev, none, none⟩ : Super)).superBlock j) =
                  ⟨dev, none, none⟩ := if_pos rfl
              have hget' := hinv.unique.getSuper_eq hj (by rw [hself]; exact hdev)
              rw [hself] at hget'
              rw [← Option.some.inj hk]
              exact ⟨hj, hget'⟩

/-! ## Mounting -/

theorem sysMount_spec (h : Inv r s) (hr : ∀ x, 0 ≤ r x) {dir : Nat} (hdir : 1 ≤ r dir) (changed good freed : Bool)
    (raw : Raw) (hclear : Clear rootDev s dev changed) :
    Ends (sysMount rootDev dev dir changed good freed raw) s (fun _ => True) fun _ => Inv (add r dir (-1)) := by
  have hput : ∀ {s'}, Inv r s' → Ends (iput freed (some dir)) s' (fun _ => True) fun _ => Inv (add r dir (-1)) :=
    fun h' => (iput_spec h' freed).mono fun _ _ hput => hput.inv
  unfold sysMount
  refine Ends.bind (.reads ?_)
  split
  · exact hput h
  split
  · exact hput h
  refine (readSuper_spec h changed good hclear).then_ fun o s₁ hsuper => ?_
  obtain ⟨h₁, hsuper⟩ := hsuper
  cases o with
  | none => exact hput h₁
  | some j =>
      obtain ⟨hj, hget⟩ := hsuper j rfl
      refine Ends.bind (.reads (Ends.bind (.reads ?_)))
      split
      · exact hput h₁
      next hcovered =>
      split
      · exact hput h₁
      have hcovered' : (s₁.superBlock j).sCovered = none := not_not.1 hcovered
      refine (iget_spec h₁ hr (by rw [hget]; exact Option.some_ne_none j) _ raw).then_ fun root s₂ hgot => ?_
      obtain ⟨h₂, hsupers₂⟩ := hgot
      refine Ends.bind (.modify ?_)
      have h₃ : Inv r (s₂.setSuper j fun sb => { sb with sMounted := root }) := by
        refine h₂.setSuper hj (fun _ => rfl) fun i => ?_
        have hcovered₂ : (s₂.superBlock j).sCovered = none := hsupers₂ ▸ hcovered'
        rw [gain_apply, refs_uncovered hcovered₂,
          refs_uncovered (x := { s₂.superBlock j with sMounted := root }) hcovered₂]
        by_cases hi : root = some i
        · rw [if_pos hi, if_pos hi]
          omega
        · rw [if_neg hi, if_neg hi]
          omega
      cases root with
      | none => exact hput h₃
      | some m =>
          refine Ends.bind (.modify (.modify ?_))
          have hself : (s₂.setSuper j fun sb => { sb with sMounted := some m }).superBlock j =
              { s₂.superBlock j with sMounted := some m } := if_pos rfl
          have h₄ : Inv (add r dir (-1)) ((s₂.setSuper j fun sb => { sb with sMounted := some m }).setSuper j
              fun sb => { sb with sCovered := some dir }) := by
            refine h₃.setSuper hj (fun _ => rfl) fun i => ?_
            have hcovered₃ : ({ s₂.superBlock j with sMounted := some m } : Super).sCovered = none :=
              hsupers₂ ▸ hcovered'
            rw [hself, refs_uncovered hcovered₃]
            unfold Super.refs add
            dsimp only
            by_cases hi : i = dir
            · rw [if_pos hi, if_pos (congrArg some hi.symm)]
              omega
            · rw [if_neg hi, if_neg fun heq => hi (Option.some.inj heq).symm, Nat.zero_add]
          refine h₄.setInode_same (fun hne => ?_) (Nat.le_refl _)
          have hused : (s₂.inode dir).iCount ≠ 0 := by
            have hcounts := h₃.counts dir
            have hinode : (s₂.setSuper j fun sb => { sb with sMounted := some m }).inode dir = s₂.inode dir := rfl
            rw [hinode] at hcounts
            omega
          obtain ⟨hi, hsb⟩ := (h₄.ok dir).used hne hused
          exact ⟨hi, fun hzero => absurd hzero hused, .inl hsb⟩

/-- The inodes of `dev` are free, but for one that is used once. -/
def Unused (s : State) (dev : Dev) (mounted : Option Nat) : Prop :=
  ∀ i, (s.inode i).iDev = dev → (s.inode i).iCount = 0 ∨ mounted = some i ∧ (s.inode i).iCount = 1

/-- What `sys_umount` makes sure of. -/
theorem unused_of_not_busy {mounted : Option Nat} (h : Inv r s) (hdev : dev ≠ 0) (hbusy : busy s dev mounted = false) :
    Unused s dev mounted := by
  intro i hi
  have hlt : i < NR_INODE := (h.ok i (hi.symm ▸ hdev)).1
  unfold busy at hbusy
  have hno := List.any_eq_false.1 hbusy i (List.mem_range.2 hlt)
  rw [hi, beq_self_eq_true, Bool.true_and, Bool.and_eq_true, not_and, bne_iff_ne, Bool.not_eq_true,
    Bool.not_eq_false', Bool.and_eq_true, beq_iff_eq, beq_iff_eq] at hno
  by_cases hzero : (s.inode i).iCount = 0
  · exact .inl hzero
  · exact .inr (hno hzero)

/-- `iput(sb->s_covered)`: it is not an inode of the device. -/
theorem Put.covered {c : Nat} {freed : Bool} (hput : Put r freed c s s') (h : Inv r s) (hr : ∀ x, 0 ≤ r x)
    (hj : j < NR_SUPER) (hcovered : (s.superBlock j).sCovered = some c)
    (hunused : Unused s dev (s.superBlock j).sMounted) (hdev : dev ≠ 0) :
    Inv r (s'.setSuper j fun sb => { sb with sCovered := none }) ∧
      ∀ i, (s'.inode i).iDev = dev → ∃ v, s'.inode i = { s.inode i with iDirt := v } := by
  refine ⟨hput.inv.setSuper hj (fun _ => rfl) fun i => ?_, fun i hi => ?_⟩
  · rw [refs_uncovered (x := { s'.superBlock j with sCovered := none }) rfl, hput.supers]
    unfold Super.refs add
    dsimp only
    rw [hcovered]
    by_cases hi : i = c
    · rw [if_pos hi, if_pos (congrArg some hi.symm)]
      omega
    · rw [if_neg hi, if_neg fun heq => hi (Option.some.inj heq).symm, Nat.zero_add]
  · by_cases hic : i = c
    · rw [hic] at hi
      have hdevc := (hput.self (hi.symm ▸ hdev)).1
      have hrefs : (s.superBlock j).refs c ≤ (s.inode c).iCount := by
        have hcounts := h.counts c
        have hmounts := refs_le_mounts s.superBlock hj c
        have hrc := hr c
        omega
      unfold Super.refs at hrefs
      rw [if_pos hcovered] at hrefs
      rcases hunused c (hdevc.symm.trans hi) with hzero | ⟨hm, hone⟩
      · omega
      · rw [if_pos hm] at hrefs
        omega
    · exact hput.others i hic

/-- `iput(sb->s_mounted)`: it was the last inode of the device that was used. -/
theorem iput_mounted (h : Inv r s) (hj : j < NR_SUPER) (hcovered : (s.superBlock j).sCovered = none)
    (hunused : Unused s dev (s.superBlock j).sMounted) (hdev : dev ≠ 0) {freedRoot : Bool}
    (hrooted : ∀ m, (s.superBlock j).sMounted = some m → (s.inode m).iDev = dev →
      (s.inode m).iNlink ≠ 0 ∨ freedRoot = true) :
    Ends (iput freedRoot (s.superBlock j).sMounted) s (fun _ => True) fun _ s' =>
      Inv r (s'.setSuper j fun sb => { sb with sMounted := none }) ∧
        ∀ i, (s'.inode i).iDev = dev → (s'.inode i).iCount = 0 := by
  cases hm : (s.superBlock j).sMounted with
  | none =>
      refine .pure ⟨h.setSuper hj (fun _ => rfl) fun i => ?_, fun i hi => ?_⟩
      · rw [refs_uncovered (x := { s.superBlock j with sMounted := none }) hcovered, refs_uncovered hcovered, hm]
      · rcases hunused i hi with hzero | ⟨hsome, -⟩
        · exact hzero
        · rw [hm] at hsome
          cases hsome
  | some m =>
      refine (iput_spec h freedRoot).mono fun _ s' hput => ⟨?_, fun i hi => ?_⟩
      · refine hput.inv.setSuper hj (fun _ => rfl) fun i => ?_
        rw [hput.supers, refs_uncovered (x := { s.superBlock j with sMounted := none }) hcovered,
          refs_uncovered hcovered, hm]
        unfold add
        dsimp only
        by_cases hi : i = m
        · rw [if_pos hi, if_pos (congrArg some hi.symm), if_neg (Option.some_ne_none i).symm]
          omega
        · rw [if_neg hi, if_neg fun heq => hi (Option.some.inj heq).symm, if_neg (Option.some_ne_none i).symm]
      · by_cases him : i = m
        · rw [him] at hi ⊢
          obtain ⟨hdevm, hcount⟩ := hput.self (hi.symm ▸ hdev)
          have hcount' := hcount (hrooted m hm (hdevm.symm.trans hi))
          rcases hunused m (hdevm.symm.trans hi) with hzero | ⟨-, hone⟩ <;> omega
        · obtain ⟨v, hv⟩ := hput.others i him
          rw [hv] at hi ⊢
          rcases hunused i hi with hzero | ⟨hsome, -⟩
          · exact hzero
          · exact absurd (Option.some.inj (hm.symm.trans hsome)).symm him

theorem sysUmount_spec (h : Inv r s) (hr : ∀ x, 0 ≤ r x) (freedCovered freedRoot : Bool)
    (hrooted : Rooted s dev freedRoot) :
    Ends (sysUmount rootDev dev freedCovered freedRoot) s (fun _ => True) fun _ => Inv r := by
  unfold sysUmount
  split
  · exact .pure h
  refine Ends.bind (.reads ?_)
  cases hget : getSuper s.superBlock dev with
  | none => exact .pure h
  | some j =>
    obtain ⟨hdev, hj, -⟩ := getSuper_some hget
    refine Ends.bind (.reads ?_)
    cases hcovered : (s.superBlock j).sCovered with
    | none => exact .pure h
    | some c =>
      refine Ends.bind (.reads ?_)
      cases hbusy : busy s dev (s.superBlock j).sMounted with
      | true => exact .pure h
      | false =>
        have hw : ∀ i, ∃ v, (s.setInode c fun x => { x with iMount := false }).inode i =
            { s.inode i with iMount := v } := by
          intro i
          dsimp only [State.setInode]
          split <;> exact ⟨_, rfl⟩
        have h₁ : Inv r (s.setInode c fun x => { x with iMount := false }) := h.setInode_same (h.ok c) (Nat.le_refl _)
        have hunused₁ : Unused (s.setInode c fun x => { x with iMount := false }) dev (s.superBlock j).sMounted := by
          intro i hi
          obtain ⟨v, hv⟩ := hw i
          rw [hv] at hi ⊢
          exact unused_of_not_busy h hdev hbusy i hi
        refine Ends.bind (.modify ((iput_spec h₁ freedCovered).then_ fun _ s₂ hput => Ends.bind (.modify ?_)))
        obtain ⟨h₃, hsame⟩ := hput.covered h₁ hr hj hcovered hunused₁ hdev
        have hself₃ : (s₂.setSuper j fun sb => { sb with sCovered := none }).superBlock j =
            { s.superBlock j with sCovered := none } := by
          have hsupers : s₂.superBlock = s.superBlock := hput.supers
          rw [← hsupers]
          exact if_pos rfl
        refine Ends.bind (.reads ((iput_mounted h₃ hj ?_ ?_ hdev ?_).then_ fun _ s₄ h₄ =>
          Ends.bind (.modify (Ends.bind (.modify (.modify ?_))))))
        · rw [hself₃]
        · intro i hi
          obtain ⟨v, hv⟩ := hsame i hi
          have hinode : (s₂.setSuper j fun sb => { sb with sCovered := none }).inode i = s₂.inode i := rfl
          rw [hself₃]
          rw [hinode, hv] at hi ⊢
          exact hunused₁ i hi
        · intro m hm hi
          rw [hself₃] at hm
          obtain ⟨v, hv⟩ := hsame m hi
          obtain ⟨w, hw⟩ := hw m
          have hinode : (s₂.setSuper j fun sb => { sb with sCovered := none }).inode m = s₂.inode m := rfl
          rw [hinode, hv, hw]
          exact hrooted j hget m hm
        · exact (h₄.1.putSuper fun i hi _ => h₄.2 i hi).syncInodes

end

/-! ## Runs -/

/-- The references of the processes. -/
def refsOf (held : Nat → Nat) : Nat → Int := fun i => held i

variable {held : Nat → Nat}

theorem refsOf_nonneg (x : Nat) : 0 ≤ refsOf held x := Int.natCast_nonneg _

theorem refsOf_gain (o : Option Nat) : refsOf (Config.gain held o) = gain (refsOf held) o := by
  cases o with
  | none => rfl
  | some i =>
      funext x
      dsimp only [refsOf, Config.gain, gain, add]
      by_cases hx : x = i
      · rw [hx, Function.update_self, if_pos rfl]
        omega
      · rw [Function.update_of_ne hx, if_neg hx]

theorem refsOf_lose (hi : 0 < held i) : refsOf (Config.lose held i) = add (refsOf held) i (-1) := by
  funext x
  dsimp only [refsOf, Config.lose, add]
  by_cases hx : x = i
  · rw [hx, Function.update_self, if_pos rfl]
    omega
  · rw [Function.update_of_ne hx, if_neg hx]

/-- The inode that a process has is used. -/
theorem Inv.held_used (h : Inv (refsOf held) s) (hi : 0 < held i) : (s.inode i).iCount ≠ 0 := by
  have hcounts := h.counts i
  unfold refsOf at hcounts
  omega

theorem Inv.dup_used (h : Inv r s) (hused : (s.inode i).iCount ≠ 0) : Inv (add r i 1) (s.dup i) :=
  h.dup fun _ hzero => absurd hzero hused

theorem inv_step {rootDev : Dev} {c c' : Config} (h : Inv (refsOf c.held) c.tables)
    (hstep : Step rootDev (Clear rootDev) Rooted c c') : Inv (refsOf c'.held) c'.tables := by
  cases hstep with
  | @lookup s s' held o dir nr raw hdir hrun =>
      have h : Inv (refsOf held) s := h
      rw [refsOf_gain]
      by_cases hdev : (s.inode dir).iDev = 0
      · have hpanic : iget (s.inode dir).iDev nr raw s = .error .panic := by
          unfold iget
          rw [if_pos hdev]
          rfl
        rw [hpanic] at hrun
        cases hrun
      · obtain ⟨-, j, -, hget⟩ := (h.ok dir).used hdev (h.held_used hdir)
        have hsuper : getSuper s.superBlock (s.inode dir).iDev ≠ none := by rw [hget]; exact Option.some_ne_none j
        exact ((iget_spec h refsOf_nonneg hsuper nr raw).ok_of hrun).1
  | @dotdot s s' held j c dir hdir hsb hmounted hrun hcovered =>
      have h : Inv (refsOf held) s := h
      have hput := (iput_spec h false).ok_of hrun
      rw [refsOf_gain, refsOf_lose hdir]
      refine hput.inv.dup_used ?_
      have hj : j < NR_SUPER := by
        by_contra hge
        rw [h.table j (Nat.le_of_not_lt hge)] at hmounted
        cases hmounted
      have hcounts := hput.inv.counts c
      have hmounts := refs_le_mounts s'.superBlock hj c
      have hrefs : 1 ≤ (s'.superBlock j).refs c := by
        unfold Super.refs
        rw [if_pos hcovered]
        omega
      have hrc : 0 ≤ add (refsOf held) dir (-1) c := by
        rw [← refsOf_lose hdir]
        exact refsOf_nonneg c
      omega
  | create dir nr hdir hrun =>
      rw [refsOf_gain]
      exact ((minixNewInode_spec h nr).ok_of hrun).1
  | put i freed hi hrun =>
      rw [refsOf_lose hi]
      exact ((iput_spec h freed).ok_of hrun).inv
  | dup i hi =>
      rw [refsOf_gain]
      exact h.dup_used (h.held_used hi)
  | @write s held i mode nlink hi =>
      have h : Inv (refsOf held) s := h
      have hused := h.held_used hi
      refine h.setInode_same (f := fun x => { x with iMode := mode, iNlink := nlink, iDirt := true }) (fun hdev => ?_)
        (Nat.le_refl _)
      obtain ⟨hlt, hsb⟩ := (h.ok i).used hdev hused
      exact ⟨hlt, fun hzero => absurd hzero hused, .inl hsb⟩
  | sync => exact h.syncInodes
  | openDev dev changed => exact h.checkDiskChange changed
  | mount dev dir changed good freed raw hdir hok hrun =>
      rw [refsOf_lose hdir]
      exact (sysMount_spec h refsOf_nonneg (Int.ofNat_le.2 hdir) changed good freed raw hok).ok_of hrun
  | umount dev freedCovered freedRoot hok hrun =>
      exact (sysUmount_spec h refsOf_nonneg freedCovered freedRoot hok).ok_of hrun

theorem inv_boot (rootDev : Dev) (raw : Raw) : Inv (refsOf (boot rootDev raw).held) (boot rootDev raw).tables := by
  have hsuper : ∀ j, j ≠ 0 → (boot rootDev raw).tables.superBlock j = ⟨0, none, none⟩ := fun j hj => if_neg hj
  have hunique : Unique (boot rootDev raw).tables.superBlock := by
    intro j hj j' hj' hdev heq
    by_cases h : j = 0
    · by_cases h' : j' = 0
      · rw [h, h']
      · rw [hsuper j' h'] at heq
        exact absurd heq hdev
    · rw [hsuper j h] at hdev
      exact absurd rfl hdev
  refine ⟨fun j hj => ?_, hunique, fun i hdev => ?_, fun i => ?_⟩
  · rw [hsuper j (by unfold NR_SUPER at hj; omega)]
  · by_cases hi : i = 1
    · rw [hi]
      have hcount : ((boot rootDev raw).tables.inode 1).iCount = 4 := rfl
      refine ⟨by decide, fun hzero => absurd (hcount.symm.trans hzero) (by decide), .inl ⟨0, rfl, ?_⟩⟩
      rw [hi] at hdev
      exact hunique.getSuper_eq (j := 0) (by decide) hdev
    · have hzero : (boot rootDev raw).tables.inode i = .zero := if_neg hi
      rw [hzero] at hdev
      exact absurd rfl hdev
  · have hmounts : mounts (boot rootDev raw).tables.superBlock i = if i = 1 then 2 else 0 := by
      unfold mounts
      rw [Finset.sum_eq_single_of_mem 0 (Finset.mem_range.2 (by decide))]
      · have hrefs : ((boot rootDev raw).tables.superBlock 0).refs i =
            (if some 1 = some i then 1 else 0) + if some 1 = some i then 1 else 0 := rfl
        rw [hrefs]
        by_cases hi : i = 1
        · rw [if_pos (congrArg some hi.symm), if_pos hi]
        · rw [if_neg fun heq => hi (Option.some.inj heq).symm, if_neg hi]
      · intro j _ hj
        rw [hsuper j hj]
        rfl
    rw [hmounts]
    by_cases hi : i = 1
    · rw [hi]
      exact (by decide : (2 : Int) + 2 ≤ 4)
    · have hheld : (boot rootDev raw).held i = 0 := if_neg hi
      unfold refsOf
      rw [if_neg hi, hheld]
      omega

/-- **Inodes that are used have the super blocks of their devices.** -/
theorem inodes_owned (rootDev : Dev) (raw : Raw) (c : Config)
    (h : ReflTransGen (Step rootDev (Clear rootDev) Rooted) (boot rootDev raw) c) : Owned c.tables := by
  have hinv : Inv (refsOf c.held) c.tables := by
    induction h with
    | refl => exact inv_boot rootDev raw
    | tail _ hstep ih => exact inv_step ih hstep
  exact hinv.owned

end

/-! ## A device that is mounted in another place -/

/-- What a call returns, if it does. -/
def value {α : Type} (m : Call α) (s : State) : Option α :=
  match m s with
  | .ok (a, _) => some a
  | .error _ => none

def after {α : Type} (m : Call α) (s : State) : State :=
  match m s with
  | .ok (_, s') => s'
  | .error _ => s

theorem run_eq {α : Type} {m : Call α} {s : State} {a : α} (h : value m s = some a) : m s = .ok (a, after m s) := by
  unfold value at h
  unfold after
  cases hm : m s with
  | ok p =>
      rw [hm] at h
      have ha : p.1 = a := Option.some.inj h
      rw [← ha]
  | error e =>
      rw [hm] at h
      cases h

namespace Remount

def raw : Raw := ⟨0o040755, 2⟩

/-- After the lookup of two directories, 5 and 6. -/
def s₁ : State := after (iget 0x300 5 raw) (boot 0x300 raw).tables
def s₂ : State := after (iget 0x300 6 raw) s₁

/-- After 0x301 has been mounted on the first, and unmounted. -/
def s₃ : State := after (sysMount 0x300 0x301 2 false true false raw) s₂
def s₄ : State := after (sysUmount 0x300 0x301 false false) s₃

/-- After 0x302 has been mounted on the first, and 0x301 on the other. -/
def s₅ : State := after (iget 0x300 5 raw) s₄
def s₆ : State := after (sysMount 0x300 0x302 2 false true false raw) s₅
def s₇ : State := after (sysMount 0x300 0x301 3 false true false raw) s₆

def h₂ : Nat → Nat := Config.gain (Config.gain (boot 0x300 raw).held (some 2)) (some 3)
def h₃ : Nat → Nat := Config.lose h₂ 2
def h₅ : Nat → Nat := Config.gain h₃ (some 2)
def h₆ : Nat → Nat := Config.lose h₅ 2

abbrev Any : Config → Config → Prop := Step 0x300 (fun _ _ _ => True) fun _ _ _ => True

theorem mounted : ReflTransGen Any (boot 0x300 raw) ⟨s₃, h₃⟩ := by
  have hfive : Any (boot 0x300 raw) ⟨s₁, Config.gain (boot 0x300 raw).held (some 2)⟩ :=
    .lookup 1 5 raw (by decide) (run_eq (by decide +kernel))
  have hsix : Any ⟨s₁, Config.gain (boot 0x300 raw).held (some 2)⟩ ⟨s₂, h₂⟩ :=
    .lookup 1 6 raw (by decide) (run_eq (by decide +kernel))
  have hmount : Any ⟨s₂, h₂⟩ ⟨s₃, h₃⟩ :=
    .mount 0x301 2 false true false raw (by decide) trivial (run_eq (by decide +kernel))
  exact ((ReflTransGen.single hfive).tail hsix).tail hmount

theorem remounted : ReflTransGen Any ⟨s₃, h₃⟩ ⟨s₇, Config.lose h₆ 3⟩ := by
  have humount : Any ⟨s₃, h₃⟩ ⟨s₄, h₃⟩ := .umount 0x301 false false trivial (run_eq (by decide +kernel))
  have hfive : Any ⟨s₄, h₃⟩ ⟨s₅, h₅⟩ := .lookup 1 5 raw (by decide) (run_eq (by decide +kernel))
  have hother : Any ⟨s₅, h₅⟩ ⟨s₆, h₆⟩ :=
    .mount 0x302 2 false true false raw (by decide) trivial (run_eq (by decide +kernel))
  have hagain : Any ⟨s₆, h₆⟩ ⟨s₇, Config.lose h₆ 3⟩ :=
    .mount 0x301 3 false true false raw (by decide) trivial (run_eq (by decide +kernel))
  exact (((ReflTransGen.single humount).tail hfive).tail hother).tail hagain

end Remount

open Remount in
/-- The first mount is one of those that are allowed. -/
theorem inodes_owned_mount : Owned s₃ := by
  have hfive : Step 0x300 (Clear 0x300) Rooted (boot 0x300 raw) ⟨s₁, Config.gain (boot 0x300 raw).held (some 2)⟩ :=
    .lookup 1 5 raw (by decide) (run_eq (by decide +kernel))
  have hsix : Step 0x300 (Clear 0x300) Rooted ⟨s₁, Config.gain (boot 0x300 raw).held (some 2)⟩ ⟨s₂, h₂⟩ :=
    .lookup 1 6 raw (by decide) (run_eq (by decide +kernel))
  have hinv : Inv (refsOf h₂) s₂ := inv_step (inv_step (inv_boot 0x300 raw) hfive) hsix
  have habsent : ∀ i < NR_INODE, (s₂.inode i).iDev ≠ 0x301 := by decide +kernel
  have hclear : Clear 0x300 s₂ 0x301 false := by
    intro _ j _ i hi
    have hi : (s₂.inode i).iDev = 0x301 := hi
    have hlt := (hinv.ok i (by rw [hi]; decide)).1
    exact absurd hi (habsent i hlt)
  exact inodes_owned 0x300 raw ⟨s₃, h₃⟩ (((ReflTransGen.single hfive).tail hsix).tail
    (.mount 0x301 2 false true false raw (by decide) hclear (run_eq (by decide +kernel))))

open Remount in
/-- **The root of the file system has the super block of another**: it was left in core when its own was taken away. -/
theorem remount_keeps_old_super : ¬ ∀ (rootDev : Dev) (raw : Raw) (c : Config),
    ReflTransGen (Step rootDev (fun _ _ _ => True) fun _ _ _ => True) (boot rootDev raw) c → Owned c.tables := by
  intro h
  have hroot : (s₇.inode 4).iDev = 0x301 ∧ (s₇.inode 4).iCount = 1 ∧ (s₇.inode 4).iSb = some 1 ∧
      (s₇.superBlock 1).sDev = 0x302 := by decide +kernel
  obtain ⟨hdev, hcount, hsb, hother⟩ := hroot
  obtain ⟨j, hj, hown, hiff⟩ := h 0x300 raw _ (mounted.trans remounted) 4 (by rw [hdev]; decide)
    (.inl (hcount.symm ▸ Nat.one_pos))
  have hj : j = 1 := Option.some.inj (hown.symm.trans hsb)
  have heq := (hiff 1 (by decide)).2 hj.symm
  rw [hdev, hother] at heq
  exact absurd heq (by decide)

end Mounts
end Fs
end Linux095
