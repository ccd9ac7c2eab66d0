import Linux095.Coop.Actions
import Linux095.Fs.InodeTable

/-!
# `Fs.InodeLoops` — the loops that write inodes back (`fs/inode.c`)

`get_empty_inode` writes an inode `while` it is dirty, and `iput` does so again and again. But `write_inode` declines
an inode that has no device, and `invalidate_inodes` takes the device away from inodes that are in use.

* `server` — what processes do to inodes, with the change of a removable disk;
* `loops_end` — **as long as nobody sets `i_dirt` of an inode without a device, the loops end in every state**;
* `invalidated_inode_hangs` — a file that is written after its disk has been changed, and then closed, leaves
  `get_empty_inode` in its loop for ever.
-/

namespace Linux095
namespace Fs
namespace Inodes
open Coop Relation
open Namei (inMap)

/-! ## What processes call -/

/-- The body of `invalidate_inodes`, for one inode. -/
def invalidateInode (dev : Dev) (i : Nat) : Thread State Unit := do
  waitOnInode i
  .modify fun s => s.setInode i fun x => if x.iDev = dev then { x with iDev := 0, iDirt := false } else x

/-- `invalidate_inodes`, with `n` inodes left from `i` on. -/
def invalidateInodesFrom (dev : Dev) : Nat → Nat → Thread State Unit
  | 0, _ => return
  | n + 1, i => do
      invalidateInode dev i
      invalidateInodesFrom dev n (i + 1)

/-- `invalidate_inodes`. -/
def invalidateInodes (dev : Dev) : Thread State Unit := invalidateInodesFrom dev NR_INODE 0

/-- `get_pipe_inode`; there may be no page. -/
def getPipeInode (fuel : Nat) : Thread State (Option Nat) := do
  let i ← getEmptyInode fuel
  .doze
  if ← .any Bool then
    .modify fun s => s.setInode i fun x => { x with iCount := 2, iPipe := true }
    return some i
  else
    .modify fun s => s.setInode i fun x => { x with iCount := 0 }
    return none

/-- What the operations on files do to an inode that they hold: after they have slept, they set `i_dirt`. `sys_chmod`
and the like change the mode, `sys_link` and the like the links, and `sys_mount` and `sys_umount` say so. -/
def modifyInode (i : Nat) : Thread State Unit := do
  .doze
  let x ← .any (BitVec 16 × BitVec 16 × Bool)
  .modify fun s => s.setInode i fun y => { y with iMode := x.1, iNlink := x.2.1, iMount := x.2.2, iDirt := true }

/-- `minix_file_write`, which sets `i_dirt` after the blocks have been read. -/
def fileWrite (i : Nat) : Thread State Unit := do
  .doze
  .modify fun s => s.setDirt i true

inductive Call where
  | iget (dev : Dev) (nr : Ino)
  | newInode (dev : Dev)
  | getPipe
  /-- `dup` and `fork`. -/
  | dup (i : Nat)
  | iput (i : Nat)
  | unlink (dir : Nat)
  | modify (i : Nat)
  | write (i : Nat)
  | sync
  /-- `check_disk_change`. -/
  | invalidate (dev : Dev)

/-- How many references a process has to each inode. -/
abbrev Refs := Nat → Nat

def Refs.add (r : Refs) (i n : Nat) : Refs := fun x => if x = i then r x + n else r x

def Refs.drop (r : Refs) (i : Nat) : Refs := fun x => if x = i then r x - 1 else r x

section
variable (sb : Nat → Namei.SuperBlock) (fuel : Nat)

def Call.thread (p : Nat) : Call → Thread State (Option Nat)
  | .iget dev nr => Inodes.iget sb p fuel dev nr
  | .newInode dev => minixNewInode sb p fuel dev
  | .getPipe => getPipeInode fuel
  | .dup i => do
      .modify fun s => s.dup i
      return some i
  | .iput i => do
      Inodes.iput sb p fuel (some i)
      return none
  | .unlink dir => do
      minixUnlink sb p fuel dir
      return none
  | .modify i => do
      modifyInode i
      return none
  | .write i => do
      fileWrite i
      return none
  | .sync => do
      syncDev
      return none
  | .invalidate dev => do
      invalidateInodes dev
      return none

end

/-- A process gives up only what it has, and works only on that. -/
def Call.pre : Call → Refs → Prop
  | .dup i, r => 0 < r i
  | .iput i, r => 0 < r i
  | .unlink dir, r => 0 < r dir
  | .modify i, r => 0 < r i
  | .write i, r => 0 < r i
  | _, _ => True

def Call.after : Call → Option Nat → Refs → Refs
  | .iput i, _, r => r.drop i
  | .unlink dir, _, r => r.drop dir
  | .getPipe, some i, r => r.add i 2
  | _, some i, r => r.add i 1
  | _, none, r => r

/-! ## Inodes without a device -/

/-- An inode that is dirty has a device. -/
def Inode.Attached (x : Inode) : Prop := x.iDirt = true → x.iDev ≠ 0

/-- Every inode that is dirty has a device. -/
def Attached (s : State) : Prop := ∀ i, (s.inode i).Attached

/-- **The condition on a step**: it does not set `i_dirt` of an inode that has no device. -/
def Fits (s s' : State) : Prop := ∀ i, (s.inode i).iDirt = false → (s'.inode i).Attached

/-- An inode that is dirty and has a device does not lose the device and stay dirty. -/
def Inode.Keeps (x y : Inode) : Prop := x.iDirt = true → x.iDev ≠ 0 → y.Attached

/-- No inode that is dirty loses its device and stays dirty. -/
def Keeps (s s' : State) : Prop := ∀ i, (s.inode i).Keeps (s'.inode i)

/-- The processes, over the inode table. -/
def server (sb : Nat → Namei.SuperBlock) (fuel : Nat) : Server State Unit Refs Call (Option Nat) where
  inv s _ := Attached s
  fits := Fits
  irq _ _ := False
  rely _ _ _ := True
  guar _ _ _ := True
  inv_irq _ _ _ h := h.elim
  rely_refl _ _ := trivial
  rely_trans _ _ _ _ _ _ := trivial
  rely_irq _ _ _ _ := trivial
  guar_refl _ _ := trivial
  guar_rely _ _ _ _ _ _ := trivial
  thread := Call.thread sb fuel
  rest _ _ := True
  pre _ c r _ := c.pre r
  after := Call.after
  within _ _ _ := True
  post _ _ _ _ := True

/-- What happens to other inodes, and to `i` but that its `i_dirt` is not set, while a loop waits. -/
def Quiet (i : Nat) : State → State → Prop :=
  ReflTransGen fun s s' => Keeps s s' ∧ Fits s s' ∧ ((s.inode i).iDirt = false → (s'.inode i).iDirt = false)

/-- The loops come to an end when no one else modifies the inode, and who has locked it unlocks it. -/
structure LoopsEnd (sb : Nat → Namei.SuperBlock) (s : State) : Prop where
  /-- `while (inode->i_dirt)` of `get_empty_inode`. -/
  clean : ∀ i, ∃ n, (cleanInode i n).Ends (Quiet i) (fun _ _ => True) s
  /-- `goto repeat` of `iput`. -/
  put : ∀ p i, ∃ n, (putLast sb p i n).Ends (Quiet i) (fun _ _ => True) s

/-! ## What the threads do -/

theorem Inode.Keeps.refl (x : Inode) : x.Keeps x := fun _ hdev _ => hdev

theorem Inode.Keeps.clean {x y : Inode} (h : y.iDirt = false) : x.Keeps y := by
  intro _ _ hdirt
  rw [h] at hdirt
  cases hdirt

theorem Inode.Keeps.dev {x y : Inode} (h : x.iDev ≠ 0 → y.iDev ≠ 0) : x.Keeps y := fun _ hdev _ => h hdev

theorem Keeps.refl (s : State) : Keeps s s := fun i => .refl (s.inode i)

/-- An action on one inode. -/
theorem Keeps.setInode {s : State} {i : Nat} {f : Inode → Inode} (h : (s.inode i).Keeps (f (s.inode i))) :
    Keeps s (s.setInode i f) := by
  intro x
  show (s.inode x).Keeps (if x = i then f (s.inode x) else s.inode x)
  split
  · rename_i hx
    subst hx
    exact h
  · exact .refl _

theorem Keeps.writeRaw (s : State) (i : Nat) (dev : Dev) (b : Nat) : Keeps s (s.writeRaw i dev b) :=
  Keeps.setInode (s := s) (f := fun x => { x with iDirt := false }) (.clean rfl)

theorem Attached.step {s s' : State} (h : Attached s) (hkeeps : Keeps s s') (hfits : Fits s s') : Attached s' := by
  intro i hdirt
  cases hi : (s.inode i).iDirt with
  | false => exact hfits i hi hdirt
  | true => exact hkeeps i hi (h i hi) hdirt

section Acts

theorem waitOnInode_acts (i : Nat) : (waitOnInode i).Acts Keeps := .await Keeps.refl

theorem modify_acts {i : Nat} {f : Inode → Inode} (h : ∀ x : Inode, x.Keeps (f x)) :
    (Thread.modify fun s => s.setInode i f).Acts Keeps :=
  .modify fun _ => .setInode (h _)

theorem reads_acts {α : Type} (f : State → α) : (Thread.reads f).Acts Keeps := .reads Keeps.refl

theorem lockInode_acts (i : Nat) : (lockInode i).Acts Keeps :=
  .bind (waitOnInode_acts i) fun _ => modify_acts fun _ => .dev id

theorem unlockInode_acts (i : Nat) : (unlockInode i).Acts Keeps := modify_acts fun _ => .dev id

theorem writeInode_acts (i : Nat) : (writeInode i).Acts Keeps := by
  refine .bind (lockInode_acts i) fun _ => .bind (reads_acts _) fun x => ?_
  split
  · exact unlockInode_acts i
  · exact .bind .doze fun _ => .bind (.modify fun s => .writeRaw s i _ _) fun _ => unlockInode_acts i

theorem readInode_acts (i : Nat) : (readInode i).Acts Keeps := by
  refine .bind (lockInode_acts i) fun _ => .bind (reads_acts _) fun x => ?_
  exact .bind .doze fun _ => .bind (.modify fun s => .setInode (.dev id)) fun _ => unlockInode_acts i

theorem syncInodesFrom_acts (n i : Nat) : (syncInodesFrom n i).Acts Keeps := by
  induction n generalizing i with
  | zero => exact .pure
  | succ n ih =>
      refine .bind (waitOnInode_acts i) fun _ => .bind (reads_acts _) fun x => ?_
      split
      · exact .bind (writeInode_acts i) fun _ => ih (i + 1)
      · exact ih (i + 1)

theorem syncDev_acts : syncDev.Acts Keeps :=
  .bind .doze fun _ => .bind (syncInodesFrom_acts NR_INODE 0) fun _ => .doze

theorem invalidateInode_acts (dev : Dev) (i : Nat) : (invalidateInode dev i).Acts Keeps := by
  refine .bind (waitOnInode_acts i) fun _ => modify_acts fun x => ?_
  split
  · exact .clean rfl
  · exact .refl x

theorem invalidateInodesFrom_acts (dev : Dev) (n i : Nat) : (invalidateInodesFrom dev n i).Acts Keeps := by
  induction n generalizing i with
  | zero => exact .pure
  | succ n ih => exact .bind (invalidateInode_acts dev i) fun _ => ih (i + 1)

theorem cleanInode_acts (i fuel : Nat) : (cleanInode i fuel).Acts Keeps := by
  induction fuel with
  | zero => exact .stop
  | succ fuel ih =>
      refine .bind (reads_acts _) fun x => ?_
      split
      · exact .bind (writeInode_acts i) fun _ => .bind (waitOnInode_acts i) fun _ => ih
      · exact .pure

theorem getEmptyInode_acts (fuel : Nat) : (getEmptyInode fuel).Acts Keeps := by
  induction fuel with
  | zero => exact .stop
  | succ fuel ih =>
      refine .bind (reads_acts _) fun c => .bind (.modify Keeps.refl) fun _ => ?_
      split
      · exact .stop
      · refine .bind (waitOnInode_acts _) fun _ => .bind (cleanInode_acts _ fuel) fun _ => ?_
        refine .bind (.when Keeps.refl ?_) ?_
        · rintro s _ ⟨⟩
          exact .setInode (.clean rfl)
        · intro b
          split
          · exact .pure
          · exact ih

theorem getPipeInode_acts (fuel : Nat) : (getPipeInode fuel).Acts Keeps := by
  refine .bind (getEmptyInode_acts fuel) fun i => .bind .doze fun _ => .bind .any fun b => ?_
  split
  · exact .bind (modify_acts fun _ => .dev id) fun _ => .pure
  · exact .bind (modify_acts fun _ => .dev id) fun _ => .pure

variable (sb : Nat → Namei.SuperBlock) (p fuel : Nat)

theorem dup_acts (i : Nat) : (Thread.modify fun s => s.dup i).Acts Keeps := modify_acts fun _ => .dev id

theorem drop_acts (i : Nat) : (Thread.modify fun s => s.drop i).Acts Keeps := modify_acts fun _ => .dev id

theorem setDirt_acts (i : Nat) (v : Bool) : (Thread.modify fun s => s.setDirt i v).Acts Keeps :=
  modify_acts fun _ => .dev id

theorem minixTruncate_acts (i : Nat) : (minixTruncate i).Acts Keeps := by
  refine .bind (reads_acts _) fun mode => ?_
  split
  · exact .bind .doze fun _ => setDirt_acts i true
  · exact .pure

theorem Keeps.free (s : State) (i j : Nat) : Keeps s (s.free i j) :=
  Keeps.setInode (s := s) (f := fun _ => Inode.zero) (.clean rfl)

theorem minixFreeInode_acts (i : Nat) : (minixFreeInode sb i).Acts Keeps := by
  refine .bind (reads_acts _) fun x => ?_
  split
  · exact modify_acts fun _ => .clean rfl
  split
  · exact .pure
  split
  · exact .pure
  split
  · exact .pure
  split
  · exact .modify fun s => .free s i _
  · exact .pure

theorem putLast_acts (i n : Nat) : (putLast sb p i n).Acts Keeps := by
  induction n with
  | zero => exact .stop
  | succ n ih =>
      refine .bind (reads_acts _) fun x => ?_
      split
      · exact drop_acts i
      split
      · exact .bind (.modify Keeps.refl) fun _ => .bind (minixTruncate_acts i) fun _ => minixFreeInode_acts sb i
      split
      · exact .bind (writeInode_acts i) fun _ => .bind (waitOnInode_acts i) fun _ => ih
      · exact drop_acts i

/-- The last reference to a pipe leaves it clean. -/
theorem dropPipe_acts (i : Nat) : (Thread.modify fun s => s.dropPipe i).Acts Keeps := by
  refine modify_acts fun x => ?_
  split
  · exact .clean rfl
  · exact .dev id

theorem iput_acts (a : Option Nat) : (Inodes.iput sb p fuel a).Acts Keeps := by
  cases a with
  | none => exact .pure
  | some i =>
      refine .bind (waitOnInode_acts i) fun _ => .bind (reads_acts _) fun x => ?_
      split
      · exact .fault
      split
      · exact dropPipe_acts i
      split
      · exact drop_acts i
      split
      · exact .bind syncDev_acts fun _ => .bind (waitOnInode_acts i) fun _ => putLast_acts sb p i fuel
      · exact putLast_acts sb p i fuel

theorem crossMount_acts (i empty : Nat) : (crossMount sb p fuel i empty).Acts Keeps := by
  unfold crossMount
  split
  · exact .bind (iput_acts sb p fuel _) fun _ => .pure
  · refine .bind (iput_acts sb p fuel _) fun _ => ?_
    split
    · exact .bind (iput_acts sb p fuel _) fun _ => .pure
    · exact .bind (dup_acts _) fun _ => .bind (waitOnInode_acts _) fun _ =>
        .bind (iput_acts sb p fuel _) fun _ => .pure

variable {sb} in
/-- Only a device has a super block. -/
theorem getSuper_ne_zero {dev : Dev} {j : Nat} (h : getSuper sb dev = some j) : dev ≠ 0 := by
  intro hdev
  rw [getSuper, if_pos hdev] at h
  cases h

theorem Keeps.hit (s : State) (i : Nat) : Keeps s (s.hit i) :=
  Keeps.setInode (s := s) (f := fun x => { x with iCount := x.iCount + 1 }) (.dev id)

theorem Keeps.attach (s : State) (empty j : Nat) {dev : Dev} (nr : Ino) (h : dev ≠ 0) :
    Keeps s (s.attach sb empty j dev nr) :=
  Keeps.setInode (s := s) (f := fun x => { x with iSb := some j, iDev := dev, iIno := nr }) (.dev fun _ => h)

theorem Keeps.allocate (s : State) (empty j : Nat) {dev : Dev} (nr : Ino) (h : dev ≠ 0) :
    Keeps s (s.allocate empty j dev nr) :=
  Keeps.setInode (s := s)
    (f := fun x => { x with iSb := some j, iDev := dev, iIno := nr, iNlink := 1, iCount := 1, iDirt := true })
    (.dev fun _ => h)

theorem scan_acts (dev : Dev) (nr : Ino) (empty n : Nat) : (scan sb p dev nr empty n).Acts Keeps := by
  induction n with
  | zero => exact .stop
  | succ n ih =>
      refine .bind (reads_acts _) fun found => ?_
      split
      · refine .bind (waitOnInode_acts _) fun _ => .bind (reads_acts _) fun x => ?_
        split
        · refine .bind (.modify fun s => .hit s _) fun _ => ?_
          split
          · exact crossMount_acts sb p n _ empty
          · exact .bind (iput_acts sb p n _) fun _ => .pure
        · exact ih
      · split
        · exact .bind (iput_acts sb p n _) fun _ => .pure
        · rename_i j hsuper
          have hattach : ∀ s, Keeps s (s.attach sb empty j dev nr) := fun s =>
            .attach sb s empty j nr (getSuper_ne_zero hsuper)
          exact .bind (.modify hattach) fun _ => .bind (readInode_acts empty) fun _ => .pure

theorem iget_acts (dev : Dev) (nr : Ino) : (Inodes.iget sb p fuel dev nr).Acts Keeps := by
  unfold Inodes.iget
  split
  · exact .stop
  · exact .bind (getEmptyInode_acts fuel) fun empty => scan_acts sb p dev nr empty fuel

theorem minixNewInode_acts (dev : Dev) : (minixNewInode sb p fuel dev).Acts Keeps := by
  refine .bind (getEmptyInode_acts fuel) fun empty => ?_
  split
  · exact .bind (iput_acts sb p fuel _) fun _ => .pure
  · rename_i j hsuper
    refine .bind .any fun nr => .bind (.when Keeps.refl ?_) fun b => ?_
    · rintro s _ ⟨⟩
      exact .allocate s empty j nr (getSuper_ne_zero hsuper)
    split
    · exact .pure
    · exact .bind (iput_acts sb p fuel _) fun _ => .pure

theorem minixUnlink_acts (dir : Nat) : (minixUnlink sb p fuel dir).Acts Keeps := by
  refine .bind .doze fun _ => .bind .any fun found => ?_
  split
  · exact iput_acts sb p fuel _
  · refine .bind (reads_acts _) fun dev => .bind (iget_acts sb p fuel _ _) fun i => ?_
    split
    · exact iput_acts sb p fuel _
    · refine .bind .any fun b => ?_
      split
      · refine .bind (modify_acts fun _ => .dev id) fun _ => ?_
        exact .bind (iput_acts sb p fuel _) fun _ => iput_acts sb p fuel _
      · exact .bind (iput_acts sb p fuel _) fun _ => iput_acts sb p fuel _

/-- No call lets a dirty inode lose its device and stay dirty. -/
theorem Call.thread_acts (c : Call) : (c.thread sb fuel p).Acts Keeps := by
  cases c with
  | iget dev nr => exact iget_acts sb p fuel dev nr
  | newInode dev => exact minixNewInode_acts sb p fuel dev
  | getPipe => exact getPipeInode_acts fuel
  | dup i => exact .bind (dup_acts i) fun _ => .pure
  | iput i => exact .bind (iput_acts sb p fuel _) fun _ => .pure
  | unlink dir => exact .bind (minixUnlink_acts sb p fuel dir) fun _ => .pure
  | modify i => exact .bind (.bind .doze fun _ => .bind .any fun _ => modify_acts fun _ => .dev id) fun _ => .pure
  | write i => exact .bind (.bind .doze fun _ => setDirt_acts i true) fun _ => .pure
  | sync => exact .bind syncDev_acts fun _ => .pure
  | invalidate dev => exact .bind (invalidateInodesFrom_acts dev NR_INODE 0) fun _ => .pure

end Acts

/-! ## The loops -/

section Loops

variable {i : Nat} {s s' : State}

theorem Quiet.refl : Quiet i s s := ReflTransGen.refl

theorem Quiet.trans {s'' : State} (h : Quiet i s s') (h' : Quiet i s' s'') : Quiet i s s'' := ReflTransGen.trans h h'

theorem Quiet.attached (h : Quiet i s s') (hs : Attached s) : Attached s' := by
  induction h with
  | refl => exact hs
  | tail _ hstep ih => exact ih.step hstep.1 hstep.2.1

theorem Quiet.clean (h : Quiet i s s') (hs : (s.inode i).iDirt = false) : (s'.inode i).iDirt = false := by
  induction h with
  | refl => exact hs
  | tail _ hstep ih => exact hstep.2.2 ih

theorem setInode_self (s : State) (i : Nat) (f : Inode → Inode) : (s.setInode i f).inode i = f (s.inode i) := by
  simp [State.setInode]

theorem Attached.setLock (h : Attached s) (i : Nat) (v : Bool) : Attached (s.setLock i v) := by
  intro x
  show (if x = i then { s.inode x with iLock := v } else s.inode x).Attached
  split
  · exact h x
  · exact h x

/-- **`write_inode` of an inode that nobody else modifies leaves it clean.** -/
theorem writeInode_cleans (hs : Attached s) :
    (writeInode i).Ends (Quiet i) (fun _ s => (s.inode i).iDirt = false) s := by
  -- `lock_inode`
  have hlock : (lockInode i).Ends (Quiet i) (fun _ => Attached) s := by
    refine .bind (Q := fun _ => Attached) (.await (fun _ _ _ => .trans) fun s' hq _ => hq.attached hs) ?_
    exact fun _ s hs => .modify fun s' hq => (hq.attached hs).setLock i true
  have hunlock : ∀ s : State, (s.inode i).iDirt = false →
      (unlockInode i).Ends (Quiet i) (fun _ s => (s.inode i).iDirt = false) s := by
    intro s hclean
    refine .modify fun s' hq => ?_
    rw [State.setLock, setInode_self]
    exact hq.clean hclean
  refine .bind hlock fun _ s hs => ?_
  -- what `write_inode` has read is still there
  refine .bind (Q := fun x s' => x = s'.inode i ∧ Attached s') (.reads fun s' hq => ⟨rfl, hq.attached hs⟩) ?_
  rintro _ s' ⟨rfl, hs'⟩
  split
  · rename_i hdecline
    refine hunlock s' ?_
    rcases hdecline with hclean | hdev
    · simpa using hclean
    · cases hdirt : (s'.inode i).iDirt with
      | false => rfl
      | true => exact absurd hdev (hs' i hdirt)
  · have hwrite : ∀ dev b s, (Thread.modify fun s => s.writeRaw i dev b).Ends (Quiet i)
        (fun _ s => (s.inode i).iDirt = false) s := by
      intro dev b s
      refine .modify fun s' _ => ?_
      simp [State.writeRaw, State.setDirt, State.setInode]
    refine .bind (Q := fun _ _ => True) (.doze fun _ _ => trivial) fun _ s _ => ?_
    exact .bind (hwrite _ _ s) fun _ s => hunlock s

/-- An inode that is clean stays clean while its lock is waited for. -/
theorem waitOnInode_clean (hs : (s.inode i).iDirt = false) :
    (waitOnInode i).Ends (Quiet i) (fun _ s => (s.inode i).iDirt = false) s :=
  .await (fun _ _ _ => .trans) fun _ hq _ => hq.clean hs

/-- The loop of `get_empty_inode` is over once the inode has been written. -/
theorem cleanInode_ends (hs : Attached s) : (cleanInode i 2).Ends (Quiet i) (fun _ _ => True) s := by
  refine .bind (Q := fun _ s' => Attached s') (.reads fun s' hq => hq.attached hs) fun dirt s hs => ?_
  split
  · refine .bind (writeInode_cleans hs) fun _ s hs => .bind (waitOnInode_clean hs) fun _ s hs => ?_
    refine .bind (Q := fun dirt _ => dirt = false) (.reads fun s' hq => hq.clean hs) ?_
    rintro _ s rfl
    trivial
  · trivial

theorem minixTruncate_ends (s : State) : (minixTruncate i).Ends (Quiet i) (fun _ _ => True) s := by
  refine .bind (Q := fun _ _ => True) (.reads fun _ _ => trivial) fun mode s _ => ?_
  split
  · exact .bind (Q := fun _ _ => True) (.doze fun _ _ => trivial) fun _ s _ => .modify fun _ _ => trivial
  · trivial

theorem minixFreeInode_ends (sb : Nat → Namei.SuperBlock) (s : State) :
    (minixFreeInode sb i).Ends (Quiet i) (fun _ _ => True) s := by
  refine .bind (Q := fun _ _ => True) (.reads fun _ _ => trivial) fun x s _ => ?_
  split
  · exact .modify fun _ _ => trivial
  split
  · trivial
  split
  · trivial
  split
  · trivial
  split
  · exact .modify fun _ _ => trivial
  · trivial

/-- One round of `iput`: it is the last one, or the inode is written. -/
theorem putLast_round {sb : Nat → Namei.SuperBlock} {p n : Nat} {P : State → Prop}
    (hquiet : ∀ s s', Quiet i s s' → P s → P s')
    (hdirty : ∀ s, P s → (s.inode i).iDirt = true →
      (writeInode i >>= fun _ => waitOnInode i >>= fun _ => putLast sb p i n).Ends (Quiet i) (fun _ _ => True) s)
    (hs : P s) : (putLast sb p i (n + 1)).Ends (Quiet i) (fun _ _ => True) s := by
  refine .bind (Q := fun x s' => x = s'.inode i ∧ P s') (.reads fun s' hq => ⟨rfl, hquiet s s' hq hs⟩) ?_
  rintro _ s' ⟨rfl, hs'⟩
  split
  · exact .modify fun _ _ => trivial
  split
  · refine .bind (Q := fun _ _ => True) (.modify fun _ _ => trivial) fun _ s _ => ?_
    exact .bind (minixTruncate_ends s) fun _ s _ => minixFreeInode_ends sb s
  split
  · rename_i hdirt
    exact hdirty s' hs' hdirt
  · exact .modify fun _ _ => trivial

/-- `iput` goes back to `repeat` once at most. -/
theorem putLast_ends (sb : Nat → Namei.SuperBlock) (p : Nat) (hs : Attached s) :
    (putLast sb p i 2).Ends (Quiet i) (fun _ _ => True) s := by
  refine putLast_round (fun _ _ hq => hq.attached) (fun s hs _ => ?_) hs
  refine .bind (writeInode_cleans hs) fun _ s hs => .bind (waitOnInode_clean hs) fun _ s hs => ?_
  refine putLast_round (P := fun s => (s.inode i).iDirt = false) (fun _ _ hq => hq.clean) (fun s hs hdirt => ?_) hs
  rw [hs] at hdirt
  cases hdirt

theorem Attached.loopsEnd (sb : Nat → Namei.SuperBlock) (hs : Attached s) : LoopsEnd sb s :=
  ⟨fun _ => ⟨2, cleanInode_ends hs⟩, fun p _ => ⟨2, putLast_ends sb p hs⟩⟩

/-- `write_inode` declines an inode that has no device. -/
theorem writeInode_declines (hdev : (s.inode i).iDev = 0) (hlock : (s.inode i).iLock = false) :
    (writeInode i).alone s = some ((), (s.setLock i true).setLock i false) := by
  have hawait : (waitOnInode i).alone s = some ((), s) := Thread.alone_await (by simp [hlock])
  have hdev' : ((s.setLock i true).inode i).iDev = 0 := by simp [State.setLock, State.setInode, hdev]
  simp [writeInode, lockInode, unlockInode, Thread.alone_bind, hawait, hdev']

/-- **The loop of `get_empty_inode` does not end** with an inode that is dirty and has no device. -/
theorem cleanInode_hangs {Q : Unit → State → Prop} (hdirt : (s.inode i).iDirt = true) (hdev : (s.inode i).iDev = 0)
    (hlock : (s.inode i).iLock = false) (n : Nat) : ¬ (cleanInode i n).Ends (Quiet i) Q s := by
  induction n generalizing s with
  | zero => exact id
  | succ n ih =>
      intro h
      have hread := h.rest (fun _ => .refl) (Thread.alone_reads _ s)
      rw [if_pos hdirt] at hread
      have hwritten := hread.rest (fun _ => .refl) (writeInode_declines hdev hlock)
      have hunlocked : (((s.setLock i true).setLock i false).inode i).iLock = false := by
        simp [State.setLock, State.setInode]
      refine ih ?_ ?_ hunlocked (hwritten.rest (fun _ => .refl) (Thread.alone_await (by simp [hunlocked])))
      · simpa [State.setLock, State.setInode] using hdirt
      · simpa [State.setLock, State.setInode] using hdev

end Loops

/-! ## Runs -/

/-- **The loops end.** In every run of which no step sets `i_dirt` of an inode without a device, from any state in which
no such inode is dirty, the loops of `get_empty_inode` and `iput` come to an end from every state. -/
theorem loops_end {sb : Nat → Namei.SuperBlock} {fuel : Nat} {s : State} {r : Nat → Refs} (hs : Attached s)
    {c : Pool State Refs Call (Option Nat)}
    (hr : (server sb fuel).Reaches Fits ⟨s, fun p => .idle (r p), none⟩ c) : LoopsEnd sb c.state := by
  have hattached : Attached c.state := by
    refine Server.reaches_inv (P := Keeps) (fun p c => c.thread_acts sb p fuel) ?_ ?_ hs hr
    · exact fun _ _ h => h.elim
    · exact fun _ _ h => h.step
  exact hattached.loopsEnd sb

/-! ## A disk that is changed under an open file -/

/-- A floppy disk is mounted. -/
def floppy : Nat → Namei.SuperBlock
  | 0 => ⟨0x200, 360, fun _ => true, none, none⟩
  | _ => ⟨0, 0, fun _ => false, none, none⟩

/-- The tables of a kernel that has just been started. -/
def boot : State where
  inode _ := .zero
  rawInode _ _ _ := ⟨0o100644#16, 1⟩
  imap _ _ := true
  lastInode := 0
  file _ := ⟨0, none⟩
  task _ := ⟨.live, fun _ => none, fun _ => false, none, none, none, none⟩
  releasing _ := none
  released := []
  freed := []
  late := false
  orphaned := false

theorem boot_attached : Attached boot := nofun

/-- A process has taken another reference to an inode. -/
theorem loops_end_dup : ∃ c : Pool State Refs Call (Option Nat), (c.state.inode 1).iCount = 1 ∧
    LoopsEnd floppy c.state := by
  have hfits : Fits boot (boot.dup 1) := by
    intro i _ hdirt
    revert hdirt
    show (if i = 1 then { Inode.zero with iCount := 1 } else Inode.zero).iDirt = true → _
    split
    · exact nofun
    · exact nofun
  have hcalled : (server floppy 2).Step Fits ⟨boot, fun _ => .idle fun _ => 1, some 0⟩ _ :=
    .call (Call.dup 1) rfl Nat.one_pos
  have hacted : (server floppy 2).Step Fits
      ⟨boot, Function.update (fun _ => .idle fun _ => 1) 0
        (.busy (Call.dup 1) (fun _ => 1) (Call.thread floppy 2 0 (.dup 1))), some 0⟩ _ :=
    .act (Function.update_self 0 _ _) hfits
  exact ⟨_, rfl, loops_end boot_attached (.head (.schedule rfl) (.head hcalled (.single hacted)))⟩

/-- The inode number `k` of the floppy disk. -/
structure Inode.Used (k : Nat) (x : Inode) : Prop where
  dev : x.iDev = 0x200
  ino : x.iIno = BitVec.ofNat 16 k
  count : x.iCount = 1
  lock : x.iLock = false
  dirt : x.iDirt = false
  pipe : x.iPipe = false

/-- The inodes `1` to `m` of the disk have been read in, and there are no others in core. -/
structure Filled (m : Nat) (s : State) : Prop where
  last : s.lastInode = m % NR_INODE
  used : ∀ k, 1 ≤ k → k ≤ m → (s.inode (k % NR_INODE)).Used k
  free : ∀ k, m < k → k ≤ NR_INODE → s.inode (k % NR_INODE) = .zero

theorem filled_boot : Filled 0 boot := ⟨rfl, by omega, fun _ _ _ => rfl⟩

/-- `get_empty_inode` takes the next inode when that is free. -/
theorem findEmpty_next {s : State} {e : Nat} (he : (s.lastInode + 1) % NR_INODE = e) (hfree : s.inode e = .zero) :
    findEmpty s = (some e, e) := by
  have hrange : List.range NR_INODE = 0 :: (List.range 127).map Nat.succ := List.range_succ_eq_map
  subst he
  unfold findEmpty
  simp [hrange, hfree, Inode.zero]

theorem getEmptyInode_alone {s : State} {e n : Nat} (he : (s.lastInode + 1) % NR_INODE = e)
    (hfree : s.inode e = .zero) :
    (getEmptyInode (n + 2)).alone s =
      some (e, State.setInode { s with lastInode := e } e fun _ => { Inode.zero with iCount := 1 }) := by
  have hfind := findEmpty_next he hfree
  have hwait : (waitOnInode e).alone { s with lastInode := e } = some ((), { s with lastInode := e }) :=
    Thread.alone_await (by simp [hfree, Inode.zero])
  have hclean : (cleanInode e (n + 1)).alone { s with lastInode := e } = some ((), { s with lastInode := e }) := by
    simp [cleanInode, Thread.alone_bind, hfree, Inode.zero]
  have htake := Thread.alone_when (c := fun s => (s.inode e).iCount = 0)
    (f := fun s => some (s.setInode e fun _ => { Inode.zero with iCount := 1 })) (s := { s with lastInode := e })
    (by simp [hfree, Inode.zero]) rfl
  simp only [getEmptyInode, Thread.alone_bind, Thread.alone_reads, Thread.alone_modify, Option.bind_some, hfind, hwait,
    hclean]
  rw [htake]
  rfl

/-- The slots of the table, by the numbers `1` to `NR_INODE`. -/
theorem slot_number {i : Nat} (hi : i < NR_INODE) : ∃ k, 1 ≤ k ∧ k ≤ NR_INODE ∧ k % NR_INODE = i := by
  cases i with
  | zero => exact ⟨NR_INODE, by decide, le_rfl, Nat.mod_self _⟩
  | succ i => exact ⟨i + 1, by omega, hi.le, Nat.mod_eq_of_lt hi⟩

/-- `read_inode`, when nothing disturbs it, changes the mode and the links. -/
theorem readInode_alone {s : State} {i : Nat} (hlock : (s.inode i).iLock = false) :
    ∃ mode nlink, (readInode i).alone s =
      some ((), s.setInode i fun x => { x with iMode := mode, iNlink := nlink }) := by
  have hawait : (waitOnInode i).alone s = some ((), s) := Thread.alone_await (by simp [hlock])
  let x := (s.setLock i true).inode i
  let raw := s.rawInode x.iDev (inodeBlock x.iIno) (inodeSlot x.iIno)
  refine ⟨raw.iMode, raw.iNlinks, ?_⟩
  have hstate : ((s.setLock i true).readRaw i x.iDev (inodeBlock x.iIno)).setLock i false =
      s.setInode i fun x => { x with iMode := raw.iMode, iNlink := raw.iNlinks } := by
    simp only [State.setLock, State.readRaw, State.setInode, State.mk.injEq, and_self, and_true]
    funext y
    by_cases hy : y = i
    · subst hy
      simp [hlock, raw, x, State.setLock, State.setInode]
    · simp [hy]
  rw [← hstate]
  simp only [readInode, lockInode, unlockInode, Thread.alone_bind, hawait, Thread.alone_reads, Thread.alone_modify,
    Option.bind_some]
  rfl

/-- The number that comes next is not in core. -/
theorem Filled.findInode_next {m : Nat} {s : State} (h : Filled m s) (hm : m < NR_INODE) :
    findInode s 0x200 (BitVec.ofNat 16 (m + 1)) = none := by
  refine List.find?_eq_none.mpr fun i hi => ?_
  obtain ⟨k, hk, hle, rfl⟩ := slot_number (List.mem_range.mp hi)
  rcases Nat.lt_or_ge m k with hlt | hge
  · simp [h.free k hlt hle, Inode.zero]
  · have hused := h.used k hk hge
    have hne : BitVec.ofNat 16 k ≠ BitVec.ofNat 16 (m + 1) := by
      intro heq
      have hnat := congrArg BitVec.toNat heq
      simp only [BitVec.toNat_ofNat, NR_INODE] at hnat hm
      omega
    simp [hused.dev, hused.ino, hne]

/-- What `iget` makes of a free inode. -/
def igot (nr : Ino) (mode nlink : BitVec 16) : Inode :=
  { Inode.zero with
    iDev := 0x200
    iIno := nr
    iMode := mode
    iNlink := nlink
    iSb := some 0
    iCount := 1 }

/-- `iget` of a number that is not in core, when nothing disturbs it. -/
theorem iget_alone {s : State} {e : Nat} {nr : Ino} (p : Nat) (he : (s.lastInode + 1) % NR_INODE = e)
    (hfree : s.inode e = .zero) (hfind : findInode s 0x200 nr = none) :
    ∃ s' mode nlink, (Inodes.iget floppy p 2 0x200 nr).alone s = some (some e, s') ∧ s'.lastInode = e ∧
      s'.inode = Function.update s.inode e (igot nr mode nlink) := by
  have hempty := getEmptyInode_alone (n := 0) he hfree
  let s₁ := State.setInode { s with lastInode := e } e fun _ => { Inode.zero with iCount := 1 }
  have hfind₁ : findInode s₁ 0x200 nr = none := by
    rw [← hfind]
    refine congrArg (List.find? · _) (funext fun i => ?_)
    show ((if i = e then _ else s.inode i).iDev == _ && (if i = e then _ else s.inode i).iIno == _) = _
    split
    · rename_i hi
      subst hi
      rw [hfree]
    · rfl
  let s₂ := s₁.attach floppy e 0 0x200 nr
  have hself : s₂.inode e = { Inode.zero with
      iCount := 1
      iSb := some 0
      iDev := 0x200
      iIno := nr } := by simp [s₂, s₁, State.attach, State.setInode]
  obtain ⟨mode, nlink, hread⟩ := readInode_alone (s := s₂) (i := e) (by rw [hself]; rfl)
  have hsuper : getSuper floppy 0x200 = some 0 := by decide
  refine ⟨s₂.setInode e fun x => { x with iMode := mode, iNlink := nlink }, mode, nlink, ?_, rfl, ?_⟩
  · unfold Inodes.iget
    rw [if_neg (by decide), Thread.alone_bind, hempty]
    simp only [Option.bind_some, scan, Thread.alone_bind, Thread.alone_reads]
    rw [hfind₁, hsuper]
    simp only [Thread.alone_bind, Thread.alone_modify, Option.bind_some]
    rw [hread]
    rfl
  · funext i
    by_cases hi : i = e
    · subst hi
      simp [State.setInode, hself, igot]
    · simp [s₂, s₁, State.attach, State.setInode, hi]

/-- **One more inode is read in.** -/
theorem Filled.iget {m : Nat} {s : State} (h : Filled m s) (hm : m < NR_INODE) (p : Nat) :
    ∃ s', (Inodes.iget floppy p 2 0x200 (BitVec.ofNat 16 (m + 1))).alone s = some (some ((m + 1) % NR_INODE), s') ∧
      Filled (m + 1) s' := by
  have he : (s.lastInode + 1) % NR_INODE = (m + 1) % NR_INODE := by
    rw [h.last, Nat.mod_add_mod]
  obtain ⟨s', mode, nlink, halone, hlast, hinode⟩ :=
    iget_alone p he (h.free (m + 1) (Nat.lt_succ_self m) hm) (h.findInode_next hm)
  have hother : ∀ k, 1 ≤ k → k ≤ NR_INODE → k ≠ m + 1 → s'.inode (k % NR_INODE) = s.inode (k % NR_INODE) := by
    intro k hk hle hne
    rw [hinode]
    refine Function.update_of_ne (fun heq => hne ?_) _ _
    simp only [NR_INODE] at *
    omega
  refine ⟨s', halone, hlast, fun k hk hle => ?_, fun k hlt hle => ?_⟩
  · by_cases hkm : k = m + 1
    · subst hkm
      rw [hinode, Function.update_self]
      exact ⟨rfl, rfl, rfl, rfl, rfl, rfl⟩
    · rw [hother k hk (hle.trans hm) hkm]
      exact h.used k hk (by omega)
  · rw [hother k (by omega) hle (by omega)]
    exact h.free k (by omega) hle

/-- What `invalidate_inodes` leaves of an inode. -/
def Inode.detach (dev : Dev) (x : Inode) : Inode := if x.iDev = dev then { x with iDev := 0, iDirt := false } else x

/-- `invalidate_inodes`, when no inode is locked. -/
theorem invalidateInodesFrom_alone (dev : Dev) {n i : Nat} {s : State}
    (hlock : ∀ x, i ≤ x → x < i + n → (s.inode x).iLock = false) :
    (invalidateInodesFrom dev n i).alone s =
      some ((), { s with inode := fun x => if i ≤ x ∧ x < i + n then (s.inode x).detach dev else s.inode x }) := by
  induction n generalizing i s with
  | zero =>
      have hnone : ∀ x, ¬ (i ≤ x ∧ x < i) := by omega
      simp [invalidateInodesFrom, hnone]
  | succ n ih =>
      let s₁ := s.setInode i fun x => x.detach dev
      have hbody : (invalidateInode dev i).alone s = some ((), s₁) := by
        have hawait : (waitOnInode i).alone s = some ((), s) :=
          Thread.alone_await (by simp [hlock i le_rfl (by omega)])
        simp only [invalidateInode, Thread.alone_bind, hawait, Option.bind_some, Thread.alone_modify]
        rfl
      have hlock₁ : ∀ x, i + 1 ≤ x → x < i + 1 + n → (s₁.inode x).iLock = false := by
        intro x hx hlt
        have hne : x ≠ i := by omega
        simpa [s₁, State.setInode, hne] using hlock x (by omega) (by omega)
      simp only [invalidateInodesFrom, Thread.alone_bind, hbody, Option.bind_some, ih hlock₁]
      refine congrArg (fun f => some ((), { s with inode := f })) (funext fun x => ?_)
      by_cases hx : x = i
      · subst hx
        simp [s₁, State.setInode]
      · have hrange : (i < x ∧ x < i + 1 + n) ↔ i ≤ x ∧ x < i + (n + 1) := by omega
        simp [s₁, State.setInode, hx, hrange]

/-- Every inode is in use, but the inode 0, which is dirty and has no device. -/
structure Stuck (s : State) : Prop where
  last : s.lastInode = 0
  used : ∀ i, i ≠ 0 → i < NR_INODE → (s.inode i).iCount = 1
  free : (s.inode 0).iCount = 0
  dirt : (s.inode 0).iDirt = true
  dev : (s.inode 0).iDev = 0
  lock : (s.inode 0).iLock = false

/-- The only inode for `get_empty_inode` is the one that is stuck. -/
theorem Stuck.findEmpty {s : State} (h : Stuck s) : (findEmpty s).1 = some 0 := by
  let l := (List.range NR_INODE).map fun k => (s.lastInode + 1 + k) % NR_INODE
  have hl : ∀ i ∈ l, i < NR_INODE := by
    intro i hi
    obtain ⟨k, -, rfl⟩ := List.mem_map.mp hi
    exact Nat.mod_lt _ (by decide)
  have hnone : (l.find? fun i => (s.inode i).iCount = 0 ∧ !(s.inode i).iDirt ∧ !(s.inode i).iLock) = none := by
    refine List.find?_eq_none.mpr fun i hi => ?_
    by_cases hi0 : i = 0
    · subst hi0
      simp [h.dirt]
    · simp [h.used i hi0 (hl i hi)]
  have hfilter : (l.filter fun i => (s.inode i).iCount = 0) = l.filter fun i => i = 0 := by
    refine List.filter_congr fun i hi => ?_
    by_cases hi0 : i = 0
    · subst hi0
      simp [h.free]
    · simp [hi0, h.used i hi0 (hl i hi)]
  have hlast : (l.filter fun i => i = 0).getLast? = some 0 := by
    simp only [l, h.last]
    decide
  unfold Inodes.findEmpty
  dsimp only
  split
  · rename_i hfind
    exact absurd (hfind.symm.trans hnone) (Option.some_ne_none _)
  · exact (congrArg List.getLast? hfilter).trans hlast

/-- The disk is changed, the file in the inode 0 is written, and then closed. -/
theorem Filled.stuck {s : State} (h : Filled NR_INODE s) (p : Nat) : ∃ s₁ s₂ s₃,
    (invalidateInodes 0x200).alone s = some ((), s₁) ∧ (fileWrite 0).alone s₁ = some ((), s₂) ∧
      (Inodes.iput floppy p 2 (some 0)).alone s₂ = some ((), s₃) ∧ Stuck s₃ := by
  have hused : ∀ i < NR_INODE, ∃ k, (s.inode i).Used k := by
    intro i hi
    obtain ⟨k, hk, hle, rfl⟩ := slot_number hi
    exact ⟨k, h.used k hk hle⟩
  have hlock : ∀ x, 0 ≤ x → x < 0 + NR_INODE → (s.inode x).iLock = false := by
    intro x _ hx
    obtain ⟨k, hk⟩ := hused x (by omega)
    exact hk.lock
  have hinvalidate := invalidateInodesFrom_alone 0x200 hlock
  generalize hs₁ : { s with inode := _ } = s₁ at hinvalidate
  -- the inodes stay in use
  have hdetached : ∀ i < NR_INODE, s₁.inode i = { s.inode i with
      iDev := 0
      iDirt := false } := by
    intro i hi
    obtain ⟨k, hk⟩ := hused i hi
    rw [← hs₁]
    have hrange : 0 ≤ i ∧ i < 0 + NR_INODE := by omega
    simp only [hrange, and_self, if_true, Inode.detach, hk.dev]
  obtain ⟨k, hk⟩ := hused 0 (by decide)
  have hzero : s₁.inode 0 = { s.inode 0 with
      iDev := 0
      iDirt := false } := hdetached 0 (by decide)
  let s₂ := s₁.setDirt 0 true
  have hwritten : s₂.inode 0 = { s.inode 0 with
      iDev := 0
      iDirt := true } := by simp [s₂, State.setDirt, State.setInode, hzero]
  refine ⟨s₁, s₂, s₂.drop 0, hinvalidate, rfl, ?_, ?_, ?_, ?_, ?_, ?_, ?_⟩
  · have hawait : (waitOnInode 0).alone s₂ = some ((), s₂) := Thread.alone_await (by simp [hwritten, hk.lock])
    simp [Inodes.iput, Thread.alone_bind, hawait, hwritten, hk.count, hk.pipe]
  · show s₁.lastInode = 0
    rw [← hs₁]
    exact h.last
  · intro i hi hlt
    obtain ⟨k, hk⟩ := hused i hlt
    simp [s₂, State.drop, State.setDirt, State.setInode, hi, hdetached i hlt, hk.count]
  · simp [State.drop, State.setInode, hwritten, hk.count]
  · simp [State.drop, State.setInode, hwritten]
  · simp [State.drop, State.setInode, hwritten]
  · simp [State.drop, State.setInode, hwritten, hk.lock]

/-- The processes read in the first `m` inodes of the disk, one after the other. -/
theorem reaches_filled (m : Nat) (hm : m ≤ NR_INODE) : ∃ (s : State) (x : Nat → Refs), Filled m s ∧
    (server floppy 2).Reaches (fun _ _ => True) ⟨boot, fun _ => .idle fun _ => 0, none⟩
      ⟨s, fun p => .idle (x p), none⟩ := by
  induction m with
  | zero => exact ⟨boot, _, filled_boot, .refl⟩
  | succ m ih =>
      obtain ⟨s, x, hfilled, hrun⟩ := ih (by omega)
      obtain ⟨s', halone, hfilled'⟩ := hfilled.iget hm (m % 64)
      have hcall := Server.reaches_call (S := server floppy 2) (x := x) (p := m % 64)
        (.iget 0x200 (BitVec.ofNat 16 (m + 1))) trivial halone
      exact ⟨s', _, hfilled', hrun.trans hcall⟩

/-- **An open file on a disk that has been changed makes `get_empty_inode` hang.** All inodes are in use when the disk
is changed; the file in the inode 0 is written and closed. Then that inode is the only one that is free, and it is
dirty for ever. -/
theorem invalidated_inode_hangs : ∃ c : Pool State Refs Call (Option Nat),
    (server floppy 2).Reaches (fun _ _ => True) ⟨boot, fun _ => .idle fun _ => 0, none⟩ c ∧
      (findEmpty c.state).1 = some 0 ∧ ∀ n, ¬ (cleanInode 0 n).Ends (Quiet 0) (fun _ _ => True) c.state := by
  obtain ⟨s, x, hfilled, hrun⟩ := reaches_filled 127 (by decide)
  -- the process 0 opens the file
  obtain ⟨s₀, hopened, hfull⟩ := hfilled.iget (by decide) 0
  have hopen := Server.reaches_call (S := server floppy 2) (x := x) (p := 0) (.iget 0x200 (BitVec.ofNat 16 (127 + 1)))
    trivial hopened
  generalize hx₀ : Function.update x 0 _ = x₀ at hopen
  have hholds : 0 < x₀ 0 0 := by
    rw [← hx₀, Function.update_self]
    exact Nat.succ_pos _
  obtain ⟨s₁, s₂, s₃, hinvalidated, hwritten, hput, hstuck⟩ := hfull.stuck 0
  have hvoid : ∀ {t : Thread State Unit} {s s' : State}, t.alone s = some ((), s') →
      (t >>= fun _ => pure none : Thread State (Option Nat)).alone s = some (none, s') := by
    intro t s s' h
    rw [Thread.alone_bind, h]
    rfl
  have hsame : ∀ q (c : Call), c.after none (x₀ q) = x₀ q →
      Function.update x₀ q ((server floppy 2).after c none (x₀ q)) = x₀ := by
    intro q c hafter
    show Function.update x₀ q (c.after none (x₀ q)) = x₀
    rw [hafter, Function.update_eq_self]
  -- the process 1 changes the disk
  have hchange := Server.reaches_call (S := server floppy 2) (x := x₀) (p := 1) (.invalidate 0x200) trivial
    (hvoid hinvalidated)
  rw [hsame 1 _ rfl] at hchange
  -- the process 0 writes the file, and closes it
  have hwrite := Server.reaches_call (S := server floppy 2) (x := x₀) (p := 0) (.write 0) hholds (hvoid hwritten)
  rw [hsame 0 _ rfl] at hwrite
  have hclose := Server.reaches_call (S := server floppy 2) (x := x₀) (p := 0) (.iput 0) hholds (hvoid hput)
  refine ⟨_, hrun.trans (hopen.trans (hchange.trans (hwrite.trans hclose))), hstuck.findEmpty, ?_⟩
  exact cleanInode_hangs hstuck.dirt hstuck.dev hstuck.lock

end Inodes
end Fs
end Linux095
