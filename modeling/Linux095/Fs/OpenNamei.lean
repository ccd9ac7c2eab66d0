import Linux095.Fs.NameiRefs
import Linux095.Fs.Minix.DirMap

/-!
# `Fs.OpenNamei` — opening and creating (`fs/namei.c`, `fs/minix/namei.c`)

`open_namei` looks the last component of a path up, and with `O_CREAT` takes any error for a name that is not there.
`lookup` also fails for a directory that the caller may not search, for one of which a block cannot be read, and for
what is not a directory.

* `openNamei`, `minixCreate` — the source's functions, over those of `Fs.Namei`;
* `Sees` — `lookup` gets to see the entry; `lookup_misses`, `lookup_hits` — it fails just when it does not;
* `CanCreate` — `minix_create` goes through;
* `open_creates_iff` — **a call creates only what is absent, just when the directory lets it see what is there.**
-/

namespace Linux095
namespace Fs
namespace Namei
open Seq Seq.Prog Minix.DirEntry
open Minix.Truncate (S_IFMT S_IFDIR)

def MAY_WRITE : BitVec 16 := 2
def O_ACCMODE : BitVec 32 := 3
def O_WRONLY : BitVec 32 := 1
def O_CREAT : BitVec 32 := 0o100
def O_EXCL : BitVec 32 := 0o200
def O_TRUNC : BitVec 32 := 0o1000
def I_REGULAR : BitVec 16 := 0o100000

/-- `ACC_MODE`, of which the last is a negative `char`. -/
def accMode (flag : BitVec 32) : BitVec 16 :=
  if flag &&& O_ACCMODE = 0 then 4 else if flag &&& O_ACCMODE = 1 then 2 else if flag &&& O_ACCMODE = 2 then 6
  else 0xffff

/-- What is left on the disks. -/
structure Space where
  /-- The inode that `minix_new_inode` finds in the inode map. -/
  newIno : Dev → Option Ino
  /-- `minix_create_block` has the block of a directory, or gets it. -/
  room : Dev → Ino → Nat → Bool

/-- What `open_namei` comes to. The number of the error is left out. -/
inductive Outcome where
  | error
  | opened (inode : Nat)
  /-- In the directory `dir` the entry `slot` has become `name`, for the inode `ino`. -/
  | created (dir : Inode) (slot : Nat) (name : List Byte) (ino : Ino)

section
variable (g : Graph) (sp : Space)

/-- The loop of `minix_add_entry`, which passes over a block that cannot be read. -/
def addLoop (x : Inode) : Nat → Nat → Option Nat
  | 0, _ => none
  | fuel + 1, i =>
      if 0 < i ∧ i % ENTRIES_PER_BLOCK = 0 ∧ sp.room x.iDev x.iIno (i / ENTRIES_PER_BLOCK) = false then none
      else if x.iSize.toNat ≤ i * 16 then some i
      else
        match g.entry x.iDev x.iIno i with
        | none => addLoop x fuel (i + ENTRIES_PER_BLOCK)
        | some de => if de.inode = 0 then some i else addLoop x fuel (i + 1)

/-- The entry that `minix_add_entry` takes. -/
def addEntry (x : Inode) : Option Nat :=
  if x.iData0 = 0 ∨ (g.entry x.iDev x.iIno 0).isNone then none
  else addLoop g sp x (x.iSize.toNat / 16 + 2) 0

/-- `minix_create`, which uses up `dir`. -/
def minixCreate (dir : Nat) (name : List Byte) (mode : BitVec 16) : Call Outcome := do
  let x ← .reads fun s => s.inode dir
  let inode ← getEmptyInode g
  match getSuper g x.iDev, sp.newIno x.iDev with
  | some j, some ino =>
      .modify fun s => s.setInode inode fun _ =>
        { Inode.zero with
          iCount := 1
          iNlink := 1
          iDev := x.iDev
          iUid := g.euid
          iGid := g.egid
          iIno := ino
          iSb := some j
          iOp := true
          iMode := mode }
      match addEntry g sp x with
      | none =>
          .modify fun s => s.setInode inode fun y => { y with iNlink := y.iNlink - 1 }
          iput g (some inode)
          iput g (some dir)
          return .error
      | some slot =>
          .modify fun s => s.setInode dir fun y =>
            { y with iSize := if y.iSize.toNat ≤ slot * 16 then BitVec.ofNat 32 ((slot + 1) * 16) else y.iSize }
          iput g (some dir)
          return .created x slot name ino
  | _, _ =>
      iput g (some inode)
      iput g (some dir)
      return .error

/-- `open_namei`; `minix_truncate` is left out. -/
def openNamei (depth : Nat) (pathname : List Byte) (flag : BitVec 32) (mode umask : BitVec 16) : Call Outcome := do
  let flag := if flag &&& O_TRUNC ≠ 0 ∧ flag &&& O_ACCMODE = 0 then flag ||| O_WRONLY else flag
  let mode := (mode &&& (0o777 &&& ~~~umask)) ||| I_REGULAR
  match ← dirNamei g (fun path dir => namei g depth path (some dir) true) pathname none with
  | none => return .error
  | some (dir, basename) =>
      if basename = [] then
        if flag &&& (O_ACCMODE ||| O_CREAT ||| O_TRUNC) = 0 then return .opened dir
        else
          iput g (some dir)
          return .error
      else
        .modify fun s => s.dup dir
        match ← lookup g dir basename with
        | none =>
            let x ← .reads fun s => s.inode dir
            if flag &&& O_CREAT = 0 ∨ permission g x MAY_WRITE = false ∨ x.iOp = false then
              iput g (some dir)
              return .error
            else minixCreate g sp dir basename mode
        | some inode =>
            if flag &&& O_EXCL ≠ 0 then
              iput g (some dir)
              iput g (some inode)
              return .error
            else
              match ← followLink g (fun path dir => namei g depth path (some dir) true) dir inode with
              | none => return .error
              | some inode =>
                  let x ← .reads fun s => s.inode inode
                  if (x.iMode &&& S_IFMT = S_IFDIR ∧ flag &&& O_ACCMODE ≠ 0) ∨
                      permission g x (accMode flag) = false then
                    iput g (some inode)
                    return .error
                  else return .opened inode

end

/-! ## What `lookup` sees -/

section
variable (g : Graph) (s : State)

/-- `minix_lookup` gets to see an entry for the name. -/
def SeesIn (x : Inode) (name : List Byte) : Prop :=
  permission g x MAY_EXEC = true ∧
    (name = [] ∨ x.iOp = true ∧ x.iMode &&& S_IFMT = S_IFDIR ∧ (findEntry g x name).isSome = true)

/-- Where `lookup` looks: `..` may lead out of a file system, and does not lead out of the root. -/
def target (dir : Nat) (name : List Byte) : Option (Nat × List Byte) :=
  if isDotdot name then
    if dir = g.root then some (dir, name.take 1)
    else
      match (s.inode dir).iSb with
      | none => some (dir, name)
      | some j =>
          if (g.superBlock j).sMounted = some dir then (g.superBlock j).sCovered.map fun c => (c, name)
          else some (dir, name)
  else some (dir, name)

/-- **`lookup` gets to see the entry**: the directory may be searched, and the block of the entry can be read. -/
def Sees (dir : Nat) (name : List Byte) : Prop := ∃ t, target g s dir name = some t ∧ SeesIn g (s.inode t.1) t.2

end

section
variable {g : Graph} {s : State} {d i : Nat} {name : List Byte}

theorem drop_dup (s : State) (i : Nat) : (s.dup i).drop i = s := by
  have hinode : ((s.dup i).drop i).inode = s.inode := by
    funext x
    unfold State.dup State.drop
    rw [State.inode_setInode, State.inode_setInode]
    by_cases hx : x = i
    · rw [if_pos hx, if_pos hx]
      rfl
    · rw [if_neg hx, if_neg hx]
  exact congrArg (fun f => (⟨f, s.linkCount⟩ : State)) hinode

theorem inode_dup_self : (s.dup i).inode i = { s.inode i with iCount := (s.inode i).iCount + 1 } := if_pos rfl

/-- A reference that was made is given back. -/
theorem iput_dup (hi : 0 < (s.inode i).iCount) : iput g (some i) (s.dup i) = .ok ((), s) := by
  have hdrop : (Prog.modify fun t : State => t.drop i : Call Unit) (s.dup i) = .ok ((), s) := by
    show Except.ok ((), (s.dup i).drop i) = _
    rw [drop_dup]
  unfold iput
  dsimp only
  rw [reads_bind, inode_dup_self]
  dsimp only
  rw [if_neg (by omega)]
  by_cases hpipe : (s.inode i).iPipe = true
  · rw [if_pos hpipe, bind_ok hdrop, if_neg (by omega)]
    rfl
  · rw [if_neg hpipe]
    by_cases hdev : (s.inode i).iDev = 0
    · rw [if_pos hdev, hdrop]
    · rw [if_neg hdev, if_pos (by omega), hdrop]

theorem freeInode_returns (x : Inode) : ∃ s', freeInode g i x s = .ok ((), s') := by
  unfold freeInode
  cases x.iSb with
  | none => exact ⟨_, rfl⟩
  | some j =>
    dsimp only
    split <;> exact ⟨_, rfl⟩

/-- `iput` of an inode that somebody has returns. -/
theorem iput_returns (hi : (s.inode i).iCount ≠ 0) : ∃ s', iput g (some i) s = .ok ((), s') := by
  unfold iput
  dsimp only
  rw [reads_bind, if_neg hi]
  by_cases hpipe : (s.inode i).iPipe = true
  · rw [if_pos hpipe, modify_bind]
    split <;> exact ⟨_, rfl⟩
  · rw [if_neg hpipe]
    split
    · exact ⟨_, rfl⟩
    · split
      · exact ⟨_, rfl⟩
      · split
        · exact freeInode_returns _
        · exact ⟨_, rfl⟩

theorem seesIn_dup : SeesIn g ((s.dup i).inode i) name ↔ SeesIn g (s.inode i) name := by
  rw [inode_dup_self]
  exact Iff.rfl

theorem lookupIn_misses (hd : 0 < (s.inode d).iCount) (hno : ¬ SeesIn g (s.inode d) name) :
    lookupIn g (some d) name (s.dup d) = .ok (none, s) := by
  rw [← seesIn_dup] at hno
  unfold SeesIn at hno
  have hput : ∀ f : Unit → Call (Option Nat), (iput g (some d) >>= f) (s.dup d) = f () s := fun f =>
    bind_ok (iput_dup hd) f
  unfold lookupIn
  dsimp only
  rw [reads_bind]
  by_cases hperm : permission g ((s.dup d).inode d) MAY_EXEC = false
  · rw [if_pos hperm, hput]
    rfl
  · rw [if_neg hperm]
    have hrest := fun h => hno ⟨eq_true_of_ne_false hperm, h⟩
    rw [if_neg fun hnil => hrest (.inl hnil)]
    by_cases hop : ((s.dup d).inode d).iOp = false
    · rw [if_pos hop, hput]
      rfl
    · rw [if_neg hop]
      unfold minixLookup
      rw [reads_bind]
      by_cases hdir : ((s.dup d).inode d).iMode &&& S_IFMT ≠ S_IFDIR
      · rw [if_pos hdir, hput]
        rfl
      · rw [if_neg hdir]
        have hnone : findEntry g ((s.dup d).inode d) name = none := by
          cases hfind : findEntry g ((s.dup d).inode d) name with
          | none => rfl
          | some de => exact absurd (.inr ⟨eq_true_of_ne_false hop, not_not.mp hdir, by rw [hfind]; rfl⟩) hrest
        rw [hnone]
        dsimp only
        rw [hput]
        rfl

/-- What `lookup` comes to, from the reference that it is given. -/
theorem lookup_eq (hd : 0 < (s.inode d).iCount) :
    lookup g d name (s.dup d) =
      match target g s d name with
      | none => .ok (none, s)
      | some t => lookupIn g (some t.1) t.2 (s.dup t.1) := by
  unfold lookup target
  by_cases hdd : isDotdot name = true
  · rw [if_pos hdd, if_pos hdd]
    by_cases hroot : d = g.root
    · rw [if_pos hroot, if_pos hroot]
    · rw [if_neg hroot, if_neg hroot, reads_bind, inode_dup_self]
      dsimp only
      cases hsb : (s.inode d).iSb with
      | none => rfl
      | some j =>
        dsimp only
        by_cases hm : (g.superBlock j).sMounted = some d
        · rw [if_pos hm, if_pos hm, bind_ok (iput_dup hd)]
          cases (g.superBlock j).sCovered with
          | none => rfl
          | some c => rfl
        · rw [if_neg hm, if_neg hm]
  · rw [if_neg hdd, if_neg hdd]

/-- The mount points are in use. -/
def Held (g : Graph) (s : State) : Prop := ∀ j c, (g.superBlock j).sCovered = some c → 0 < (s.inode c).iCount

/-- They still are when more is in use. -/
theorem Held.at_ (h : Held g s) {l : List Nat} {s₁ : State}
    (hs₁ : ∀ x, (s₁.inode x).iCount = (s.inode x).iCount + l.count x) : Held g s₁ := by
  intro j c hc
  have := h j c hc
  have := hs₁ c
  omega

theorem target_held (hd : 0 < (s.inode d).iCount) (hheld : Held g s) {t : Nat × List Byte}
    (ht : target g s d name = some t) : 0 < (s.inode t.1).iCount := by
  unfold target at ht
  split at ht
  · split at ht
    · cases ht
      exact hd
    · split at ht
      · cases ht
        exact hd
      · split at ht
        · obtain ⟨c, hc, rfl⟩ := Option.map_eq_some_iff.mp ht
          exact hheld _ c hc
        · cases ht
          exact hd
  · cases ht
    exact hd

/-- **`lookup` fails where it does not see the entry**, and gives back what it was given. -/
theorem lookup_misses (hd : 0 < (s.inode d).iCount) (hheld : Held g s) (hno : ¬ Sees g s d name) :
    lookup g d name (s.dup d) = .ok (none, s) := by
  rw [lookup_eq hd]
  cases ht : target g s d name with
  | none => rfl
  | some t => exact lookupIn_misses (target_held hd hheld ht) fun h => hno ⟨t, ht, h⟩

/-! ## Inodes in core -/

/-- **A system as the mounts leave it**: the inodes in core are of devices that are mounted, and so is something on
    every mount point. -/
structure Sane (g : Graph) (s : State) : Prop where
  graph : g.Sound
  state : s.Sound g
  device : ∀ x, (s.inode x).iDev ≠ 0 → (getSuper g (s.inode x).iDev).isSome = true
  held : Held g s
  mounted : ∀ j c, (g.superBlock j).sCovered = some c → (g.superBlock j).sMounted ≠ none

/-- The account of the references, with the devices. -/
structure Devices (g : Graph) (f : Nat → Nat) (n : Nat) (l : List Nat) (s : State) : Prop where
  holds : Holds g f n l s
  device : ∀ x, (s.inode x).iDev ≠ 0 → (getSuper g (s.inode x).iDev).isSome = true

theorem device_of_kept {f : Nat → Nat} {l : List Nat} {x y : Inode} (h : Kept f l x y i)
    (hx : x.iDev ≠ 0 → (getSuper g x.iDev).isSome = true) : y.iDev ≠ 0 → (getSuper g y.iDev).isSome = true := by
  show y.core.iDev ≠ 0 → (getSuper g y.core.iDev).isSome = true
  rcases h with h | ⟨h, -⟩
  · rw [h]
    exact hx
  · rw [h]
    exact fun h0 => absurd rfl h0

theorem Devices.custody (hg : g.Sound) (f : Nat → Nat) : Custody g (fun _ => True) (Devices g f) where
  perm := fun h hl => ⟨h.holds.perm hl, h.device⟩
  linkCount := fun h => h.holds.linkCount
  link := fun m h => ⟨(Holds.custody hg f).link m h.holds, h.device⟩
  dup := fun h _ =>
    ⟨h.holds.dup _, fun x => device_of_kept (.inl (State.core_dup _ _ x) : Kept f [] _ _ x) (h.device x)⟩
  iput := fun h => (iput_ends h.holds).mono fun _ _ h' => ⟨h'.1, fun x => device_of_kept (h'.2 x) (h.device x)⟩
  iget := by
    intro n l s d name de h hop hde _ _
    obtain ⟨i, hentry, hmatch⟩ := findEntry_some hde
    refine (iget_ends h.holds (h.holds.dev d hop) fun j hj => hg _ _ i de j hentry hmatch.1 hj).mono ?_
    rintro r s' ⟨hholds, e, hgot⟩
    refine ⟨hholds, fun x => ?_⟩
    by_cases hx : x = e
    · subst hx
      show (s'.inode x).core.iDev ≠ 0 → (getSuper g (s'.inode x).core.iDev).isSome = true
      rcases hgot.result with ⟨hzero, -⟩ | ⟨-, ⟨raw, j, -, hsuper, hcore⟩, -⟩
      · rw [hzero]
        exact fun h0 => absurd rfl h0
      · rw [hcore]
        exact fun _ => by rw [hsuper]; rfl
    · exact device_of_kept (hgot.others x hx) (h.device x)
  above := fun _ => trivial
  covered := fun h _ _ _ _ => (iput_ends h.holds).mono fun _ _ h' =>
    ⟨⟨h'.1.dup _, fun x => device_of_kept (.inl (State.core_dup _ _ x) : Kept f [] _ _ x)
      (device_of_kept (h'.2 x) (h.device x))⟩, trivial⟩

/-- **`iget` finds the inode** of a device that is mounted. -/
theorem iget_some {dev : Dev} {nr : Ino} (hdev : dev ≠ 0) (hsuper : (getSuper g dev).isSome = true)
    (hmounted : ∀ j c, (g.superBlock j).sCovered = some c → (g.superBlock j).sMounted ≠ none) :
    (iget g dev nr).Ends s (fun _ => True) fun r _ => r ≠ none := by
  unfold iget
  rw [if_neg hdev]
  refine .then_ .anyhow fun e s₁ _ => .bind (.reads ?_)
  cases findInode s₁ dev nr with
  | some i =>
    refine .bind (.modify ?_)
    have hcross : (crossMount g i).Ends (s₁.dup i) (fun _ => True) fun r _ => r ≠ none := by
      unfold crossMount
      refine .bind (.reads ?_)
      split
      · split
        · exact .pure (Option.some_ne_none _)
        · next j hj =>
          have hcovered : (g.superBlock j).sCovered = some i := by simpa using List.find?_some hj
          refine .then_ .anyhow fun _ s₂ _ => ?_
          cases hm : (g.superBlock j).sMounted with
          | none => exact absurd hm (hmounted j i hcovered)
          | some m => exact .bind (.modify (.pure (Option.some_ne_none _)))
      · exact .pure (Option.some_ne_none _)
    exact .then_ hcross fun r s₂ hr => .then_ .anyhow fun _ s₃ _ => .pure hr
  | none =>
    cases hj : getSuper g dev with
    | none => simp [hj] at hsuper
    | some j =>
      refine .bind (.modify (.then_ .anyhow fun _ s₂ _ => ?_))
      exact .pure (Option.some_ne_none _)

/-- **`lookup` succeeds where it sees the entry.** -/
theorem lookup_hits {f : Nat → Nat} {n : Nat} {l : List Nat} (hs : Devices g f n l s) (hd : 0 < (s.inode d).iCount)
    (hmounted : ∀ j c, (g.superBlock j).sCovered = some c → (g.superBlock j).sMounted ≠ none)
    (hsees : Sees g s d name) :
    (lookup g d name).Ends (s.dup d) (fun _ => True) fun r _ => r ≠ none := by
  obtain ⟨⟨c, n'⟩, ht, hin⟩ := hsees
  have hlookup : (lookupIn g (some c) n').Ends (s.dup c) (fun _ => True) fun r _ => r ≠ none := by
    obtain ⟨hperm, hin⟩ := seesIn_dup.mpr hin
    have hkey : ((s.dup c).inode c).iOp = (s.inode c).iOp ∧ ((s.dup c).inode c).iDev = (s.inode c).iDev := by
      rw [inode_dup_self]
      exact ⟨rfl, rfl⟩
    unfold lookupIn
    refine .bind (.reads ?_)
    rw [if_neg (by rw [hperm]; decide)]
    split
    · exact .pure (Option.some_ne_none _)
    · next hne =>
      obtain ⟨hop, hdir, hfind⟩ := hin.resolve_left hne
      rw [if_neg (by rw [hop]; decide)]
      unfold minixLookup
      refine .bind (.reads ?_)
      rw [if_neg (not_not.mpr hdir)]
      obtain ⟨de, hde⟩ := Option.isSome_iff_exists.mp hfind
      rw [hde]
      rw [hkey.1] at hop
      have hdev := hs.holds.dev c hop
      rw [hkey.2]
      refine .then_ (iget_some hdev (hs.device c hdev) hmounted) fun r s₂ hr => ?_
      exact .then_ .anyhow fun _ _ _ => .pure hr
  unfold Prog.Ends at *
  rw [lookup_eq hd, ht]
  exact hlookup

/-! ## `minix_create` -/

/-- **`minix_create` goes through**: the caller may write to the directory, and there is room for an inode, in core
    and on the disk, and for an entry. -/
structure CanCreate (g : Graph) (sp : Space) (s : State) (x : Inode) : Prop where
  write : permission g x MAY_WRITE = true
  op : x.iOp = true
  super : (getSuper g x.iDev).isSome = true
  ino : (sp.newIno x.iDev).isSome = true
  core : (unusedInode g s).isSome = true
  entry : (addEntry g sp x).isSome = true

theorem getEmptyInode_eq : (getEmptyInode g).Ends s (fun _ => True) fun e s' =>
    unusedInode g s = some e ∧ s' = s.setInode e fun _ => { Inode.zero with iCount := 1 } := by
  unfold getEmptyInode
  refine .bind (.reads ?_)
  cases unusedInode g s with
  | none => exact .halt trivial
  | some e => exact .bind (.modify (.pure ⟨rfl, rfl⟩))

/-- If an entry is made, it is in the directory and for the name of the call, and there was room. -/
theorem minixCreate_ends {sp : Space} {mode : BitVec 16} : (minixCreate g sp d name mode).Ends s (fun _ => True)
    fun o _ => o = .error ∨ (∃ slot ino, o = .created (s.inode d) slot name ino) ∧
      (getSuper g (s.inode d).iDev).isSome = true ∧ (sp.newIno (s.inode d).iDev).isSome = true ∧
        (unusedInode g s).isSome = true ∧ (addEntry g sp (s.inode d)).isSome = true := by
  unfold minixCreate
  refine .bind (.reads (.then_ getEmptyInode_eq fun e s₁ he => ?_))
  have herror : ∀ {Q : Prop} {m m' : Call Unit} {t : State}, (do m; m'; return Outcome.error : Call Outcome).Ends t
      (fun _ => True) fun o _ => o = .error ∨ (∃ slot ino, o = .created (s.inode d) slot name ino) ∧ Q :=
    .then_ .anyhow fun _ _ _ => .then_ .anyhow fun _ _ _ => .pure (.inl rfl)
  cases hsuper : getSuper g (s.inode d).iDev with
  | none => exact herror
  | some j =>
    cases hino : sp.newIno (s.inode d).iDev with
    | none => exact herror
    | some ino =>
      refine .bind (.modify ?_)
      cases hentry : addEntry g sp (s.inode d) with
      | none => exact .bind (.modify herror)
      | some slot =>
        refine .bind (.modify (.then_ .anyhow fun _ _ _ => .pure (.inr ⟨⟨slot, ino, rfl⟩, rfl, rfl, ?_, rfl⟩)))
        rw [he.1]
        rfl

theorem minixCreate_of {sp : Space} {mode : BitVec 16} {f : Nat → Nat} {n : Nat} {l : List Nat} (hs : Devices g f n l s)
    (hd : 0 < (s.inode d).iCount) (hcan : CanCreate g sp s (s.inode d)) :
    ∃ slot ino s', minixCreate g sp d name mode s = .ok (.created (s.inode d) slot name ino, s') := by
  obtain ⟨j, hj⟩ := Option.isSome_iff_exists.mp hcan.super
  obtain ⟨ino, hino⟩ := Option.isSome_iff_exists.mp hcan.ino
  obtain ⟨e, he⟩ := Option.isSome_iff_exists.mp hcan.core
  obtain ⟨slot, hslot⟩ := Option.isSome_iff_exists.mp hcan.entry
  have hempty : getEmptyInode g s = .ok (e, s.setInode e fun _ => { Inode.zero with iCount := 1 }) := by
    unfold getEmptyInode
    rw [reads_bind, he]
    rfl
  have hfree : (s.inode e).iCount = 0 := ((getEmptyInode_ends hs.holds).ok_of hempty).2.1
  have hne : d ≠ e := by
    rintro rfl
    omega
  have hput : ∀ t : State, (t.inode d).iCount ≠ 0 → ∃ s',
      (do iput g (some d); return .created (s.inode d) slot name ino : Call Outcome) t =
        .ok (.created (s.inode d) slot name ino, s') := by
    intro t ht
    obtain ⟨s', hs'⟩ := iput_returns ht
    exact ⟨s', bind_ok hs' _⟩
  unfold minixCreate
  rw [reads_bind, bind_ok hempty, hj, hino]
  dsimp only
  rw [modify_bind, hslot]
  dsimp only
  rw [modify_bind]
  refine ⟨slot, ino, hput _ ?_⟩
  rw [State.inode_setInode, if_pos rfl, State.inode_setInode, if_neg hne, State.inode_setInode, if_neg hne]
  show (s.inode d).iCount ≠ 0
  omega

end

/-! ## What a call may do -/

/-- The entries of the files, whether they can be read or not. -/
structure Disk (g : Graph) where
  contents : Dev → Ino → Nat → Option Slot
  agrees : ∀ dev ino i de, g.entry dev ino i = some de → contents dev ino i = some de

/-- The entry `i` of the file is live, and has the name as far as names are stored. -/
def Live (contents : Dev → Ino → Nat → Option Slot) (dev : Dev) (ino : Ino) (name : List Byte) (i : Nat) : Prop :=
  ∃ de, contents dev ino i = some de ∧ de.inode ≠ 0 ∧ de.Named name

/-- No directory holds two live entries with the same name. -/
def Unique (contents : Dev → Ino → Nat → Option Slot) : Prop :=
  ∀ dev ino name i j, Live contents dev ino name i → Live contents dev ino name j → i = j

/-- The directory holds a live entry with that name. -/
def HoldsName (contents : Dev → Ino → Nat → Option Slot) (x : Inode) (name : List Byte) : Prop :=
  ∃ i, Live contents x.iDev x.iIno (name.take MINIX_NAME_LEN) i

/-- `minix_create` has filled an entry in. -/
def enter (contents : Dev → Ino → Nat → Option Slot) (x : Inode) (slot : Nat) (name : List Byte) (ino : Ino) :
    Dev → Ino → Nat → Option Slot := fun dev nr i =>
  if dev = x.iDev ∧ nr = x.iIno ∧ i = slot then some ⟨ino, Minix.DirMap.padded (name.take MINIX_NAME_LEN)⟩
  else contents dev nr i

/-- **What is asked of a call.** An entry is added only with `O_CREAT`, and to a directory that does not hold one of
that name, and the names are then as different as before. What is opened is what the path resolves to; a path that
ends with a slash names the directory itself. -/
def Right (g : Graph) (D : Disk g) (depth : Nat) (pathname : List Byte) (flag : BitVec 32) (s : State) : Outcome → Prop
  | .error => True
  | .opened i =>
      (∃ s', namei g (depth + 1) pathname none true s = .ok (some i, s')) ∨
        ∃ s', dirNamei g (fun path dir => namei g depth path (some dir) true) pathname none s = .ok (some (i, []), s')
  | .created x slot name ino =>
      flag &&& O_CREAT ≠ 0 ∧ x.iMode &&& S_IFMT = S_IFDIR ∧ ¬ HoldsName D.contents x name ∧
        (Unique D.contents → Unique (enter D.contents x slot name ino))

/-- **The directory that the path leads to lets the call see what is there**: where an entry could be made, `lookup`
sees one, or the directory is one and holds none. -/
def Shows (g : Graph) (D : Disk g) (sp : Space) (depth : Nat) (pathname : List Byte) (flag : BitVec 32)
    (s : State) : Prop :=
  ∀ d name s₁, dirNamei g (fun path dir => namei g depth path (some dir) true) pathname none s =
      .ok (some (d, name), s₁) → name ≠ [] → flag &&& O_CREAT ≠ 0 → CanCreate g sp s₁ (s₁.inode d) →
    Sees g s₁ d name ∨ (s₁.inode d).iMode &&& S_IFMT = S_IFDIR ∧ ¬ HoldsName D.contents (s₁.inode d) name

section
variable {g : Graph} {D : Disk g} {sp : Space} {depth : Nat} {pathname : List Byte} {flag : BitVec 32}
  {mode umask : BitVec 16} {s : State}

theorem creat_or (flag : BitVec 32) : (flag ||| O_WRONLY) &&& O_CREAT = flag &&& O_CREAT := by
  rw [BitVec.and_comm, BitVec.and_or_distrib_left, BitVec.and_comm O_CREAT flag]
  exact BitVec.or_zero

/-- A new name keeps the names different. -/
theorem Unique.enter {contents : Dev → Ino → Nat → Option Slot} {x : Inode} {name : List Byte} (h : Unique contents)
    (hname : Minix.DirEntry.NameOk (name.take MINIX_NAME_LEN)) (hnew : ¬ HoldsName contents x name) (slot : Nat)
    (ino : Ino) : Unique (Namei.enter contents x slot name ino) := by
  intro dev nr n i j hi hj
  have hlive : ∀ k, Live (Namei.enter contents x slot name ino) dev nr n k →
      (dev = x.iDev ∧ nr = x.iIno ∧ k = slot ∧ n = name.take MINIX_NAME_LEN) ∨ Live contents dev nr n k := by
    rintro k ⟨de, hde, hne, hn⟩
    unfold Namei.enter at hde
    split at hde
    · next heq =>
      cases hde
      exact .inl ⟨heq.1, heq.2.1, heq.2.2, hn.inj (Minix.DirMap.named_padded hname _)⟩
    · exact .inr ⟨de, hde, hne, hn⟩
  have hclash : ∀ k, dev = x.iDev → nr = x.iIno → n = name.take MINIX_NAME_LEN → ¬ Live contents dev nr n k := by
    rintro k rfl rfl rfl hk
    exact hnew ⟨k, hk⟩
  rcases hlive i hi with ⟨h1, h2, rfl, h4⟩ | hi'
  · rcases hlive j hj with ⟨-, -, rfl, -⟩ | hj'
    · rfl
    · exact absurd hj' (hclash j h1 h2 h4)
  · rcases hlive j hj with ⟨h1, h2, rfl, h4⟩ | hj'
    · exact absurd hi' (hclash i h1 h2 h4)
    · exact h dev nr n i j hi' hj'

/-- The account at the end of `dir_namei`. -/
theorem dirNamei_devices (hs : Sane g s) (hdepth : 6 ≤ depth) {d : Nat} {name : List Byte} {s₁ : State}
    (h : dirNamei g (fun path dir => namei g depth path (some dir) true) pathname none s = .ok (some (d, name), s₁)) :
    Devices g (fun x => (s.inode x).iCount) s.linkCount [d] s₁ ∧ 0 ∉ name := by
  have C := Devices.custody hs.graph fun x => (s.inode x).iCount
  have h₀ : Devices g (fun x => (s.inode x).iCount) s.linkCount ((none : Option Nat).toList ++ []) s :=
    ⟨⟨fun x => rfl, rfl, hs.state.placed, hs.state.dev⟩, hs.device⟩
  have hrec : s.linkCount ≤ 5 → Custody.Follows (Devices g fun x => (s.inode x).iCount)
      (fun path dir => namei g depth path (some dir) true) (s.linkCount + 1) := by
    intro _ path dir l t ht
    have ht : Devices g _ _ ((some dir).toList ++ l) t := ht
    exact C.namei (by omega) (by omega) ht
  obtain ⟨h₁, hz⟩ := (C.dirNamei hrec h₀).ok_of h
  exact ⟨h₁, hz _ rfl⟩

/-- `O_WRONLY` is added to the flags, or nothing is. -/
theorem creat_kept (flag : BitVec 32) :
    (if flag &&& O_TRUNC ≠ 0 ∧ flag &&& O_ACCMODE = 0 then flag ||| O_WRONLY else flag) &&& O_CREAT =
      flag &&& O_CREAT := by
  split
  · exact creat_or flag
  · rfl

/-- **What `lookup` does not see is created**, if `minix_create` goes through. -/
theorem openNamei_creates (hs : Sane g s) (hdepth : 6 ≤ depth) {d : Nat} {name : List Byte} {s₁ : State}
    (hdir : dirNamei g (fun path dir => namei g depth path (some dir) true) pathname none s = .ok (some (d, name), s₁))
    (hne : name ≠ []) (hcreat : flag &&& O_CREAT ≠ 0) (hcan : CanCreate g sp s₁ (s₁.inode d))
    (hsees : ¬ Sees g s₁ d name) : ∃ slot ino s',
      openNamei g sp depth pathname flag mode umask s = .ok (.created (s₁.inode d) slot name ino, s') := by
  obtain ⟨hdev, -⟩ := dirNamei_devices hs hdepth hdir
  have hpos : 0 < (s₁.inode d).iCount := hdev.holds.pos List.mem_cons_self
  have hlook := lookup_misses hpos (hs.held.at_ hdev.holds.count) hsees
  unfold openNamei
  rw [bind_ok hdir]
  dsimp only
  rw [if_neg hne, modify_bind, bind_ok hlook]
  dsimp only
  rw [reads_bind, creat_kept, if_neg]
  · exact minixCreate_of hdev hpos hcan
  · rw [hcan.write, hcan.op]
    simp only [Bool.true_eq_false, or_false]
    exact hcreat

/-- A call goes right if the directory shows what it holds. -/
theorem openNamei_right (hs : Sane g s) (hdepth : 6 ≤ depth) (hshows : Shows g D sp depth pathname flag s) :
    (openNamei g sp depth pathname flag mode umask).Ends s (fun _ => True)
      fun o _ => Right g D depth pathname flag s o := by
  have hkept := creat_kept flag
  unfold openNamei
  generalize (if flag &&& O_TRUNC ≠ 0 ∧ flag &&& O_ACCMODE = 0 then flag ||| O_WRONLY else flag) = flag' at hkept ⊢
  refine .then_ .run fun r s₁ hdir => ?_
  cases r with
  | none => exact .pure trivial
  | some p =>
    obtain ⟨d, name⟩ := p
    obtain ⟨hdev, hz⟩ := dirNamei_devices hs hdepth hdir
    have hpos : 0 < (s₁.inode d).iCount := hdev.holds.pos List.mem_cons_self
    dsimp only
    by_cases hne : name = []
    · rw [if_pos hne]
      split
      · rw [hne] at hdir
        exact .pure (.inr ⟨s₁, hdir⟩)
      · exact .then_ .anyhow fun _ _ _ => .pure trivial
    · rw [if_neg hne]
      refine .bind (.modify (.then_ .run fun r s₂ hlook => ?_))
      cases r with
      | none =>
        have hsees : ¬ Sees g s₁ d name := fun h => (lookup_hits hdev hpos hs.mounted h).ok_of hlook rfl
        obtain rfl : s₁ = s₂ := by
          rw [lookup_misses hpos (hs.held.at_ hdev.holds.count) hsees] at hlook
          exact congrArg Prod.snd (Except.ok.inj hlook)
        refine .bind (.reads ?_)
        rw [hkept]
        split
        · exact .then_ .anyhow fun _ _ _ => .pure trivial
        · next hgo =>
          refine minixCreate_ends.mono fun o s' ho => ?_
          rcases ho with rfl | ⟨⟨slot, ino, rfl⟩, hsuper, hino, hcore, hentry⟩
          · trivial
          · simp only [not_or, Bool.not_eq_false] at hgo
            obtain ⟨hcreat, hwrite, hop⟩ := hgo
            have hnew := hshows d name s₁ hdir hne hcreat ⟨hwrite, hop, hsuper, hino, hcore, hentry⟩
            obtain ⟨hisdir, hnew⟩ := hnew.resolve_left hsees
            exact ⟨hcreat, hisdir, hnew, fun h => h.enter (Minix.DirMap.Name.ok ⟨hne, hz⟩) hnew slot ino⟩
      | some inode =>
        dsimp only
        split
        · exact .then_ .anyhow fun _ _ _ => .then_ .anyhow fun _ _ _ => .pure trivial
        · refine .then_ .run fun r s₃ hfollow => ?_
          cases r with
          | none => exact .pure trivial
          | some i =>
            refine .bind (.reads ?_)
            split
            · exact .then_ .anyhow fun _ _ _ => .pure trivial
            · refine .pure (.inl ⟨s₃, ?_⟩)
              show nameiBody g _ pathname none true s = _
              unfold nameiBody
              rw [bind_ok hdir]
              dsimp only
              rw [modify_bind, bind_ok hlook]
              exact hfollow

/-- **A call creates only what is absent, just when the directory lets it see what is there.** -/
theorem open_creates_iff (hs : Sane g s) (hdepth : 6 ≤ depth) :
    (∀ o s', openNamei g sp depth pathname flag mode umask s = .ok (o, s') → Right g D depth pathname flag s o) ↔
      Shows g D sp depth pathname flag s := by
  constructor
  · intro hright d name s₁ hdir hne hcreat hcan
    by_cases hsees : Sees g s₁ d name
    · exact .inl hsees
    · obtain ⟨slot, ino, s', hrun⟩ := openNamei_creates hs hdepth hdir hne hcreat hcan hsees
      obtain ⟨-, hisdir, hnew, -⟩ := hright _ s' hrun
      exact .inr ⟨hisdir, hnew⟩
  · exact fun hshows o s' hrun => (openNamei_right hs hdepth hshows).ok_of hrun

end

/-! ## A directory that may be written to and not searched -/

/-- One file system, with the file `a` in its root, and a caller who is not the owner. -/
def homeGraph : Graph :=
  { loopGraph with
    rawInode := fun _ _ => some ⟨I_REGULAR ||| 0o644, 0, 0, 1, 2, 1⟩
    euid := 5
    egid := 5 }

def homeSpace : Space := ⟨fun _ => some 3, fun _ _ _ => true⟩

def homeDisk : Disk homeGraph := ⟨homeGraph.entry, fun _ _ _ _ h => h⟩

/-- The root is in core, with the mode `mode`. -/
def homeRoot (mode : BitVec 16) : State where
  inode := fun i =>
    if i = 0 then ⟨1, 1, S_IFDIR ||| mode, 0, 0, 2, 48, 5, some 0, 4, false, false, true⟩ else .zero
  linkCount := 0

theorem homeRoot_sane (mode : BitVec 16) : Sane homeGraph (homeRoot mode) := by
  have hinode : ∀ x, x = 0 ∨ (homeRoot mode).inode x = .zero := by
    intro x
    unfold homeRoot
    by_cases hx : x = 0
    · exact .inl hx
    · exact .inr (if_neg hx)
  have hsuper : ∀ j c, (homeGraph.superBlock j).sCovered = some c →
      c = 0 ∧ (homeGraph.superBlock j).sMounted = some 0 := by
    intro j c hc
    unfold homeGraph loopGraph at hc ⊢
    dsimp only at hc ⊢
    split at hc
    · next hj =>
      rw [if_pos hj]
      exact ⟨(Option.some.inj hc).symm, rfl⟩
    · cases hc
  refine ⟨loopGraph_sound, ⟨fun x => ?_, fun x => ?_⟩, fun x => ?_, fun j c hc => ?_, fun j c hc => ?_⟩
  · rcases hinode x with rfl | hx
    · exact fun _ => ⟨0, rfl, rfl⟩
    · rw [hx]
      exact fun hne => absurd rfl hne
  · rcases hinode x with rfl | hx
    · show true = true → (1 : Dev) ≠ 0
      decide
    · rw [hx]
      exact fun hop => absurd hop Bool.false_ne_true
  · rcases hinode x with rfl | hx
    · exact fun _ => rfl
    · rw [hx]
      exact fun hne => absurd rfl hne
  · rw [(hsuper j c hc).1]
    exact Nat.zero_lt_succ 3
  · rw [(hsuper j c hc).2]
    exact Option.some_ne_none _

/-- Where the directory may be searched, nothing is created beside `a`. -/
theorem open_creates_home : Sane homeGraph (homeRoot 0o777) ∧
    ∀ o s', openNamei homeGraph homeSpace 6 [97] (O_CREAT ||| O_WRONLY) 0o644 0o022 (homeRoot 0o777) = .ok (o, s') →
      Right homeGraph homeDisk 6 [97] (O_CREAT ||| O_WRONLY) (homeRoot 0o777) o := by
  have hshows : Shows homeGraph homeDisk homeSpace 6 [97] (O_CREAT ||| O_WRONLY) (homeRoot 0o777) := by
    intro d name s₁ hdir _ _ _
    have hrun : dirNamei homeGraph (fun path dir => namei homeGraph 6 path (some dir) true) [97] none
        (homeRoot 0o777) = .ok (some (0, [97]), (homeRoot 0o777).dup 0) := rfl
    rw [hrun] at hdir
    cases hdir
    exact .inl ⟨(0, [97]), rfl, rfl, .inr ⟨rfl, rfl, rfl⟩⟩
  exact ⟨homeRoot_sane 0o777, (open_creates_iff (homeRoot_sane 0o777) (by decide)).mpr hshows⟩

/-- The names that are in the root. -/
theorem homeDisk_live {dev : Dev} {ino : Ino} {name : List Byte} {i : Nat} (h : Live homeDisk.contents dev ino name i) :
    i = 0 ∧ name = [46] ∨ i = 1 ∧ name = [46, 46] ∨ i = 2 ∧ name = [97] := by
  obtain ⟨de, hde, -, hn⟩ := h
  unfold homeDisk homeGraph loopGraph at hde
  dsimp only at hde
  split at hde
  · match i with
    | 0 =>
      cases hde
      refine .inl ⟨rfl, hn.inj ⟨by decide, by decide, fun _ => rfl, fun k b hk => ?_⟩⟩
      match k with
      | 0 => exact Option.some.inj hk
    | 1 =>
      cases hde
      refine .inr (.inl ⟨rfl, hn.inj ⟨by decide, by decide, fun _ => rfl, fun k b hk => ?_⟩⟩)
      match k with
      | 0 => exact Option.some.inj hk
      | 1 => exact Option.some.inj hk
    | 2 =>
      cases hde
      refine .inr (.inr ⟨rfl, hn.inj ⟨by decide, by decide, fun _ => rfl, fun k b hk => ?_⟩⟩)
      match k with
      | 0 => exact Option.some.inj hk
  · cases hde

/-- Where it may only be written to, there is a second `a` afterwards. -/
theorem open_creates_twice : Sane homeGraph (homeRoot 0o722) ∧ Unique homeDisk.contents ∧
    ∃ o s', openNamei homeGraph homeSpace 6 [97] (O_CREAT ||| O_WRONLY) 0o644 0o022 (homeRoot 0o722) = .ok (o, s') ∧
      ¬ Right homeGraph homeDisk 6 [97] (O_CREAT ||| O_WRONLY) (homeRoot 0o722) o := by
  have hdir : dirNamei homeGraph (fun path dir => namei homeGraph 6 path (some dir) true) [97] none (homeRoot 0o722) =
      .ok (some (0, [97]), (homeRoot 0o722).dup 0) := rfl
  have hcan : CanCreate homeGraph homeSpace ((homeRoot 0o722).dup 0) (((homeRoot 0o722).dup 0).inode 0) :=
    ⟨rfl, rfl, rfl, rfl, rfl, rfl⟩
  have hsees : ¬ Sees homeGraph ((homeRoot 0o722).dup 0) 0 [97] := by
    rintro ⟨t, ht, hperm, -⟩
    obtain rfl : (0, [97]) = t := Option.some.inj ht
    exact absurd hperm (by decide)
  have hcreates : ∃ slot ino s',
      openNamei homeGraph homeSpace 6 [97] (O_CREAT ||| O_WRONLY) 0o644 0o022 (homeRoot 0o722) =
        .ok (.created (((homeRoot 0o722).dup 0).inode 0) slot [97] ino, s') :=
    openNamei_creates (homeRoot_sane 0o722) (by decide) hdir (by decide) (by decide) hcan hsees
  obtain ⟨slot, ino, s', hrun⟩ := hcreates
  refine ⟨homeRoot_sane 0o722, ?_, _, s', hrun, ?_⟩
  · intro dev nr name i j hi hj
    rcases homeDisk_live hi with ⟨rfl, hn⟩ | ⟨rfl, hn⟩ | ⟨rfl, hn⟩ <;>
      rcases homeDisk_live hj with ⟨rfl, hn'⟩ | ⟨rfl, hn'⟩ | ⟨rfl, hn'⟩ <;> first | rfl | simp [hn'] at hn
  · rintro ⟨-, -, hnew, -⟩
    refine hnew ⟨2, ⟨2, fun k => if k = 0 then 97 else 0⟩, rfl, by decide, by decide, by decide, fun _ => rfl, ?_⟩
    intro k b hk
    match k with
    | 0 => exact Option.some.inj hk

end Namei
end Fs
end Linux095
