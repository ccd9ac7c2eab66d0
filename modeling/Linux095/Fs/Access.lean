import Linux095.Fs.NameiRefs

/-!
# `Fs.Access` — `access` and what it predicts (`fs/open.c`)

`sys_access` selects the bits of the owner, the group or the others by the real ids, and `permission` by the effective
ones, each by itself.

* `sysAccess` — the source's function;
* `classBits` — **the bits a class of users has**, by its place in the mode word;
* `permission_eq`, `sysAccess_eq` — which class each of the two functions looks at;
* `access_iff` — **when the answer of one is that of the other**.
-/

namespace Linux095
namespace Fs
namespace Namei
open Seq Seq.Prog Minix.DirEntry
open Minix.Truncate (S_IFDIR S_IFREG)

def EACCES : Int := 13

/-- "mode &= 0007". -/
def maskOf (mode : BitVec 32) : BitVec 16 := (mode &&& 0o007).setWidth 16

/-- `sys_access`, for a process with these real ids. The owner and the group are read after `iput`. -/
def sysAccess (g : Graph) (depth : Nat) (uid gid : BitVec 16) (filename : List Byte) (mode : BitVec 32) : Call Int := do
  let mode := maskOf mode
  match ← namei g depth filename none true with
  | none => return -EACCES
  | some i =>
      let x ← .reads fun s => s.inode i
      let iMode := x.iMode &&& 0o777
      iput g (some i)
      let x ← .reads fun s => s.inode i
      let res := if uid = x.iUid then iMode >>> 6 else if gid = x.iGid then iMode >>> 6 else iMode
      if res &&& 0o007 &&& mode = mode then return 0
      else if uid = 0 ∧ (mode &&& 1 = 0 ∨ iMode &&& 0o111 ≠ 0) then return 0
      else return -EACCES

/-! ## Classes of users -/

/-- The class whose bits are `n` places up has all of `mask`. -/
def classBits (x : Inode) (n : Nat) (mask : BitVec 16) : Prop := x.iMode >>> n &&& mask = mask

instance (x : Inode) (n : Nat) (mask : BitVec 16) : Decidable (classBits x n mask) :=
  inferInstanceAs (Decidable (_ = _))

theorem getLsbD_maskOf (mode : BitVec 32) {k : Nat} (hk : 3 ≤ k) : (maskOf mode).getLsbD k = false := by
  have hseven : (0o007 : BitVec 32).getLsbD k = false := by
    rw [show (0o007 : BitVec 32) = BitVec.ofNat 32 (2 ^ 3 - 1) from rfl, BitVec.getLsbD_ofNat,
      Nat.testBit_two_pow_sub_one]
    simp [Nat.not_lt.mpr hk]
  simp only [maskOf, BitVec.getLsbD_setWidth, BitVec.getLsbD_and, hseven, Bool.and_false]

/-- The mask of the three bits is one with itself. -/
theorem maskOf_and_seven (mode : BitVec 32) : 0o007 &&& maskOf mode = maskOf mode := by
  refine BitVec.eq_of_getLsbD_eq fun k _ => ?_
  rw [BitVec.getLsbD_and]
  by_cases hk : 3 ≤ k
  · rw [getLsbD_maskOf mode hk, Bool.and_false]
  · have hseven : (0o007 : BitVec 16).getLsbD k = true := by
      have hall : ∀ j < 3, (0o007 : BitVec 16).getLsbD j = true := by decide
      exact hall k (by omega)
    rw [hseven, Bool.true_and]

/-- Nine bits are enough for the three classes. -/
theorem classBits_low (x : Inode) {n : Nat} (mode : BitVec 32) (hn : n ≤ 6) :
    (x.iMode &&& 0o777) >>> n &&& 0o007 &&& maskOf mode = maskOf mode ↔ classBits x n (maskOf mode) := by
  have heq : (x.iMode &&& 0o777) >>> n &&& 0o007 &&& maskOf mode = x.iMode >>> n &&& maskOf mode := by
    rw [BitVec.and_assoc, maskOf_and_seven]
    refine BitVec.eq_of_getLsbD_eq fun k _ => ?_
    rw [BitVec.getLsbD_and, BitVec.getLsbD_and, BitVec.getLsbD_ushiftRight, BitVec.getLsbD_ushiftRight,
      BitVec.getLsbD_and]
    by_cases hk : 3 ≤ k
    · rw [getLsbD_maskOf mode hk, Bool.and_false, Bool.and_false]
    · have hnine : (0o777 : BitVec 16).getLsbD (n + k) = true := by
        have hall : ∀ j < 9, (0o777 : BitVec 16).getLsbD j = true := by decide
        exact hall _ (by omega)
      rw [hnine, Bool.and_true]
  rw [heq]
  rfl

/-- Who asks: a process with its effective ids as its real ones, that is nobody special. -/
structure Plain (g : Graph) (uid gid : BitVec 16) : Prop where
  uid : uid = g.euid
  gid : gid = g.egid
  user : g.euid ≠ 0
  groups : g.groups = []

/-- `permission` looks at the owner's bits, the group's or the others'. -/
theorem permission_eq {g : Graph} {x : Inode} {uid gid : BitVec 16} {mode : BitVec 32} (h : Plain g uid gid)
    (hlink : x.iNlink ≠ 0) :
    permission g x (maskOf mode) = true ↔
      classBits x (if uid = x.iUid then 6 else if gid = x.iGid then 3 else 0) (maskOf mode) := by
  have hseven : ∀ m : BitVec 16, m &&& maskOf mode &&& 0o007 = m &&& maskOf mode := fun m => by
    rw [BitVec.and_assoc, BitVec.and_comm (maskOf mode), maskOf_and_seven]
  have hgroup : inGroup g x.iGid = decide (gid = x.iGid) := by
    rw [h.gid, inGroup, h.groups, Bool.eq_iff_iff, List.contains_nil, Bool.or_false, beq_iff_eq, decide_eq_true_eq]
    exact eq_comm
  have hlinked : ¬(x.iDev ≠ 0 ∧ x.iNlink = 0) := fun hdel => hlink hdel.2
  have hroot : (g.euid == 0) = false := by simpa using h.user
  rw [permission, if_neg hlinked, hroot, Bool.or_false, hgroup, ← h.uid]
  simp only [hseven, beq_iff_eq, decide_eq_true_eq, classBits]
  split_ifs
  · rfl
  · rfl
  · rw [BitVec.ushiftRight_zero]

/-! ## Giving the inode back -/

/-- An inode with a link is given back without a change to who owns it. -/
theorem iput_linked {g : Graph} {s : State} {i : Nat} (hcount : (s.inode i).iCount ≠ 0)
    (hlink : (s.inode i).iNlink ≠ 0) :
    ∃ s', iput g (some i) s = .ok ((), s') ∧ (s'.inode i).iUid = (s.inode i).iUid ∧
      (s'.inode i).iGid = (s.inode i).iGid := by
  have hdrop : ((s.drop i).inode i).iUid = (s.inode i).iUid ∧ ((s.drop i).inode i).iGid = (s.inode i).iGid := by
    unfold State.drop
    rw [State.inode_setInode, if_pos rfl]
    exact ⟨rfl, rfl⟩
  simp only [iput]
  rw [reads_bind, if_neg hcount]
  by_cases hpipe : (s.inode i).iPipe
  · rw [if_pos hpipe, modify_bind]
    by_cases hone : (s.inode i).iCount = 1
    · rw [if_pos hone]
      refine ⟨_, rfl, ?_⟩
      rw [State.inode_setInode, if_pos rfl]
      exact hdrop
    · rw [if_neg hone]
      exact ⟨_, rfl, hdrop⟩
  · rw [if_neg hpipe]
    by_cases hdev : (s.inode i).iDev = 0
    · rw [if_pos hdev]
      exact ⟨_, rfl, hdrop⟩
    · rw [if_neg hdev]
      by_cases hmany : 1 < (s.inode i).iCount
      · rw [if_pos hmany]
        exact ⟨_, rfl, hdrop⟩
      · rw [if_neg hmany, if_neg hlink]
        exact ⟨_, rfl, hdrop⟩

/-- `sys_access` takes the owner's bits for the group's. -/
theorem sysAccess_eq {g : Graph} {s s' : State} {depth i : Nat} {uid gid : BitVec 16} {filename : List Byte}
    {mode : BitVec 32} (hnamei : namei g depth filename none true s = .ok (some i, s'))
    (hlink : (s'.inode i).iNlink ≠ 0) (hcount : (s'.inode i).iCount ≠ 0) (h : Plain g uid gid) :
    ∃ r s'', sysAccess g depth uid gid filename mode s = .ok (r, s'') ∧
      (r = 0 ↔ classBits (s'.inode i)
        (if uid = (s'.inode i).iUid then 6 else if gid = (s'.inode i).iGid then 6 else 0) (maskOf mode)) := by
  obtain ⟨t, hput, huid, hgid⟩ := iput_linked (g := g) hcount hlink
  have hroot : uid ≠ 0 := by
    rw [h.uid]
    exact h.user
  -- the bits it selects are those of one class
  have hres : ∃ n ≤ 6, n = (if uid = (s'.inode i).iUid then 6 else if gid = (s'.inode i).iGid then 6 else 0) ∧
      (if uid = (s'.inode i).iUid then ((s'.inode i).iMode &&& 0o777) >>> 6
        else if gid = (s'.inode i).iGid then ((s'.inode i).iMode &&& 0o777) >>> 6
        else (s'.inode i).iMode &&& 0o777) = ((s'.inode i).iMode &&& 0o777) >>> n := by
    split_ifs
    · exact ⟨6, by decide, rfl, rfl⟩
    · exact ⟨6, by decide, rfl, rfl⟩
    · exact ⟨0, by decide, rfl, (BitVec.ushiftRight_zero _).symm⟩
  obtain ⟨n, hn, hclass, hres⟩ := hres
  have hbits := classBits_low (s'.inode i) mode hn
  rw [← hclass]
  unfold sysAccess
  rw [bind_ok hnamei]
  simp only [reads_bind, bind_ok hput, huid, hgid, hroot, false_and, if_false, hres, hbits]
  by_cases hall : classBits (s'.inode i) n (maskOf mode)
  · rw [if_pos hall]
    exact ⟨0, t, rfl, iff_of_true rfl hall⟩
  · rw [if_neg hall]
    exact ⟨-EACCES, t, rfl, iff_of_false (by decide) hall⟩

/-! ## The two answers -/

/-- **`access` predicts what `permission` will say of the file**, if the name leads to one that is not deleted. -/
def Agrees (g : Graph) (depth : Nat) (uid gid : BitVec 16) (s : State) (filename : List Byte) (mode : BitVec 32) : Prop :=
  ∀ i s', namei g depth filename none true s = .ok (some i, s') → (s'.inode i).iNlink ≠ 0 →
    ∀ r s'', sysAccess g depth uid gid filename mode s = .ok (r, s'') →
      (r = 0 ↔ permission g (s'.inode i) (maskOf mode) = true)

/-- Without a reference to give back there is no answer, but a panic. -/
theorem agrees_of_count_eq_zero {g : Graph} {s s' : State} {depth i : Nat} {uid gid : BitVec 16} {filename : List Byte}
    {mode : BitVec 32} (hnamei : namei g depth filename none true s = .ok (some i, s'))
    (hcount : (s'.inode i).iCount = 0) : Agrees g depth uid gid s filename mode := by
  intro j t hnamei' _ r t' hrun
  have hput : iput g (some i) s' = .error .freeFreeInode := by
    simp only [iput]
    rw [reads_bind, if_pos hcount]
    rfl
  have hpanic : sysAccess g depth uid gid filename mode s = .error .freeFreeInode := by
    unfold sysAccess
    rw [bind_ok hnamei]
    simp only [reads_bind, bind_error hput]
  rw [hpanic] at hrun
  exact absurd hrun (by simp)

/-- **When the answers are the same**: always, but for a member of the group that is not the owner, who is answered with
    the owner's bits. -/
theorem access_iff {g : Graph} {s s' : State} {depth i : Nat} {uid gid : BitVec 16} {filename : List Byte}
    {mode : BitVec 32} (hplain : Plain g uid gid) (hnamei : namei g depth filename none true s = .ok (some i, s'))
    (hlink : (s'.inode i).iNlink ≠ 0) :
    Agrees g depth uid gid s filename mode ↔
      (s'.inode i).iCount = 0 ∨ uid = (s'.inode i).iUid ∨ gid ≠ (s'.inode i).iGid ∨
        (classBits (s'.inode i) 6 (maskOf mode) ↔ classBits (s'.inode i) 3 (maskOf mode)) := by
  by_cases hcount : (s'.inode i).iCount = 0
  · exact iff_of_true (agrees_of_count_eq_zero hnamei hcount) (Or.inl hcount)
  · have hperm := @permission_eq g _ uid gid mode hplain hlink
    obtain ⟨r, s'', hrun, hanswer⟩ := @sysAccess_eq _ _ _ _ _ _ _ _ mode hnamei hlink hcount hplain
    have hagrees : Agrees g depth uid gid s filename mode ↔
        (r = 0 ↔ permission g (s'.inode i) (maskOf mode) = true) := by
      constructor
      · intro h
        exact h i s' hnamei hlink r s'' hrun
      · intro h j t hnamei' _ r' t' hrun'
        obtain ⟨hj, rfl⟩ := Prod.mk.inj (Except.ok.inj (hnamei.symm.trans hnamei'))
        obtain rfl := Option.some.inj hj
        obtain ⟨rfl, -⟩ := Prod.mk.inj (Except.ok.inj (hrun.symm.trans hrun'))
        exact h
    rw [hagrees, hanswer, hperm]
    by_cases hu : uid = (s'.inode i).iUid
    · simp [hu]
    · by_cases hg : gid = (s'.inode i).iGid
      · simp [hcount, hu, hg]
      · simp [hu, hg]

/-- In the root there is a file `a` of the owner 100 and the group 7, which the owner may write and the group read; a
    member of the group asks. -/
def groupGraph : Graph :=
  { loopGraph with
    rawInode := fun _ _ => some ⟨S_IFREG ||| 0o640, 100, 7, 1, 0, 0⟩
    euid := 5
    egid := 7 }

theorem groupGraph_plain : Plain groupGraph 5 7 where
  uid := rfl
  gid := rfl
  user := by
    show (5 : BitVec 16) ≠ 0
    decide
  groups := rfl

theorem groupGraph_found :
    ∃ s', namei groupGraph 7 [97] none true (withPipes 0) = .ok (some 1, s') ∧
      (s'.inode 1).iMode = S_IFREG ||| 0o640 ∧ (s'.inode 1).iUid = 100 ∧ (s'.inode 1).iGid = 7 ∧
      (s'.inode 1).iNlink = 1 ∧ (s'.inode 1).iCount = 1 := by
  refine ⟨_, rfl, ?_⟩
  exact ⟨rfl, rfl, rfl, rfl, rfl⟩

/-- The group may read a file that the owner may read and write: reading is answered as it is. -/
theorem access_iff_read : Agrees groupGraph 7 5 7 (withPipes 0) [97] 4 := by
  obtain ⟨s', hnamei, hmode, huid, hgid, hlink, hcount⟩ := groupGraph_found
  refine (access_iff groupGraph_plain hnamei (by rw [hlink]; decide)).mpr ?_
  refine Or.inr (Or.inr (Or.inr ?_))
  simp only [classBits, hmode]
  decide

/-- Writing is not: `access` says that the group may write. -/
theorem access_group_write :
    Plain groupGraph 5 7 ∧ ¬Agrees groupGraph 7 5 7 (withPipes 0) [97] 2 := by
  refine ⟨groupGraph_plain, fun h => ?_⟩
  obtain ⟨s', hnamei, hmode, huid, hgid, hlink, hcount⟩ := groupGraph_found
  have hlinked : (s'.inode 1).iNlink ≠ 0 := by
    rw [hlink]
    decide
  obtain ⟨r, s'', hrun, hanswer⟩ := @sysAccess_eq _ _ s' 7 1 5 7 [97] 2 hnamei hlinked (by rw [hcount]; decide)
    groupGraph_plain
  have hsame := h 1 s' hnamei hlinked r s'' hrun
  rw [hanswer, permission_eq groupGraph_plain hlinked, huid, hgid] at hsame
  simp only [classBits, hmode] at hsame
  exact absurd hsame (by decide)

end Namei
end Fs
end Linux095
