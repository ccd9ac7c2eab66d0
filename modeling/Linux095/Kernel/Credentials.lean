import Mathlib.Data.Finset.Insert
import Mathlib.Data.BitVec

/-!
# `Kernel.Credentials` — user and group ids (`kernel/sys.c`)

A task has a real, an effective and a saved user id, and the same for its group. The ids are 16 bits wide and the
arguments of the calls are `int`s.

* `sysSetuid`, `sysSetreuid`, `sysSetgid`, `sysSetregid` — the source's functions;
* `credentials_confined` — **a process without privileges gets no id that it did not have**, and a call that it is
  denied changes nothing.
-/

namespace Linux095
namespace Kernel
namespace Credentials

def EPERM : Int := 1

/-- The ids in `struct task_struct`. -/
structure Ids where
  uid : BitVec 16
  euid : BitVec 16
  suid : BitVec 16
  gid : BitVec 16
  egid : BitVec 16
  sgid : BitVec 16
  deriving DecidableEq

/-- `suser()`. -/
def suser (c : Ids) : Bool := c.euid = 0

/-- Whether an id is an `int`. -/
def Is (id : BitVec 16) (n : Int) : Prop := (id.toNat : Int) = n

instance (id : BitVec 16) (n : Int) : Decidable (Is id n) := inferInstanceAs (Decidable (_ = _))

/-- An `int` stored in an `unsigned short`. -/
def ushort (n : Int) : BitVec 16 := BitVec.ofInt 16 n

theorem ushort_of_is {id : BitVec 16} {n : Int} (h : Is id n) : ushort n = id := by
  unfold ushort
  rw [← h, BitVec.ofInt_natCast, BitVec.ofNat_toNat]
  exact BitVec.setWidth_eq id

/-! ## The calls -/

/-- `sys_setregid` as far as it is about `rgid`; `none` is -EPERM. -/
def setRgid (rgid : Int) (c : Ids) : Option Ids :=
  if rgid ≤ 0 then some c
  else if Is c.gid rgid ∨ suser c then some { c with gid := ushort rgid }
  else none

/-- `sys_setregid`: what it returns, and the ids then. -/
def sysSetregid (rgid egid : Int) (c : Ids) : Int × Ids :=
  match setRgid rgid c with
  | none => (-EPERM, c)
  | some c' =>
      if egid ≤ 0 then (0, c')
      else if Is c'.gid egid ∨ Is c'.egid egid ∨ suser c' then
        (0, { c' with egid := ushort egid, sgid := ushort egid })
      -- The real id is not put back.
      else (-EPERM, c')

/-- `sys_setgid`. -/
def sysSetgid (gid : Int) (c : Ids) : Int × Ids :=
  if suser c then (0, { c with gid := ushort gid, egid := ushort gid, sgid := ushort gid })
  else if Is c.gid gid ∨ Is c.sgid gid then (0, { c with egid := ushort gid })
  else (-EPERM, c)

/-- `sys_setreuid` as far as it is about `ruid`; `none` is -EPERM. -/
def setRuid (ruid : Int) (c : Ids) : Option Ids :=
  if ruid ≤ 0 then some c
  else if Is c.euid ruid ∨ Is c.uid ruid ∨ suser c then some { c with uid := ushort ruid }
  else none

/-- `sys_setreuid`. -/
def sysSetreuid (ruid euid : Int) (c : Ids) : Int × Ids :=
  let oldRuid := c.uid
  match setRuid ruid c with
  | none => (-EPERM, c)
  | some c' =>
      if euid ≤ 0 then (0, c')
      else if Is oldRuid euid ∨ Is c'.euid euid ∨ suser c' then
        (0, { c' with euid := ushort euid, suid := ushort euid })
      else (-EPERM, { c' with uid := oldRuid })

/-- `sys_setuid`. -/
def sysSetuid (uid : Int) (c : Ids) : Int × Ids :=
  if suser c then (0, { c with uid := ushort uid, euid := ushort uid, suid := ushort uid })
  else if Is c.uid uid ∨ Is c.suid uid then (0, { c with euid := ushort uid })
  else (-EPERM, c)

inductive Call where
  | setuid (uid : Int)
  | setreuid (ruid euid : Int)
  | setgid (gid : Int)
  | setregid (rgid egid : Int)

def Call.run : Call → Ids → Int × Ids
  | .setuid uid => sysSetuid uid
  | .setreuid ruid euid => sysSetreuid ruid euid
  | .setgid gid => sysSetgid gid
  | .setregid rgid egid => sysSetregid rgid egid

/-- The ids after some calls. -/
def after (calls : List Call) (c : Ids) : Ids := calls.foldl (fun c call => (call.run c).2) c

/-! ## What a call may change -/

namespace Ids

def uids (c : Ids) : Finset (BitVec 16) := {c.uid, c.euid, c.suid}

def gids (c : Ids) : Finset (BitVec 16) := {c.gid, c.egid, c.sgid}

/-- No privileges, now or later. -/
def Unprivileged (c : Ids) : Prop := 0 ∉ c.uids

/-- `c'` has only ids of `c`. -/
structure Within (c' c : Ids) : Prop where
  uids : c'.uids ⊆ c.uids
  gids : c'.gids ⊆ c.gids

variable {c c' c'' : Ids}

theorem Within.refl (c : Ids) : Within c c := ⟨Finset.Subset.refl _, Finset.Subset.refl _⟩

theorem Within.trans (h : Within c'' c') (h' : Within c' c) : Within c'' c :=
  ⟨h.uids.trans h'.uids, h.gids.trans h'.gids⟩

theorem Within.unprivileged (h : Within c' c) (hc : c.Unprivileged) : c'.Unprivileged := fun h0 => hc (h.uids h0)

theorem mem_uids {x : BitVec 16} : x ∈ c.uids ↔ x = c.uid ∨ x = c.euid ∨ x = c.suid := by
  simp [uids]

theorem mem_gids {x : BitVec 16} : x ∈ c.gids ↔ x = c.gid ∨ x = c.egid ∨ x = c.sgid := by
  simp [gids]

theorem Unprivileged.not_suser (h : c.Unprivileged) : suser c = false := by
  have hne : c.euid ≠ 0 := fun h0 => h (mem_uids.2 (.inr (.inl h0.symm)))
  simpa [suser] using hne

/-- The user ids become some of those there were. -/
theorem Within.of_uids {u e s : BitVec 16} (hu : u ∈ c.uids) (he : e ∈ c.uids) (hs : s ∈ c.uids) :
    Within { c with uid := u, euid := e, suid := s } c := by
  refine ⟨fun x hx => ?_, Finset.Subset.refl _⟩
  rcases mem_uids.1 hx with rfl | rfl | rfl
  · exact hu
  · exact he
  · exact hs

/-- So do the group ids. -/
theorem Within.of_gids {g e s : BitVec 16} (hg : g ∈ c.gids) (he : e ∈ c.gids) (hs : s ∈ c.gids) :
    Within { c with gid := g, egid := e, sgid := s } c := by
  refine ⟨Finset.Subset.refl _, fun x hx => ?_⟩
  rcases mem_gids.1 hx with rfl | rfl | rfl
  · exact hg
  · exact he
  · exact hs

theorem uid_mem (c : Ids) : c.uid ∈ c.uids := mem_uids.2 (.inl rfl)
theorem euid_mem (c : Ids) : c.euid ∈ c.uids := mem_uids.2 (.inr (.inl rfl))
theorem suid_mem (c : Ids) : c.suid ∈ c.uids := mem_uids.2 (.inr (.inr rfl))
theorem gid_mem (c : Ids) : c.gid ∈ c.gids := mem_gids.2 (.inl rfl)
theorem egid_mem (c : Ids) : c.egid ∈ c.gids := mem_gids.2 (.inr (.inl rfl))
theorem sgid_mem (c : Ids) : c.sgid ∈ c.gids := mem_gids.2 (.inr (.inr rfl))

end Ids

open Ids

variable {c : Ids}

/-- An id that the caller may take is the one it is compared with. -/
theorem ushort_mem {S : Finset (BitVec 16)} {x y : BitVec 16} {n : Int} (hx : x ∈ S) (hy : y ∈ S)
    (h : Is x n ∨ Is y n) : ushort n ∈ S := by
  rcases h with h | h
  · rw [ushort_of_is h]
    exact hx
  · rw [ushort_of_is h]
    exact hy

theorem sysSetuid_within (h : c.Unprivileged) (uid : Int) : Within (sysSetuid uid c).2 c := by
  unfold sysSetuid
  rw [h.not_suser, if_neg Bool.false_ne_true]
  split
  · rename_i hid
    exact .of_uids c.uid_mem (ushort_mem c.uid_mem c.suid_mem hid) c.suid_mem
  · exact .refl c

theorem sysSetgid_within (h : c.Unprivileged) (gid : Int) : Within (sysSetgid gid c).2 c := by
  unfold sysSetgid
  rw [h.not_suser, if_neg Bool.false_ne_true]
  split
  · rename_i hid
    exact .of_gids c.gid_mem (ushort_mem c.gid_mem c.sgid_mem hid) c.sgid_mem
  · exact .refl c

/-- What the first half of `setreuid` leaves. -/
theorem setRuid_eq (h : c.Unprivileged) {ruid : Int} {c' : Ids} (hc' : setRuid ruid c = some c') :
    ∃ u ∈ c.uids, c' = { c with uid := u } := by
  unfold setRuid at hc'
  rw [h.not_suser] at hc'
  split at hc'
  · cases hc'
    exact ⟨_, c.uid_mem, rfl⟩
  · split at hc'
    · rename_i hid
      cases hc'
      exact ⟨_, ushort_mem c.euid_mem c.uid_mem (by simpa using hid), rfl⟩
    · cases hc'

/-- Both ids of `setreuid` are chosen among the two that there were before the call. -/
theorem sysSetreuid_within (h : c.Unprivileged) (ruid euid : Int) : Within (sysSetreuid ruid euid c).2 c := by
  unfold sysSetreuid
  cases hreal : setRuid ruid c with
  | none => exact .refl c
  | some c' =>
      obtain ⟨u, hu, rfl⟩ := setRuid_eq h hreal
      have hno : suser { c with uid := u } = false := h.not_suser
      dsimp only
      rw [hno]
      split
      · exact .of_uids hu c.euid_mem c.suid_mem
      · split
        · rename_i hid
          have heuid : ushort euid ∈ c.uids := ushort_mem c.uid_mem c.euid_mem (by simpa using hid)
          exact .of_uids hu heuid heuid
        · exact .refl c

/-- Without privileges the first half of `setregid` changes nothing. -/
theorem setRgid_eq (h : c.Unprivileged) {rgid : Int} {c' : Ids} (hc' : setRgid rgid c = some c') : c' = c := by
  unfold setRgid at hc'
  rw [h.not_suser] at hc'
  split at hc'
  · cases hc'
    rfl
  · split at hc'
    · rename_i hid
      cases hc'
      rw [ushort_of_is (by simpa using hid)]
    · cases hc'

theorem sysSetregid_within (h : c.Unprivileged) (rgid egid : Int) : Within (sysSetregid rgid egid c).2 c := by
  unfold sysSetregid
  cases hreal : setRgid rgid c with
  | none => exact .refl c
  | some c' =>
      obtain rfl := setRgid_eq h hreal
      dsimp only
      rw [h.not_suser]
      split
      · exact .refl c'
      · split
        · rename_i hid
          have hegid : ushort egid ∈ c'.gids := ushort_mem c'.gid_mem c'.egid_mem (by simpa using hid)
          exact .of_gids c'.gid_mem hegid hegid
        · exact .refl c'

theorem run_within (h : c.Unprivileged) (call : Call) : Within (call.run c).2 c := by
  cases call with
  | setuid uid => exact sysSetuid_within h uid
  | setreuid ruid euid => exact sysSetreuid_within h ruid euid
  | setgid gid => exact sysSetgid_within h gid
  | setregid rgid egid => exact sysSetregid_within h rgid egid

theorem after_within (h : c.Unprivileged) (calls : List Call) : Within (after calls c) c := by
  unfold after
  induction calls generalizing c with
  | nil => exact .refl c
  | cons call calls ih =>
      have hcall := run_within h call
      exact (ih (hcall.unprivileged h)).trans hcall

/-! ## What a denied call leaves -/

/-- **`-EPERM` changes nothing**, with or without privileges: who has them is denied nothing, and for the others
the first half of `setregid` does not change the real id. -/
theorem denied_eq (call : Call) (h : (call.run c).1 = -EPERM) : (call.run c).2 = c := by
  have hzero : (0 : Int) ≠ -EPERM := by decide
  cases call with
  | setuid uid =>
      simp only [Call.run, sysSetuid] at h ⊢
      split_ifs at h ⊢ <;> first | rfl | exact absurd h hzero
  | setgid gid =>
      simp only [Call.run, sysSetgid] at h ⊢
      split_ifs at h ⊢ <;> first | rfl | exact absurd h hzero
  | setreuid ruid euid =>
      simp only [Call.run, sysSetreuid] at h ⊢
      cases hreal : setRuid ruid c with
      | none => rfl
      | some c' =>
          have hc' : { c' with uid := c.uid } = c := by
            unfold setRuid at hreal
            split_ifs at hreal <;> cases hreal <;> rfl
          simp only [hreal] at h ⊢
          split_ifs at h ⊢
          · exact absurd h hzero
          · exact absurd h hzero
          · exact hc'
  | setregid rgid egid =>
      simp only [Call.run, sysSetregid] at h ⊢
      cases hreal : setRgid rgid c with
      | none => rfl
      | some c' =>
          simp only [hreal] at h ⊢
          split_ifs at h ⊢ with hegid hid
          · exact absurd h hzero
          · exact absurd h hzero
          · -- Only the superuser changes the real id, and its second half does not fail.
            unfold setRgid at hreal
            split_ifs at hreal with hrgid hid'
            · cases hreal
              rfl
            · cases hreal
              rcases hid' with hid' | hsu
              · rw [ushort_of_is hid']
              · exact absurd (.inr (.inr hsu)) hid

/-- **Without privileges there is no id to gain**: by no calls, and what is denied leaves no trace. -/
theorem credentials_confined (h : c.Unprivileged) (calls : List Call) :
    Within (after calls c) c ∧ (after calls c).Unprivileged ∧
      ∀ call : Call, (call.run (after calls c)).1 = -EPERM → (call.run (after calls c)).2 = after calls c :=
  ⟨after_within h calls, (after_within h calls).unprivileged h, fun call hcall => denied_eq call hcall⟩

/-- A user exchanges the real and the effective id, and is denied those of the superuser. -/
theorem credentials_confined_swap :
    let c : Ids := ⟨100, 200, 200, 5, 5, 5⟩
    Within (after [.setreuid 200 100, .setuid 0] c) c ∧ (after [.setreuid 200 100, .setuid 0] c).Unprivileged ∧
      ∀ call : Call, (call.run (after [.setreuid 200 100, .setuid 0] c)).1 = -EPERM →
        (call.run (after [.setreuid 200 100, .setuid 0] c)).2 = after [.setreuid 200 100, .setuid 0] c :=
  credentials_confined (by unfold Unprivileged uids; decide) _

end Credentials
end Kernel
end Linux095
