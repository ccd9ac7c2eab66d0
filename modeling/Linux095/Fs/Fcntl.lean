import Mathlib.Data.BitVec
import Mathlib.Logic.Function.Basic

/-!
# `Fs.Fcntl` — duplicating a descriptor (`fs/fcntl.c`)

* `Files`, `sysClose`, `dupfd`, `sysDup2`, `sysDup`, `sysFcntl` — the source's functions;
* `Closed`, `Duplicated`, `Meets` — **what the calls are for**: an error changes nothing, and a new descriptor is one more
  holder of the same file;
* `sysClose_closed`, `dupfd_meets` — what `sys_close` and `dupfd` do;
* `descriptor_iff` — **when `dup`, `dup2` and `F_DUPFD` do what they are for**.

A file is named by its index in `file_table`.
-/

namespace Linux095
namespace Fs
namespace Fcntl

/-! ## The source's functions -/

def NR_OPEN : Nat := 20
def EBADF : Int := 9
def EINVAL : Int := 22
def EMFILE : Int := 24
def ENOSYS : Int := 38
def O_APPEND : BitVec 16 := 0x400
def O_NONBLOCK : BitVec 16 := 0x800

/-- The descriptors of the current process, the files in `file_table`, and the inodes `iput` has been called for. -/
structure Files where
  filp : Nat → Option Nat
  closeOnExec : BitVec 32
  fFlags : Nat → BitVec 16
  fCount : Nat → BitVec 16
  fInode : Nat → Nat
  iputs : List Nat

namespace Files

def setFilp (s : Files) (fd : Nat) (f : Option Nat) : Files := { s with filp := Function.update s.filp fd f }

def setCount (s : Files) (f : Nat) (n : BitVec 16) : Files := { s with fCount := Function.update s.fCount f n }

def setFlags (s : Files) (f : Nat) (n : BitVec 16) : Files := { s with fFlags := Function.update s.fFlags f n }

/-- "current->close_on_exec &= ~(1<<fd)". -/
def clearExec (s : Files) (fd : Nat) : Files := { s with closeOnExec := s.closeOnExec &&& ~~~(1#32 <<< fd) }

/-- "current->close_on_exec |= (1<<fd)". -/
def setExec (s : Files) (fd : Nat) : Files := { s with closeOnExec := s.closeOnExec ||| 1#32 <<< fd }

/-- The file of a descriptor, if it is one: "fd >= NR_OPEN || !current->filp[fd]" is none. -/
def fileOf (s : Files) (fd : BitVec 32) : Option Nat := if NR_OPEN ≤ fd.toNat then none else s.filp fd.toNat

end Files

/-- `sys_close`; there is no state after a panic. -/
def sysClose (fd : BitVec 32) (s : Files) : Option (Int × Files) :=
  if NR_OPEN ≤ fd.toNat then some (-EINVAL, s)
  else
    let s := s.clearExec fd.toNat
    match s.filp fd.toNat with
    | none => some (-EINVAL, s)
    | some f =>
        let s := s.setFilp fd.toNat none
        if s.fCount f = 0 then none
        else
          let s := s.setCount f (s.fCount f - 1)
          if s.fCount f ≠ 0 then some (0, s)
          else some (0, { s with iputs := s.fInode f :: s.iputs })

/-- "while (arg < NR_OPEN) if (current->filp[arg]) arg++; else break". -/
def firstFree (filp : Nat → Option Nat) : Nat → Nat → Nat
  | 0, arg => arg
  | n + 1, arg => if (filp arg).isSome then firstFree filp n (arg + 1) else arg

/-- `dupfd`. -/
def dupfd (fd arg : BitVec 32) (s : Files) : Int × Files :=
  match s.fileOf fd with
  | none => (-EBADF, s)
  | some f =>
      if NR_OPEN ≤ arg.toNat then (-EINVAL, s)
      else
        let a := firstFree s.filp (NR_OPEN - arg.toNat) arg.toNat
        if NR_OPEN ≤ a then (-EMFILE, s)
        else (a, ((s.clearExec a).setFilp a (some f)).setCount f (s.fCount f + 1))

/-- `sys_dup2`. What `sys_close` returns is not looked at. -/
def sysDup2 (oldfd newfd : BitVec 32) (s : Files) : Option (Int × Files) :=
  if newfd = oldfd then some (newfd.toInt, s)
  else (sysClose newfd s).map fun r => dupfd oldfd newfd r.2

/-- `sys_dup`. -/
def sysDup (fildes : BitVec 32) (s : Files) : Int × Files := dupfd fildes 0 s

/-- `sys_fcntl`. -/
def sysFcntl (fd cmd arg : BitVec 32) (s : Files) : Int × Files :=
  match s.fileOf fd with
  | none => (-EBADF, s)
  | some f =>
      if cmd = 0 then dupfd fd arg s
      else if cmd = 1 then ((s.closeOnExec >>> fd.toNat &&& 1).toNat, s)
      else if cmd = 2 then (0, if arg.getLsbD 0 then s.setExec fd.toNat else s.clearExec fd.toNat)
      else if cmd = 3 then ((s.fFlags f).toNat, s)
      else if cmd = 4 then
        (0, s.setFlags f (s.fFlags f &&& ~~~(O_APPEND ||| O_NONBLOCK)
          ||| arg.setWidth 16 &&& (O_APPEND ||| O_NONBLOCK)))
      else if cmd = 5 ∨ cmd = 6 ∨ cmd = 7 then (-ENOSYS, s)
      else (-EINVAL, s)

/-- The ways to duplicate a descriptor. -/
inductive Call where
  | dup (fildes : BitVec 32)
  | dup2 (oldfd newfd : BitVec 32)
  | fDupfd (fd arg : BitVec 32)

def Call.run (s : Files) : Call → Option (Int × Files)
  | dup fildes => some (sysDup fildes s)
  | dup2 oldfd newfd => sysDup2 oldfd newfd s
  | fDupfd fd arg => some (sysFcntl fd 0 arg s)

/-! ## What the calls are for -/

/-- From `s` to `s'` the descriptor `fd` is closed, if it was open: its file has one holder less, and its inode goes with
    the last one. -/
structure Closed (s : Files) (fd : Nat) (s' : Files) : Prop where
  filp : s'.filp = Function.update s.filp fd none
  flag : s'.closeOnExec.getLsbD fd = false
  exec : ∀ k ≠ fd, s'.closeOnExec.getLsbD k = s.closeOnExec.getLsbD k
  count : ∀ f, s.filp fd = some f → (s'.fCount f).toNat + 1 = (s.fCount f).toNat
  others : ∀ f, s.filp fd ≠ some f → s'.fCount f = s.fCount f
  iputs : s'.iputs = (match s.filp fd with
    | some f => if s'.fCount f = 0 then [s.fInode f] else []
    | none => []) ++ s.iputs

/-- From `s` to `s'` the descriptor `r` becomes one of the file of `fd`. -/
structure Duplicated (s : Files) (fd : BitVec 32) (r : Nat) (f : Nat) (s' : Files) : Prop where
  file : s.fileOf fd = some f
  lt : r < NR_OPEN
  free : s.filp r = none
  filp : s'.filp = Function.update s.filp r (some f)
  count : (s'.fCount f).toNat = (s.fCount f).toNat + 1
  others : ∀ g ≠ f, s'.fCount g = s.fCount g
  exec : s'.closeOnExec.getLsbD r = false
  execs : ∀ k ≠ r, s'.closeOnExec.getLsbD k = s.closeOnExec.getLsbD k

/-- `r` is the lowest free descriptor from `lo` on. -/
def Lowest (s : Files) (lo r : Nat) : Prop := lo ≤ r ∧ s.filp r = none ∧ ∀ k, lo ≤ k → k < r → s.filp k ≠ none

/-- Descriptors, counts and flags are as before. -/
def Unchanged (s s' : Files) : Prop := s'.filp = s.filp ∧ s'.fCount = s.fCount ∧ s'.closeOnExec = s.closeOnExec

/-- The call has been successful and has returned `r`. -/
def Success (s : Files) (r : Nat) (s' : Files) : Call → Prop
  | .dup fildes => Lowest s 0 r ∧ ∃ f, Duplicated s fildes r f s'
  | .fDupfd fd arg => Lowest s arg.toNat r ∧ ∃ f, Duplicated s fd r f s'
  | .dup2 oldfd newfd => r = newfd.toNat ∧ ∃ s₁ f, Closed s newfd.toNat s₁ ∧ Duplicated s₁ oldfd r f s'

/-- **What a call that returns is to have done.** -/
def Meets (s : Files) (c : Call) : Prop :=
  ∀ r s', c.run s = some (r, s') → if r < 0 then Unchanged s s' else Success s r.toNat s' c

/-! ## The flags of a descriptor -/

section
variable (s : Files) (fd k : Nat)

theorem getLsbD_clearExec_ne (h : k ≠ fd) : (s.clearExec fd).closeOnExec.getLsbD k = s.closeOnExec.getLsbD k := by
  by_cases hk : k < 32
  · have hbit : (1#32 <<< fd).getLsbD k = false := by
      rw [BitVec.getLsbD_shiftLeft, BitVec.getLsbD_one]
      by_cases hlt : k < fd
      · simp [hlt]
      · have hne : k - fd ≠ 0 := by omega
        simp [hne]
    simp only [Files.clearExec, BitVec.getLsbD_and, BitVec.getLsbD_not, hbit, hk, decide_true, Bool.not_false,
      Bool.and_true]
  · rw [BitVec.getLsbD_of_ge _ _ (Nat.le_of_not_lt hk), BitVec.getLsbD_of_ge _ _ (Nat.le_of_not_lt hk)]

theorem getLsbD_clearExec_self : (s.clearExec fd).closeOnExec.getLsbD fd = false := by
  by_cases hk : fd < 32
  · have hbit : (1#32 <<< fd).getLsbD fd = true := by
      rw [BitVec.getLsbD_shiftLeft, BitVec.getLsbD_one]
      simp [hk]
    simp only [Files.clearExec, BitVec.getLsbD_and, BitVec.getLsbD_not, hbit, Bool.not_true, Bool.and_false]
  · rw [BitVec.getLsbD_of_ge _ _ (Nat.le_of_not_lt hk)]

/-- Clearing a flag that is clear is nothing. -/
theorem clearExec_eq_self : (s.clearExec fd).closeOnExec = s.closeOnExec ↔ s.closeOnExec.getLsbD fd = false := by
  constructor
  · intro h
    rw [← h]
    exact getLsbD_clearExec_self s fd
  · intro h
    refine BitVec.eq_of_getLsbD_eq fun i _ => ?_
    by_cases hi : i = fd
    · rw [hi, getLsbD_clearExec_self, h]
    · exact getLsbD_clearExec_ne s fd i hi

end

/-! ## Closing -/

/-- The file of an open descriptor without a holder: closing it is a panic. -/
def Orphan (s : Files) (fd : Nat) : Prop := ∃ f, s.filp fd = some f ∧ s.fCount f = 0

/-- A descriptor that is not one, or not open. -/
theorem sysClose_range {fd : BitVec 32} (s : Files) (h : NR_OPEN ≤ fd.toNat) : sysClose fd s = some (-EINVAL, s) := by
  rw [sysClose, if_pos h]

theorem sysClose_none {fd : BitVec 32} {s : Files} (h : fd.toNat < NR_OPEN) (hf : s.filp fd.toNat = none) :
    sysClose fd s = some (-EINVAL, s.clearExec fd.toNat) := by
  have hf' : (s.clearExec fd.toNat).filp fd.toNat = none := hf
  simp only [sysClose, Nat.not_le.mpr h, if_false, hf']

/-- The state after an open descriptor has been taken away and its file has one holder less. -/
def closing (s : Files) (fd f : Nat) : Files := ((s.clearExec fd).setFilp fd none).setCount f (s.fCount f - 1)

theorem sysClose_some {fd : BitVec 32} {s : Files} {f : Nat} (h : fd.toNat < NR_OPEN)
    (hf : s.filp fd.toNat = some f) :
    sysClose fd s = if s.fCount f = 0 then none
      else if (closing s fd.toNat f).fCount f ≠ 0 then some (0, closing s fd.toNat f)
      else some (0, { closing s fd.toNat f with iputs := s.fInode f :: s.iputs }) := by
  have hf' : (s.clearExec fd.toNat).filp fd.toNat = some f := hf
  rw [sysClose, if_neg (Nat.not_le.mpr h)]
  simp only [hf']
  rfl

theorem sysClose_orphan {fd : BitVec 32} {s : Files} (h : fd.toNat < NR_OPEN) :
    sysClose fd s = none ↔ Orphan s fd.toNat := by
  cases hf : s.filp fd.toNat with
  | none => simp [sysClose_none h hf, Orphan, hf]
  | some f =>
      rw [sysClose_some h hf]
      by_cases hz : s.fCount f = 0
      · rw [if_pos hz]
        exact iff_of_true rfl ⟨f, hf, hz⟩
      · have hnot : ¬Orphan s fd.toNat := by
          rintro ⟨g, hg, hzero⟩
          obtain rfl := Option.some.inj (hf.symm.trans hg)
          exact hz hzero
        rw [if_neg hz]
        split_ifs <;> exact iff_of_false (by simp) hnot

/-- **What `sys_close` does to an open descriptor, or to one that is not.** -/
theorem sysClose_closed {fd : BitVec 32} {s s' : Files} {r : Int} (h : fd.toNat < NR_OPEN)
    (hc : sysClose fd s = some (r, s')) : Closed s fd.toNat s' := by
  cases hf : s.filp fd.toNat with
  | none =>
      rw [sysClose_none h hf] at hc
      obtain ⟨-, rfl⟩ := Prod.mk.inj (Option.some.inj hc)
      refine ⟨?_, getLsbD_clearExec_self s _, fun k hk => getLsbD_clearExec_ne s _ k hk, fun f hsome => ?_,
        fun _ _ => rfl, ?_⟩
      · rw [← hf, Function.update_eq_self]
        rfl
      · rw [hf] at hsome
        exact absurd hsome (by simp)
      · rw [hf]
        rfl
  | some f =>
      rw [sysClose_some h hf] at hc
      have hself : (closing s fd.toNat f).fCount f = s.fCount f - 1 := Function.update_self ..
      have hothers : ∀ g, s.filp fd.toNat ≠ some g → (closing s fd.toNat f).fCount g = s.fCount g := by
        intro g hg
        have hne : g ≠ f := by
          rintro rfl
          exact hg hf
        exact Function.update_of_ne hne ..
      by_cases hz : s.fCount f = 0
      · rw [if_pos hz] at hc
        exact absurd hc (by simp)
      · have hdown : (s.fCount f - 1).toNat + 1 = (s.fCount f).toNat := by
          have hlt := (s.fCount f).isLt
          have hpos : (s.fCount f).toNat ≠ 0 := fun h0 => hz (BitVec.eq_of_toNat_eq h0)
          rw [BitVec.toNat_sub, show (1 : BitVec 16).toNat = 1 from rfl]
          omega
        have hcount : ∀ g, s.filp fd.toNat = some g → ((closing s fd.toNat f).fCount g).toNat + 1 = (s.fCount g).toNat := by
          intro g hg
          obtain rfl := Option.some.inj (hf.symm.trans hg)
          rw [hself]
          exact hdown
        rw [if_neg hz] at hc
        by_cases hlast : (closing s fd.toNat f).fCount f = 0
        · rw [if_neg (not_not.mpr hlast)] at hc
          obtain ⟨-, rfl⟩ := Prod.mk.inj (Option.some.inj hc)
          refine ⟨rfl, getLsbD_clearExec_self s _, fun k hk => getLsbD_clearExec_ne s _ k hk, hcount, hothers, ?_⟩
          simp only [hf, hlast, if_true]
          rfl
        · rw [if_pos hlast] at hc
          obtain ⟨-, rfl⟩ := Prod.mk.inj (Option.some.inj hc)
          refine ⟨rfl, getLsbD_clearExec_self s _, fun k hk => getLsbD_clearExec_ne s _ k hk, hcount, hothers, ?_⟩
          simp only [hf, hlast, if_false]
          rfl

/-! ## Duplicating -/

theorem firstFree_spec (filp : Nat → Option Nat) (n arg : Nat) :
    arg ≤ firstFree filp n arg ∧ firstFree filp n arg ≤ arg + n ∧
      (∀ k, arg ≤ k → k < firstFree filp n arg → filp k ≠ none) ∧
      (firstFree filp n arg < arg + n → filp (firstFree filp n arg) = none) := by
  induction n generalizing arg with
  | zero => exact ⟨le_rfl, le_rfl, fun k h1 h2 => absurd h2 (Nat.not_lt.mpr h1), fun h => absurd h (Nat.lt_irrefl _)⟩
  | succ n ih =>
      by_cases h : (filp arg).isSome
      · have hstep : firstFree filp (n + 1) arg = firstFree filp n (arg + 1) := by rw [firstFree, if_pos h]
        obtain ⟨hlo, hhi, hall, hend⟩ := ih (arg + 1)
        rw [hstep]
        refine ⟨by omega, by omega, fun k h1 h2 => ?_, fun hlt => hend (by omega)⟩
        by_cases hk : k = arg
        · rw [hk]
          exact Option.isSome_iff_ne_none.mp h
        · exact hall k (by omega) h2
      · have hstep : firstFree filp (n + 1) arg = arg := by rw [firstFree, if_neg h]
        rw [hstep]
        exact ⟨le_rfl, by omega, fun k h1 h2 => absurd h2 (Nat.not_lt.mpr h1), fun _ => Option.not_isSome_iff_eq_none.mp h⟩

/-- The state after `a` has become one more descriptor of `f`. -/
def sharing (s : Files) (a f : Nat) : Files := ((s.clearExec a).setFilp a (some f)).setCount f (s.fCount f + 1)

/-- A descriptor is free from `lo` on. -/
def HasFree (s : Files) (lo : Nat) : Prop := ∃ k, lo ≤ k ∧ k < NR_OPEN ∧ s.filp k = none

/-- **What `dupfd` does**: nothing, or what it is to do. -/
theorem dupfd_cases (fd arg : BitVec 32) (s : Files) :
    (∃ e : Int, e < 0 ∧ dupfd fd arg s = (e, s) ∧ (s.fileOf fd = none ∨ ¬HasFree s arg.toNat)) ∨
      ∃ a f : Nat, dupfd fd arg s = ((a : Int), sharing s a f) ∧ s.fileOf fd = some f ∧ Lowest s arg.toNat a ∧ a < NR_OPEN := by
  cases hf : s.fileOf fd with
  | none =>
      refine Or.inl ⟨-EBADF, by decide, ?_, Or.inl rfl⟩
      simp only [dupfd, hf]
  | some f =>
      obtain ⟨hlo, hhi, hall, hend⟩ := firstFree_spec s.filp (NR_OPEN - arg.toNat) arg.toNat
      by_cases harg : NR_OPEN ≤ arg.toNat
      · refine Or.inl ⟨-EINVAL, by decide, ?_, Or.inr fun ⟨k, h1, h2, _⟩ => by omega⟩
        simp only [dupfd, hf, harg, if_true]
      · by_cases hfull : NR_OPEN ≤ firstFree s.filp (NR_OPEN - arg.toNat) arg.toNat
        · refine Or.inl ⟨-EMFILE, by decide, ?_, Or.inr fun ⟨k, h1, h2, hk⟩ => hall k h1 (by omega) hk⟩
          simp only [dupfd, hf, harg, if_false, hfull, if_true]
        · refine Or.inr ⟨_, f, ?_, rfl, ⟨hlo, hend (by omega), hall⟩, Nat.not_le.mp hfull⟩
          simp only [dupfd, hf, harg, if_false, hfull]
          rfl

/-- The new descriptor is one as it is to be, as long as the count does not come around. -/
theorem sharing_duplicated {s : Files} {fd : BitVec 32} {a f : Nat} (hf : s.fileOf fd = some f) (ha : a < NR_OPEN)
    (hfree : s.filp a = none) (hroom : s.fCount f ≠ 0xFFFF) : Duplicated s fd a f (sharing s a f) := by
  have hself : (sharing s a f).fCount f = s.fCount f + 1 := Function.update_self ..
  refine ⟨hf, ha, hfree, rfl, ?_, fun g hg => Function.update_of_ne hg .., getLsbD_clearExec_self s a,
    fun k hk => getLsbD_clearExec_ne s a k hk⟩
  have hlt := (s.fCount f).isLt
  have hne : (s.fCount f).toNat ≠ 0xFFFF := fun h => hroom (BitVec.eq_of_toNat_eq h)
  rw [hself, BitVec.toNat_add, show (1 : BitVec 16).toNat = 1 from rfl]
  omega

theorem Duplicated.room {s s' : Files} {fd : BitVec 32} {r f : Nat} (h : Duplicated s fd r f s') :
    s.fCount f ≠ 0xFFFF := by
  intro hfull
  have hup := h.count
  have hlt := (s'.fCount f).isLt
  rw [hfull, show (0xFFFF : BitVec 16).toNat = 0xFFFF from rfl] at hup
  omega

/-! ## When the calls do what they are for -/

/-- There is room in the count of the file of `fd` if it gets a descriptor. -/
def Room (s : Files) (fd : BitVec 32) (lo : Nat) : Prop := ∀ f, s.fileOf fd = some f → HasFree s lo → s.fCount f ≠ 0xFFFF

/-- The inputs on which the calls do what they are for. `dup2` of a number to itself returns the number at once, an error
    only if it is negative; otherwise it has closed `newfd` before it looks at `oldfd`. -/
def Fine (s : Files) : Call → Prop
  | .dup fildes => Room s fildes 0
  | .fDupfd fd arg => Room s fd arg.toNat
  | .dup2 oldfd newfd =>
      if newfd = oldfd then newfd.toInt < 0
      else NR_OPEN ≤ newfd.toNat ∨ Orphan s newfd.toNat ∨
        (s.fileOf oldfd = none ∧ s.filp newfd.toNat = none ∧ s.closeOnExec.getLsbD newfd.toNat = false) ∨
        ∃ f, s.fileOf oldfd = some f ∧ (s.filp newfd.toNat = some f ∨ s.fCount f ≠ 0xFFFF)

/-- What holds of one result. -/
theorem meets_of_run {s s' : Files} {c : Call} {r : Int} (h : c.run s = some (r, s')) :
    Meets s c ↔ if r < 0 then Unchanged s s' else Success s r.toNat s' c := by
  constructor
  · intro hm
    exact hm r s' h
  · intro hgood r' s'' h'
    obtain ⟨rfl, rfl⟩ := Prod.mk.inj (Option.some.inj (h.symm.trans h'))
    exact hgood

/-- `dup` and `F_DUPFD`. -/
theorem dupfd_iff {s : Files} {fd arg : BitVec 32} {c : Call} (hrun : c.run s = some (dupfd fd arg s))
    (hsuccess : ∀ r s', Success s r s' c ↔ Lowest s arg.toNat r ∧ ∃ f, Duplicated s fd r f s') :
    Meets s c ↔ Room s fd arg.toNat := by
  rcases dupfd_cases fd arg s with ⟨e, hneg, heq, hwhy⟩ | ⟨a, f, heq, hf, hlow, ha⟩
  · rw [heq] at hrun
    rw [meets_of_run hrun, if_pos hneg]
    refine iff_of_true ⟨rfl, rfl, rfl⟩ fun f hf hfree => ?_
    rcases hwhy with hnone | hfull
    · exact absurd (hnone.symm.trans hf) (by simp)
    · exact absurd hfree hfull
  · rw [heq] at hrun
    rw [meets_of_run hrun, if_neg (by omega), Int.toNat_natCast, hsuccess]
    constructor
    · rintro ⟨-, g, hdup⟩ f' hf' -
      obtain rfl := Option.some.inj (hdup.file.symm.trans hf')
      exact hdup.room
    · intro hroom
      exact ⟨hlow, f, sharing_duplicated hf ha hlow.2.1 (hroom f hf ⟨a, hlow.1, ha, hlow.2.1⟩)⟩

/-- A descriptor that has been closed is no file's. -/
theorem Closed.fileOf_self {s s₁ : Files} {fd : BitVec 32} (h : Closed s fd.toNat s₁) : s₁.fileOf fd = none := by
  unfold Files.fileOf
  rw [h.filp, Function.update_self]
  exact ite_self _

/-- The other descriptors are still open. -/
theorem Closed.fileOf_ne {s s₁ : Files} {fd fd' : BitVec 32} (h : Closed s fd.toNat s₁) (hne : fd' ≠ fd) :
    s₁.fileOf fd' = s.fileOf fd' := by
  have hne' : fd'.toNat ≠ fd.toNat := fun heq => hne (BitVec.eq_of_toNat_eq heq)
  unfold Files.fileOf
  rw [h.filp, Function.update_of_ne hne']

/-- A descriptor duplicated to itself. -/
theorem dup2_self_iff (s : Files) (fd : BitVec 32) : Meets s (.dup2 fd fd) ↔ fd.toInt < 0 := by
  have hrun : (Call.dup2 fd fd).run s = some (fd.toInt, s) := if_pos rfl
  rw [meets_of_run hrun]
  by_cases hneg : fd.toInt < 0
  · rw [if_pos hneg]
    exact iff_of_true ⟨rfl, rfl, rfl⟩ hneg
  · rw [if_neg hneg]
    refine iff_of_false ?_ hneg
    rintro ⟨-, s₁, f, hclosed, hdup⟩
    exact absurd (hclosed.fileOf_self.symm.trans hdup.file) (by simp)

/-- A `dup2` to a number that is no descriptor fails, and closes nothing. -/
theorem dup2_range {s : Files} {oldfd newfd : BitVec 32} (hne : newfd ≠ oldfd) (h : NR_OPEN ≤ newfd.toNat) :
    Meets s (.dup2 oldfd newfd) := by
  have hrun : (Call.dup2 oldfd newfd).run s = some (dupfd oldfd newfd s) := by
    simp only [Call.run, sysDup2, hne, if_false, sysClose_range s h, Option.map_some]
  rcases dupfd_cases oldfd newfd s with ⟨e, hneg, heq, -⟩ | ⟨a, f, -, -, hlow, ha⟩
  · rw [heq] at hrun
    rw [meets_of_run hrun, if_pos hneg]
    exact ⟨rfl, rfl, rfl⟩
  · have hle := hlow.1
    omega

/-- After the close there is a file to share: the call is successful. -/
theorem dup2_open_iff {s s₁ : Files} {oldfd newfd : BitVec 32} {r : Int} {f : Nat} (hne : newfd ≠ oldfd)
    (h : newfd.toNat < NR_OPEN) (hc : sysClose newfd s = some (r, s₁)) (hf : s.fileOf oldfd = some f) :
    Meets s (.dup2 oldfd newfd) ↔ s.filp newfd.toNat = some f ∨ s.fCount f ≠ 0xFFFF := by
  have hclosed := sysClose_closed h hc
  have hfree : s₁.filp newfd.toNat = none := by rw [hclosed.filp, Function.update_self]
  have hf₁ : s₁.fileOf oldfd = some f := (hclosed.fileOf_ne hne.symm).trans hf
  have hrun : (Call.dup2 oldfd newfd).run s = some (dupfd oldfd newfd s₁) := by
    simp only [Call.run, sysDup2, hne, if_false, hc, Option.map_some]
  rcases dupfd_cases oldfd newfd s₁ with ⟨e, -, -, hnone | hfull⟩ | ⟨a, g, heq, hg, hlow, ha⟩
  · exact absurd (hnone.symm.trans hf₁) (by simp)
  · exact absurd ⟨_, le_rfl, h, hfree⟩ hfull
  · obtain rfl := Option.some.inj (hg.symm.trans hf₁)
    -- the descriptor that has just been closed is the first one free
    have ha : a = newfd.toNat := by
      by_contra hna
      exact hlow.2.2 _ le_rfl (lt_of_le_of_ne hlow.1 (Ne.symm hna)) hfree
    subst ha
    rw [heq] at hrun
    rw [meets_of_run hrun, if_neg (by omega), Int.toNat_natCast]
    constructor
    · rintro ⟨-, s₂, g', hclosed', hdup⟩
      have hg' : s₂.fileOf oldfd = some g := (hclosed'.fileOf_ne hne.symm).trans hf
      obtain rfl := Option.some.inj (hdup.file.symm.trans hg')
      by_cases hsame : s.filp newfd.toNat = some g'
      · exact Or.inl hsame
      · rw [← hclosed'.others g' hsame]
        exact Or.inr hdup.room
    · intro hroom
      refine ⟨rfl, s₁, g, hclosed, sharing_duplicated hf₁ h hfree ?_⟩
      by_cases hsame : s.filp newfd.toNat = some g
      · intro hfull
        have hup := hclosed.count g hsame
        have hlt := (s.fCount g).isLt
        rw [hfull, show (0xFFFF : BitVec 16).toNat = 0xFFFF from rfl] at hup
        omega
      · rw [hclosed.others g hsame]
        exact hroom.resolve_left hsame

/-- After the close there is no file to share: the call fails, and what has been closed stays closed. -/
theorem dup2_closed_iff {s s₁ : Files} {oldfd newfd : BitVec 32} {r : Int} (hne : newfd ≠ oldfd)
    (h : newfd.toNat < NR_OPEN) (hc : sysClose newfd s = some (r, s₁)) (hf : s.fileOf oldfd = none) :
    Meets s (.dup2 oldfd newfd) ↔ s.filp newfd.toNat = none ∧ s.closeOnExec.getLsbD newfd.toNat = false := by
  have hclosed := sysClose_closed h hc
  have hf₁ : s₁.fileOf oldfd = none := (hclosed.fileOf_ne hne.symm).trans hf
  have hrun : (Call.dup2 oldfd newfd).run s = some (-EBADF, s₁) := by
    simp only [Call.run, sysDup2, hne, if_false, hc, Option.map_some, dupfd, hf₁]
  rw [meets_of_run hrun, if_pos (by decide)]
  constructor
  · rintro ⟨hfilp, -, hexec⟩
    refine ⟨?_, ?_⟩
    · rw [← hfilp, hclosed.filp, Function.update_self]
    · rw [← hexec]
      exact hclosed.flag
  · rintro ⟨hnone, hclear⟩
    obtain ⟨-, rfl⟩ := Prod.mk.inj (Option.some.inj ((sysClose_none h hnone).symm.trans hc))
    exact ⟨rfl, rfl, (clearExec_eq_self s _).mpr hclear⟩

theorem dup2_ne_iff {s : Files} {oldfd newfd : BitVec 32} (hne : newfd ≠ oldfd) :
    Meets s (.dup2 oldfd newfd) ↔ Fine s (.dup2 oldfd newfd) := by
  simp only [Fine, if_neg hne]
  by_cases hrange : NR_OPEN ≤ newfd.toNat
  · exact iff_of_true (dup2_range hne hrange) (Or.inl hrange)
  · have h := Nat.not_le.mp hrange
    cases hc : sysClose newfd s with
    | none =>
        -- the close has been a panic
        refine iff_of_true (fun r s' hrun => ?_) (Or.inr (Or.inl ((sysClose_orphan h).mp hc)))
        simp only [Call.run, sysDup2, hne, if_false, hc, Option.map_none] at hrun
        exact absurd hrun (by simp)
    | some p =>
        obtain ⟨r, s₁⟩ := p
        have hnot : ¬Orphan s newfd.toNat := by
          intro horphan
          rw [(sysClose_orphan h).mpr horphan] at hc
          exact absurd hc (by simp)
        cases hf : s.fileOf oldfd with
        | none =>
            rw [dup2_closed_iff hne h hc hf]
            simp [hrange, hnot]
        | some f =>
            rw [dup2_open_iff hne h hc hf]
            simp [hrange, hnot]

/-- **When `dup`, `dup2` and `F_DUPFD` do what they are for.** -/
theorem descriptor_iff (s : Files) (c : Call) : Meets s c ↔ Fine s c := by
  cases c with
  | dup fildes => exact @dupfd_iff s fildes 0 (.dup fildes) rfl fun r s' => Iff.rfl
  | fDupfd fd arg =>
      refine @dupfd_iff s fd arg (.fDupfd fd arg) ?_ fun r s' => Iff.rfl
      -- the check of `fd` is made twice
      cases hf : s.fileOf fd with
      | none => simp only [Call.run, sysFcntl, dupfd, hf]
      | some f => simp only [Call.run, sysFcntl, hf, if_true]
  | dup2 oldfd newfd =>
      by_cases heq : newfd = oldfd
      · subst heq
        simp only [Fine, if_true]
        exact dup2_self_iff s newfd
      · exact dup2_ne_iff heq

/-- Three descriptors are open, and 7 is not. -/
def shell : Files where
  filp := fun fd => if fd < 3 then some fd else none
  closeOnExec := 0
  fFlags := fun _ => 0
  fCount := fun _ => 1
  fInode := fun f => f
  iputs := []

/-- `dup2(7,1)` fails, and standard output is closed. -/
theorem dup2_closes : ¬Meets shell (.dup2 7 1) := by
  intro h
  have hrun : (Call.dup2 7 1).run shell = some (-EBADF, { closing shell 1 1 with iputs := [1] }) := rfl
  have hfilp := (meets_of_run hrun).mp h
  rw [if_pos (by decide)] at hfilp
  exact absurd (congrFun hfilp.1 1) (by decide)

end Fcntl
end Fs
end Linux095
