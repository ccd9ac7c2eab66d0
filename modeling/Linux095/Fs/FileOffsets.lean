import Linux095.Fs.Minix.Bmap
import Mathlib.Algebra.BigOperators.Fin
import Mathlib.Algebra.Order.BigOperators.Group.Finset
import Mathlib.Logic.Relation

/-!
# `Fs.FileOffsets` — positions in a regular file (`fs/read_write.c`, `fs/minix/file_dev.c`)

A position is a number of 31 bits; a block map ends at `7+512+512*512` blocks. Processes share files, and may sleep in
every `bread`: a read goes on at the position of its file, which others may have moved.

* `sysLseek`, `look`, `answer` — the calls, from one sleep to the next; `none` is a panic of `_bmap`;
* `Fits` — what keeps a step below the end of the block map;
* `Inv`, `Inv.stepped` — what is pending for a file fits behind its position, and a write below the end;
* `offsets_safe` — **in every run of such steps no position is negative, and no such step panics.**
-/

namespace Linux095
namespace Fs
namespace FileOffsets

open Relation (ReflTransGen)
open Minix.Zones (maxBlock)

def NR_TASKS : Nat := 64

def EIO : Int := 5
def EBADF : Int := 9
def EINVAL : Int := 22
def ENOSPC : Int := 28

/-- The end of the block map, in bytes. -/
def LIMIT : Int := maxBlock * 1024

theorem limit_eq : LIMIT = 268966912 := by
  norm_num [LIMIT, maxBlock]

/-- The signed number of 32 bits. -/
def int32 (x : Int) : Int := (x + 2 ^ 31) % 2 ^ 32 - 2 ^ 31

theorem int32_eq {x : Int} (hlow : -2 ^ 31 ≤ x) (hhigh : x < 2 ^ 31) : int32 x = x := by
  unfold int32
  omega

/-! ## State -/

structure File where
  fPos : Int
  /-- `O_APPEND` is set in `f_flags`. -/
  append : Bool
  /-- `f_mode & 1`. -/
  mayRead : Bool
  /-- `f_mode & 2`. -/
  mayWrite : Bool

/-- Where a process is. -/
inductive Proc where
  /-- In none of the calls; the last of them returned `ret`. -/
  | done (ret : Int)
  /-- At the head of the loop of `minix_file_read`. -/
  | reading (file : Nat) (left read : Int)
  /-- In its `bmap` or `bread`. -/
  | fetching (file : Nat) (left read : Int)
  /-- At the head of the loop of `minix_file_write`. -/
  | writing (file : Nat) (pos written count : Int)
  /-- In its `minix_create_block` or `bread`. -/
  | storing (file : Nat) (pos written count : Int)

/-- One regular inode, the files that are open on it, and the processes. -/
structure St where
  iSize : Int
  files : Nat → File
  procs : Fin NR_TASKS → Proc

def setProc (s : St) (p : Fin NR_TASKS) (x : Proc) : St :=
  { s with procs := Function.update s.procs p x }

def setPos (s : St) (f : Nat) (pos : Int) : St :=
  { s with
    files := Function.update s.files f
      { s.files f with
        fPos := pos } }

/-! ## The calls -/

/-- `sys_lseek`. -/
def sysLseek (s : St) (f : Nat) (offset : Int) (origin : Nat) : Int × St :=
  match origin with
  | 0 => if offset < 0 then (-EINVAL, s) else (offset, setPos s f offset)
  | 1 =>
      if int32 ((s.files f).fPos + offset) < 0 then (-EINVAL, s)
      else (int32 ((s.files f).fPos + offset), setPos s f (int32 ((s.files f).fPos + offset)))
  | 2 =>
      if int32 (s.iSize + offset) < 0 then (-EINVAL, s)
      else (int32 (s.iSize + offset), setPos s f (int32 (s.iSize + offset)))
  | _ => (-EINVAL, s)

/-- Neither "_bmap: block<0" nor "_bmap: block>big". -/
def BlockOk (block : Int) : Prop := 0 ≤ block ∧ block < maxBlock

instance (block : Int) : Decidable (BlockOk block) := inferInstanceAs (Decidable (_ ∧ _))

/-- The end of `minix_file_write`. -/
def endWrite (s : St) (p : Fin NR_TASKS) (f : Nat) (pos ret : Int) : St :=
  if (s.files f).append then setProc s p (.done ret) else setProc (setPos s f pos) p (.done ret)

/-- The head of the loop, and the call of `bmap` or `minix_create_block` up to where it may sleep. -/
def look (s : St) (p : Fin NR_TASKS) : Option St :=
  match s.procs p with
  | .reading f left read =>
      if 0 < left then
        if BlockOk ((s.files f).fPos / 1024) then some (setProc s p (.fetching f left read)) else none
      else some (setProc s p (.done read))
  | .writing f pos written count =>
      if written < count then
        if BlockOk (pos.tdiv 1024) then some (setProc s p (.storing f pos written count)) else none
      else some (endWrite s p f pos written)
  | _ => some s

/-- What comes of the block: it has been read, there is none, or it cannot be read. -/
inductive Outcome where
  | block
  | noBlock
  | unreadable
  deriving DecidableEq

/-- `MIN( BLOCK_SIZE-nr , left )`. -/
def chars (fPos left : Int) : Int := min (1024 - fPos % 1024) left

/-- `c`, the bytes of the block that are written. -/
def chunk (pos written count : Int) : Int := min (1024 - pos.tmod 1024) (count - written)

/-- The rest of the turn. -/
def answer (s : St) (p : Fin NR_TASKS) (o : Outcome) : St :=
  match s.procs p with
  | .fetching f left read =>
      match o with
      | .unreadable => setProc s p (.done (if read ≠ 0 then read else - EIO))
      -- a hole reads as zeros
      | _ =>
          let n := chars (s.files f).fPos left
          setProc (setPos s f (int32 ((s.files f).fPos + n))) p (.reading f (int32 (left - n)) (int32 (read + n)))
  | .storing f pos written count =>
      match o with
      | .noBlock => endWrite s p f pos (if written = 0 then -ENOSPC else written)
      | .unreadable => endWrite s p f pos (if written = 0 then - EIO else written)
      | .block =>
          let c := chunk pos written count
          let s' := if s.iSize < int32 (pos + c) then { s with iSize := int32 (pos + c) } else s
          setProc s' p (.writing f (int32 (pos + c)) (int32 (written + c)) count)
  | _ => s

/-- The `left` that `minix_file_read` starts with. -/
def leftOf (s : St) (f : Nat) (count : Int) : Int :=
  let left := if s.iSize < (s.files f).fPos then 0 else int32 (s.iSize - (s.files f).fPos)
  if count < left then count else left

/-- The `pos` that `minix_file_write` starts with. -/
def startOf (s : St) (f : Nat) : Int := if (s.files f).append then s.iSize else (s.files f).fPos

/-- `sys_read`, up to where it may sleep. -/
def sysRead (s : St) (p : Fin NR_TASKS) (f : Nat) (count : BitVec 32) : Option St :=
  if !(s.files f).mayRead then some (setProc s p (.done (-EBADF)))
  else if count = 0 then some (setProc s p (.done 0))
  else look (setProc s p (.reading f (leftOf s f count.toInt) 0)) p

/-- `sys_write`. -/
def sysWrite (s : St) (p : Fin NR_TASKS) (f : Nat) (count : BitVec 32) : Option St :=
  if !(s.files f).mayWrite then some (setProc s p (.done (-EBADF)))
  else if count = 0 then some (setProc s p (.done 0))
  else look (setProc s p (.writing f (startOf s f) 0 count.toInt)) p

/-! ## Runs -/

inductive Act where
  | lseek (f : Nat) (offset : BitVec 32) (origin : Nat)
  /-- `F_SETFL`. -/
  | fcntl (f : Nat) (append : Bool)
  /-- `O_TRUNC`. -/
  | truncate
  | read (p : Fin NR_TASKS) (f : Nat) (count : BitVec 32)
  | write (p : Fin NR_TASKS) (f : Nat) (count : BitVec 32)
  | look (p : Fin NR_TASKS)
  | answer (p : Fin NR_TASKS) (o : Outcome)

/-- The process is in none of the calls. -/
def Idle (s : St) (p : Fin NR_TASKS) : Bool :=
  match s.procs p with
  | .done _ => true
  | _ => false

/-- One step. -/
def step (s : St) : Act → Option St
  | .lseek f offset origin => some (sysLseek s f offset.toInt origin).2
  | .fcntl f append =>
      some
        { s with
          files := Function.update s.files f
            { s.files f with
              append := append } }
  | .truncate =>
      some
        { s with
          iSize := 0 }
  | .read p f count => if Idle s p then sysRead s p f count else some s
  | .write p f count => if Idle s p then sysWrite s p f count else some s
  | .look p => look s p
  | .answer p o => some (answer s p o)

/-- What the process has still to read of the file. -/
def Proc.pending (f : Nat) : Proc → Int
  | .reading f' left _ => if f' = f then max left 0 else 0
  | .fetching f' left _ => if f' = f then max left 0 else 0
  | _ => 0

/-- What is pending for a file. -/
def pending (s : St) (f : Nat) : Int := ∑ p, (s.procs p).pending f

/-- The position leaves room for what is pending. -/
def Room (s : St) (f : Nat) (pos : Int) : Prop := 0 < pending s f → pos + pending s f ≤ LIMIT

/-- Where `sys_lseek` goes to. -/
def target (s : St) (f : Nat) (offset : Int) : Nat → Int
  | 0 => offset
  | 1 => (s.files f).fPos + offset
  | _ => s.iSize + offset

/-- **The condition on a step.** A write ends below the end of the block map. Where a position is moved under a read, or
a read begins beside others, the position leaves room for what is pending. -/
def Fits (s : St) : Act → Prop
  | .lseek f offset origin =>
      origin ≤ 2 → 0 ≤ target s f offset.toInt origin → target s f offset.toInt origin < 2 ^ 31 →
        Room s f (target s f offset.toInt origin)
  | .read p f count =>
      Idle s p = true → 0 < pending s f → 0 < leftOf s f count.toInt →
        (s.files f).fPos + (pending s f + leftOf s f count.toInt) ≤ LIMIT
  | .write p f count => Idle s p = true → 0 < count.toInt → startOf s f + count.toInt ≤ LIMIT
  | .look p =>
      match s.procs p with
      | .writing f pos written count => count ≤ written → (s.files f).append = false → Room s f pos
      | _ => True
  | .answer p o =>
      match s.procs p with
      | .storing f pos _ _ => o ≠ .block → (s.files f).append = false → Room s f pos
      | _ => True
  | _ => True

/-- A step under the condition. -/
def Moves (s s' : St) : Prop := ∃ a, Fits s a ∧ step s a = some s'

/-- Nobody is in a call, every position is 0, and the size is one that the block map allows. -/
structure Start (s : St) : Prop where
  size : 0 ≤ s.iSize ∧ s.iSize ≤ LIMIT
  pos : ∀ f, (s.files f).fPos = 0
  idle : ∀ p, Idle s p = true

/-- The position of a write. -/
def Proc.pos : Proc → Int
  | .writing _ pos _ _ => pos
  | .storing _ pos _ _ => pos
  | _ => 0

/-- No position is negative, and no step under the condition panics. -/
structure Safe (s : St) : Prop where
  size : 0 ≤ s.iSize
  file : ∀ f, 0 ≤ (s.files f).fPos
  proc : ∀ p, 0 ≤ (s.procs p).pos
  bmap : ∀ a, Fits s a → step s a ≠ none

/-! ## Updates -/

section Updates

variable (s : St) (p q : Fin NR_TASKS) (x : Proc) (f g : Nat) (pos : Int)

@[simp] theorem setProc_self : (setProc s p x).procs p = x := Function.update_self _ _ _

theorem setProc_ne (hne : q ≠ p) : (setProc s p x).procs q = s.procs q := Function.update_of_ne hne _ _

@[simp] theorem setProc_files : (setProc s p x).files = s.files := rfl

@[simp] theorem setProc_iSize : (setProc s p x).iSize = s.iSize := rfl

@[simp] theorem setPos_procs : (setPos s f pos).procs = s.procs := rfl

@[simp] theorem setPos_iSize : (setPos s f pos).iSize = s.iSize := rfl

@[simp] theorem setPos_self : ((setPos s f pos).files f).fPos = pos := by
  simp [setPos]

theorem setPos_ne (hne : g ≠ f) : (setPos s f pos).files g = s.files g := Function.update_of_ne hne _ _

@[simp] theorem pending_setPos : pending (setPos s f pos) g = pending s g := rfl

end Updates

/-! ## What is pending -/

theorem Proc.pending_nonneg (x : Proc) (f : Nat) : 0 ≤ x.pending f := by
  cases x with
  | reading f' left _ =>
      simp only [Proc.pending]
      split <;> omega
  | fetching f' left _ =>
      simp only [Proc.pending]
      split <;> omega
  | _ => exact le_rfl

theorem pending_nonneg (s : St) (f : Nat) : 0 ≤ pending s f :=
  Finset.sum_nonneg fun p _ => (s.procs p).pending_nonneg f

/-- One process of those that a file is pending for. -/
theorem pending_le (s : St) (p : Fin NR_TASKS) (f : Nat) : (s.procs p).pending f ≤ pending s f :=
  Finset.single_le_sum (f := fun q => (s.procs q).pending f) (fun q _ => (s.procs q).pending_nonneg f)
    (Finset.mem_univ p)

/-- One process changes. -/
theorem pending_setProc (s : St) (p : Fin NR_TASKS) (x : Proc) (f : Nat) :
    pending (setProc s p x) f + (s.procs p).pending f = pending s f + x.pending f := by
  have hnew := Finset.add_sum_erase Finset.univ (fun q => ((setProc s p x).procs q).pending f) (Finset.mem_univ p)
  have hold := Finset.add_sum_erase Finset.univ (fun q => (s.procs q).pending f) (Finset.mem_univ p)
  have hrest : ∑ q ∈ Finset.univ.erase p, ((setProc s p x).procs q).pending f =
      ∑ q ∈ Finset.univ.erase p, (s.procs q).pending f := by
    refine Finset.sum_congr rfl ?_
    intro q hq
    rw [setProc_ne s p q x (Finset.ne_of_mem_erase hq)]
  simp only [setProc_self] at hnew
  unfold pending
  omega

theorem pending_done (ret : Int) (f : Nat) : (Proc.done ret).pending f = 0 := rfl

/-- Nobody reads. -/
theorem pending_idle {s : St} (hidle : ∀ p, Idle s p = true) (f : Nat) : pending s f = 0 := by
  refine Finset.sum_eq_zero ?_
  intro p _
  have hp := hidle p
  unfold Idle at hp
  split at hp
  · rename_i heq
    rw [heq, pending_done]
  · simp at hp

/-! ## The invariant -/

/-- A write ends below the end of the block map. -/
def WriteOk (pos written count : Int) : Prop :=
  0 ≤ written ∧ 0 ≤ pos ∧ pos < 2 ^ 31 ∧ count < 2 ^ 31 ∧ (written < count → pos + (count - written) ≤ LIMIT)

def ProcOk : Proc → Prop
  | .done _ => True
  | .reading _ left _ => left < 2 ^ 31
  | .fetching _ left _ => 0 < left ∧ left < 2 ^ 31
  | .writing _ pos written count => WriteOk pos written count
  | .storing _ pos written count => WriteOk pos written count ∧ written < count

/-- **The invariant.** -/
structure Inv (s : St) : Prop where
  size : 0 ≤ s.iSize ∧ s.iSize ≤ LIMIT
  pos : ∀ f, 0 ≤ (s.files f).fPos ∧ (s.files f).fPos < 2 ^ 31
  room : ∀ f, Room s f (s.files f).fPos
  proc : ∀ p, ProcOk (s.procs p)

theorem Inv.start {s : St} (hs : Start s) : Inv s where
  size := hs.size
  pos := by
    intro f
    rw [hs.pos f]
    decide
  room := by
    intro f hpending
    rw [pending_idle hs.idle f] at hpending
    exact absurd hpending (lt_irrefl 0)
  proc := by
    intro p
    have hp := hs.idle p
    unfold Idle at hp
    split at hp
    · rename_i heq
      rw [heq]
      trivial
    · simp at hp

/-- A process changes and has no more to read than before. -/
theorem Inv.proc_set {s : St} (h : Inv s) {p : Fin NR_TASKS} {x : Proc} (hx : ProcOk x)
    (hle : ∀ f, x.pending f ≤ (s.procs p).pending f) : Inv (setProc s p x) where
  size := h.size
  pos := h.pos
  room := by
    intro f hpending
    have hsum := pending_setProc s p x f
    have hroom := h.room f
    have hf := hle f
    unfold Room at hroom
    rw [setProc_files]
    omega
  proc := by
    intro q
    by_cases hq : q = p
    · subst hq
      rw [setProc_self]
      exact hx
    · rw [setProc_ne s p q x hq]
      exact h.proc q

theorem Inv.done {s : St} (h : Inv s) (p : Fin NR_TASKS) (ret : Int) : Inv (setProc s p (.done ret)) :=
  h.proc_set trivial fun f => by
    rw [pending_done]
    exact (s.procs p).pending_nonneg f

/-- A position is moved. -/
theorem Inv.pos_set {s : St} (h : Inv s) {f : Nat} {pos : Int} (hlow : 0 ≤ pos) (hhigh : pos < 2 ^ 31)
    (hroom : Room s f pos) : Inv (setPos s f pos) where
  size := h.size
  pos := by
    intro g
    by_cases hg : g = f
    · subst hg
      rw [setPos_self]
      exact ⟨hlow, hhigh⟩
    · rw [setPos_ne s f g pos hg]
      exact h.pos g
  room := by
    intro g hpending
    by_cases hg : g = f
    · subst hg
      rw [setPos_self]
      exact hroom hpending
    · rw [setPos_ne s f g pos hg]
      exact h.room g hpending
  proc := h.proc

/-- The size changes. -/
theorem Inv.resized {s : St} (h : Inv s) {n : Int} (hn : 0 ≤ n ∧ n ≤ LIMIT) : Inv { s with iSize := n } where
  size := hn
  pos := h.pos
  room := h.room
  proc := h.proc

/-- The flags of a file change. -/
theorem Inv.flagged {s : St} (h : Inv s) {files : Nat → File} (hfiles : ∀ f, (files f).fPos = (s.files f).fPos) :
    Inv { s with files := files } where
  size := h.size
  pos := by
    intro f
    rw [hfiles f]
    exact h.pos f
  room := by
    intro f
    rw [hfiles f]
    exact h.room f
  proc := h.proc

/-! ## One step -/

theorem Inv.ended {s : St} (h : Inv s) (p : Fin NR_TASKS) {f : Nat} {pos : Int} (ret : Int) (hlow : 0 ≤ pos)
    (hhigh : pos < 2 ^ 31) (hroom : (s.files f).append = false → Room s f pos) : Inv (endWrite s p f pos ret) := by
  unfold endWrite
  by_cases happend : (s.files f).append = true
  · rw [if_pos happend]
    exact h.done p ret
  · rw [if_neg happend]
    exact (h.pos_set hlow hhigh (hroom (by simpa using happend))).done p ret

/-- A seek goes to its target, or nowhere. -/
theorem sysLseek_cases (s : St) (h : Inv s) (f : Nat) (offset : BitVec 32) (origin : Nat) :
    (sysLseek s f offset.toInt origin).2 = s ∨
      origin ≤ 2 ∧ 0 ≤ target s f offset.toInt origin ∧ target s f offset.toInt origin < 2 ^ 31 ∧
        (sysLseek s f offset.toInt origin).2 = setPos s f (target s f offset.toInt origin) := by
  have hsize := h.size
  have hpos := h.pos f
  have hoffset : -2 ^ 31 ≤ offset.toInt ∧ offset.toInt < 2 ^ 31 := ⟨offset.le_toInt, offset.toInt_lt⟩
  rw [limit_eq] at hsize
  -- a sum of two numbers of 31 bits that does not wrap to a negative one is what it should be
  have hsum : ∀ base, 0 ≤ base → base < 2 ^ 31 → 0 ≤ int32 (base + offset.toInt) →
      int32 (base + offset.toInt) = base + offset.toInt ∧ base + offset.toInt < 2 ^ 31 := by
    intro base hlow hhigh hnonneg
    unfold int32 at hnonneg ⊢
    omega
  match origin with
  | 0 =>
      by_cases hneg : offset.toInt < 0
      · exact Or.inl (by simp [sysLseek, hneg])
      · exact Or.inr ⟨by decide, by simpa [target] using hneg, hoffset.2, by simp [sysLseek, hneg, target]⟩
  | 1 =>
      by_cases hneg : int32 ((s.files f).fPos + offset.toInt) < 0
      · exact Or.inl (by simp [sysLseek, hneg])
      · obtain ⟨heq, hlt⟩ := hsum _ hpos.1 hpos.2 (by omega)
        rw [heq] at hneg
        exact Or.inr ⟨by decide, by simpa [target] using hneg, hlt, by simp [sysLseek, hneg, target, heq]⟩
  | 2 =>
      by_cases hneg : int32 (s.iSize + offset.toInt) < 0
      · exact Or.inl (by simp [sysLseek, hneg])
      · obtain ⟨heq, hlt⟩ := hsum _ hsize.1 (by omega) (by omega)
        rw [heq] at hneg
        exact Or.inr ⟨by decide, by simpa [target] using hneg, hlt, by simp [sysLseek, hneg, target, heq]⟩
  | origin + 3 => exact Or.inl rfl

theorem Inv.seeked {s : St} (h : Inv s) {f : Nat} {offset : BitVec 32} {origin : Nat}
    (hfits : Fits s (.lseek f offset origin)) : Inv (sysLseek s f offset.toInt origin).2 := by
  rcases sysLseek_cases s h f offset origin with heq | ⟨horigin, hlow, hhigh, heq⟩
  · rw [heq]
    exact h
  · rw [heq]
    exact h.pos_set hlow hhigh (hfits horigin hlow hhigh)

/-- A position below the limit lies in a block of the map. -/
theorem blockOk_of_lt {pos : Int} (hlow : 0 ≤ pos) (hhigh : pos < LIMIT) : BlockOk (pos / 1024) := by
  unfold LIMIT at hhigh
  constructor
  · omega
  · omega

/-- **The head of a loop**: it does not panic. -/
theorem Inv.looked {s : St} (h : Inv s) {p : Fin NR_TASKS} (hfits : Fits s (.look p)) :
    ∃ s', look s p = some s' ∧ Inv s' := by
  have hproc := h.proc p
  unfold look
  cases hp : s.procs p with
  | done ret => exact ⟨s, rfl, h⟩
  | fetching f left read => exact ⟨s, rfl, h⟩
  | storing f pos written count => exact ⟨s, rfl, h⟩
  | reading f left read =>
      rw [hp] at hproc
      by_cases hleft : 0 < left
      · -- it is pending, so that the position is below the limit
        have hroom := h.room f
        have hpending := pending_le s p f
        have hown : (s.procs p).pending f = left := by
          simp [hp, Proc.pending, le_of_lt hleft]
        have hblock : BlockOk ((s.files f).fPos / 1024) := by
          refine blockOk_of_lt (h.pos f).1 ?_
          unfold Room at hroom
          omega
        refine ⟨setProc s p (.fetching f left read), by simp only [hleft, hblock, if_true], ?_⟩
        refine h.proc_set ⟨hleft, hproc⟩ ?_
        intro g
        rw [hp]
        exact le_rfl
      · exact ⟨_, by simp only [hleft, if_false], h.done p read⟩
  | writing f pos written count =>
      rw [hp] at hproc
      simp only [Fits, hp] at hfits
      obtain ⟨hwritten, hlow, hhigh, hcount, hend⟩ := hproc
      by_cases hlt : written < count
      · have hblock : BlockOk (pos.tdiv 1024) := by
          rw [Int.tdiv_eq_ediv_of_nonneg hlow]
          exact blockOk_of_lt hlow (by have := hend hlt; omega)
        refine ⟨setProc s p (.storing f pos written count), by simp only [hlt, hblock, if_true], ?_⟩
        refine h.proc_set ⟨⟨hwritten, hlow, hhigh, hcount, hend⟩, hlt⟩ fun g => (s.procs p).pending_nonneg g
      · exact ⟨_, by simp only [hlt, if_false], h.ended p written hlow hhigh (hfits (by omega))⟩

/-- The bytes that are read lie behind the position. -/
theorem chars_bounds (fPos : Int) {left : Int} (hleft : 0 < left) :
    0 < chars fPos left ∧ chars fPos left ≤ left := by
  unfold chars
  omega

theorem chunk_bounds {pos written count : Int} (hlow : 0 ≤ pos) (hlt : written < count) :
    0 < chunk pos written count ∧ chunk pos written count ≤ count - written := by
  unfold chunk
  rw [Int.tmod_eq_emod_of_nonneg hlow]
  omega

/-- A part has been read: what is pending has moved into the position. -/
theorem Inv.copied {s : St} (h : Inv s) {p : Fin NR_TASKS} {f : Nat} {left read n : Int} (read' : Int)
    (hp : s.procs p = .fetching f left read) (hn : 0 < n) (hle : n ≤ left) :
    Inv (setProc (setPos s f (int32 ((s.files f).fPos + n))) p (.reading f (int32 (left - n)) read')) := by
  have hleft : 0 < left ∧ left < 2 ^ 31 := by
    have hproc := h.proc p
    rwa [hp] at hproc
  have hown : (s.procs p).pending f = left := by
    simp [hp, Proc.pending, le_of_lt hleft.1]
  have hpending := pending_le s p f
  have hroom := h.room f
  have hpos := h.pos f
  have hlimit := limit_eq
  unfold Room at hroom
  rw [int32_eq (x := (s.files f).fPos + n) (by omega) (by omega), int32_eq (x := left - n) (by omega) (by omega)]
  have hsum : ∀ g, pending (setProc (setPos s f ((s.files f).fPos + n)) p (.reading f (left - n) read')) g =
      if g = f then pending s f - n else pending s g := by
    intro g
    have hset := pending_setProc (setPos s f ((s.files f).fPos + n)) p (.reading f (left - n) read') g
    by_cases hg : g = f
    · subst hg
      have hrest : (Proc.reading g (left - n) read').pending g = left - n := by
        simp [Proc.pending, hle]
      rw [if_pos rfl]
      rw [hrest, pending_setPos, setPos_procs] at hset
      omega
    · have hnone : ∀ x left, (Proc.reading f left x).pending g = 0 ∧ (Proc.fetching f left x).pending g = 0 := by
        intro x left
        simp [Proc.pending, Ne.symm hg]
      rw [if_neg hg]
      rw [(hnone _ _).1, pending_setPos, setPos_procs, hp, (hnone _ _).2] at hset
      omega
  refine ⟨h.size, ?_, ?_, ?_⟩
  · intro g
    rw [setProc_files]
    by_cases hg : g = f
    · subst hg
      rw [setPos_self]
      omega
    · rw [setPos_ne s f g _ hg]
      exact h.pos g
  · intro g
    unfold Room
    rw [hsum g, setProc_files]
    by_cases hg : g = f
    · subst hg
      rw [if_pos rfl, setPos_self]
      omega
    · rw [if_neg hg, setPos_ne s f g _ hg]
      exact h.room g
  · intro q
    by_cases hq : q = p
    · subst hq
      rw [setProc_self]
      show left - n < 2 ^ 31
      omega
    · rw [setProc_ne _ p q _ hq]
      exact h.proc q

/-- A part has been written. -/
theorem Inv.stored {s : St} (h : Inv s) {p : Fin NR_TASKS} {f : Nat} {pos written count : Int}
    (hp : s.procs p = .storing f pos written count) : Inv (answer s p .block) := by
  have hproc := h.proc p
  rw [hp] at hproc
  obtain ⟨⟨hwritten, hlow, hhigh, hcount, hend⟩, hlt⟩ := hproc
  obtain ⟨hpositive, hle⟩ := chunk_bounds hlow hlt
  have hfit := hend hlt
  have hlimit := limit_eq
  have hwrite : WriteOk (pos + chunk pos written count) (written + chunk pos written count) count :=
    ⟨by omega, by omega, by omega, hcount, fun _ => by omega⟩
  simp only [answer, hp]
  rw [int32_eq (x := pos + chunk pos written count) (by omega) (by omega),
    int32_eq (x := written + chunk pos written count) (by omega) (by omega)]
  by_cases hgrows : s.iSize < pos + chunk pos written count
  · rw [if_pos hgrows]
    have hgrown : Inv { s with iSize := pos + chunk pos written count } :=
      h.resized ⟨by omega, by omega⟩
    exact hgrown.proc_set hwrite fun g => (s.procs p).pending_nonneg g
  · rw [if_neg hgrows]
    exact h.proc_set hwrite fun g => (s.procs p).pending_nonneg g

/-- **The rest of a turn.** -/
theorem Inv.answered {s : St} (h : Inv s) {p : Fin NR_TASKS} {o : Outcome} (hfits : Fits s (.answer p o)) :
    Inv (answer s p o) := by
  have hproc := h.proc p
  cases hp : s.procs p with
  | done ret => simpa only [answer, hp] using h
  | reading f left read => simpa only [answer, hp] using h
  | writing f pos written count => simpa only [answer, hp] using h
  | fetching f left read =>
      rw [hp] at hproc
      obtain ⟨hpositive, hle⟩ := chars_bounds (s.files f).fPos hproc.1
      cases o with
      | unreadable =>
          simp only [answer, hp]
          exact h.done p _
      | block =>
          simp only [answer, hp]
          exact h.copied _ hp hpositive hle
      | noBlock =>
          simp only [answer, hp]
          exact h.copied _ hp hpositive hle
  | storing f pos written count =>
      cases o with
      | block => exact h.stored hp
      | noBlock =>
          rw [hp] at hproc
          simp only [Fits, hp] at hfits
          simp only [answer, hp]
          exact h.ended p _ hproc.1.2.1 hproc.1.2.2.1 (hfits (by decide))
      | unreadable =>
          rw [hp] at hproc
          simp only [Fits, hp] at hfits
          simp only [answer, hp]
          exact h.ended p _ hproc.1.2.1 hproc.1.2.2.1 (hfits (by decide))

/-- What a read starts with lies before the end of the file. -/
theorem leftOf_bounds {s : St} (h : Inv s) (f : Nat) (count : BitVec 32) :
    leftOf s f count.toInt < 2 ^ 31 ∧
      (0 < leftOf s f count.toInt → (s.files f).fPos + leftOf s f count.toInt ≤ s.iSize) := by
  have hcount : count.toInt < 2 ^ 31 := count.toInt_lt
  have hpos := h.pos f
  have hsize := h.size
  rw [limit_eq] at hsize
  unfold leftOf int32
  dsimp only
  split <;> split <;> omega

/-- A process that is in no call has nothing to read. -/
theorem idle_pending {s : St} {p : Fin NR_TASKS} (hidle : Idle s p = true) (f : Nat) : (s.procs p).pending f = 0 := by
  unfold Idle at hidle
  split at hidle
  · rename_i heq
    rw [heq, pending_done]
  · simp at hidle

/-- A read begins. -/
theorem Inv.began {s : St} (h : Inv s) {p : Fin NR_TASKS} {f : Nat} {count : BitVec 32} (hidle : Idle s p = true)
    (hfits : Fits s (.read p f count)) : Inv (setProc s p (.reading f (leftOf s f count.toInt) 0)) := by
  obtain ⟨hlt, hend⟩ := leftOf_bounds h f count
  refine ⟨h.size, h.pos, ?_, ?_⟩
  · intro g
    have hset := pending_setProc s p (.reading f (leftOf s f count.toInt) 0) g
    have hroom := h.room g
    have hsize := h.size
    have hnonneg := pending_nonneg s g
    rw [idle_pending hidle g] at hset
    unfold Room at hroom ⊢
    rw [setProc_files]
    by_cases hg : f = g
    · subst hg
      have hfit := hfits hidle
      simp only [Proc.pending, if_true] at hset
      -- alone, the read ends at the end of the file; with others, it is the condition
      by_cases hleft : 0 < leftOf s f count.toInt
      · have hown := hend hleft
        by_cases hothers : 0 < pending s f
        · have hall := hfit hothers hleft
          omega
        · omega
      · omega
    · simp only [Proc.pending, hg, if_false] at hset
      omega
  · intro q
    by_cases hq : q = p
    · subst hq
      rw [setProc_self]
      exact hlt
    · rw [setProc_ne s p q _ hq]
      exact h.proc q

/-- A write begins. -/
theorem Inv.begun {s : St} (h : Inv s) {p : Fin NR_TASKS} {f : Nat} {count : BitVec 32} (hidle : Idle s p = true)
    (hfits : Fits s (.write p f count)) : Inv (setProc s p (.writing f (startOf s f) 0 count.toInt)) := by
  have hpos := h.pos f
  have hsize := h.size
  have hfit := hfits hidle
  have hcount : count.toInt < 2 ^ 31 := count.toInt_lt
  have hstart : 0 ≤ startOf s f ∧ startOf s f < 2 ^ 31 := by
    rw [limit_eq] at hsize
    unfold startOf
    split <;> omega
  refine h.proc_set ⟨le_rfl, hstart.1, hstart.2, hcount, fun hlt => ?_⟩ fun g => (s.procs p).pending_nonneg g
  have := hfit hlt
  omega

/-- **A step under the condition** does not panic, and keeps the invariant. -/
theorem Inv.stepped {s : St} (h : Inv s) {a : Act} (hfits : Fits s a) : ∃ s', step s a = some s' ∧ Inv s' := by
  cases a with
  | lseek f offset origin => exact ⟨_, rfl, h.seeked hfits⟩
  | fcntl f append =>
      refine ⟨_, rfl, h.flagged ?_⟩
      intro g
      by_cases hg : g = f
      · subst hg
        simp
      · simp [hg]
  | truncate => exact ⟨_, rfl, h.resized ⟨le_rfl, by rw [limit_eq]; decide⟩⟩
  | look p => exact h.looked hfits
  | answer p o => exact ⟨_, rfl, h.answered hfits⟩
  | read p f count =>
      show ∃ s', (if Idle s p then sysRead s p f count else some s) = some s' ∧ Inv s'
      unfold sysRead
      by_cases hidle : Idle s p = true
      · rw [if_pos hidle]
        by_cases hmode : (!(s.files f).mayRead) = true
        · exact ⟨_, if_pos hmode, h.done p _⟩
        · rw [if_neg hmode]
          by_cases hzero : count = 0
          · exact ⟨_, if_pos hzero, h.done p _⟩
          · rw [if_neg hzero]
            exact (h.began hidle hfits).looked (by simp [Fits])
      · exact ⟨s, if_neg hidle, h⟩
  | write p f count =>
      show ∃ s', (if Idle s p then sysWrite s p f count else some s) = some s' ∧ Inv s'
      unfold sysWrite
      by_cases hidle : Idle s p = true
      · rw [if_pos hidle]
        by_cases hmode : (!(s.files f).mayWrite) = true
        · exact ⟨_, if_pos hmode, h.done p _⟩
        · rw [if_neg hmode]
          by_cases hzero : count = 0
          · exact ⟨_, if_pos hzero, h.done p _⟩
          · rw [if_neg hzero]
            -- a write of a negative count ends at once, where its file is
            refine (h.begun hidle hfits).looked ?_
            simp only [Fits, setProc_self, setProc_files]
            intro _ happend
            have hstart : startOf s f = (s.files f).fPos := by
              simp [startOf, happend]
            have hroom := (h.begun hidle hfits).room f
            rw [hstart] at hroom ⊢
            exact hroom
      · exact ⟨s, if_neg hidle, h⟩

/-! ## A run -/

/-- **A run under the condition.** -/
theorem Inv.run {s s' : St} (h : Inv s) (hrun : ReflTransGen Moves s s') : Inv s' := by
  induction hrun with
  | refl => exact h
  | tail _ hmove ih =>
      obtain ⟨a, hfits, hstep⟩ := hmove
      obtain ⟨next, hnext, hinv⟩ := ih.stepped hfits
      rw [hstep] at hnext
      exact Option.some.inj hnext ▸ hinv

theorem Inv.safe {s : St} (h : Inv s) : Safe s where
  size := h.size.1
  file := fun f => (h.pos f).1
  proc := by
    intro p
    have hproc := h.proc p
    cases hp : s.procs p with
    | writing f pos written count =>
        rw [hp] at hproc
        exact hproc.2.1
    | storing f pos written count =>
        rw [hp] at hproc
        exact hproc.1.2.1
    | _ => exact le_rfl
  bmap := by
    intro a hfits hpanic
    obtain ⟨s', hstep, _⟩ := h.stepped hfits
    rw [hstep] at hpanic
    exact Option.some_ne_none s' hpanic

/-- **Offsets do not panic the kernel** in a run of steps that meet the condition. -/
theorem offsets_safe {s s' : St} (hs : Start s) (hrun : ReflTransGen Moves s s') : Safe s' :=
  ((Inv.start hs).run hrun).safe

/-- An empty file that is open once. -/
def emptyFile : St where
  iSize := 0
  files := fun _ =>
    { fPos := 0
      append := false
      mayRead := true
      mayWrite := true }
  procs := fun _ => .done 0

theorem emptyFile_start : Start emptyFile where
  size := ⟨le_rfl, by rw [limit_eq]; decide⟩
  pos := fun _ => rfl
  idle := fun _ => rfl

/-- The position is moved to 5. -/
theorem offsets_safe_seek : Safe (setPos emptyFile 0 5) := by
  refine offsets_safe emptyFile_start (ReflTransGen.single ⟨.lseek 0 5 0, ?_, rfl⟩)
  intro _ _ _ hpending
  rw [pending_idle emptyFile_start.idle] at hpending
  exact absurd hpending (lt_irrefl 0)

/-- The steps one after the other, whatever they are. -/
def steps (s : St) : List Act → Option St
  | [] => some s
  | a :: as => (step s a).bind fun s' => steps s' as

/-- A seek to the largest position, and a byte written there. -/
theorem write_at_largest : ¬ ∀ s, Start s → ∀ acts, steps s acts ≠ none := by
  intro hall
  refine hall emptyFile emptyFile_start [.lseek 0 0x7fffffff 0, .write ⟨0, by decide⟩ 0 1] ?_
  rfl

end FileOffsets
end Fs
end Linux095
