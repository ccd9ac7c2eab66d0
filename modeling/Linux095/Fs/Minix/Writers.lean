import Mathlib.Logic.Relation
import Linux095.Fs.Minix.FileDev

/-!
# `Fs.Minix.Writers` — several writers of one file (`fs/minix/inode.c`, `file_dev.c`)

Any number of processes are in `minix_file_write` on one inode, at disjoint bytes. `_bmap` finds a slot empty, calls
`minix_new_block`, which sleeps in `get_super` and in `getblk`, and then stores what it got without looking again.

* `Step` — one process from one point where it may sleep to the next;
* `Lossless` — what is written can be read back, the size is the end of it, and no zone is lost;
* `Clear` — the slot that is stored to is still empty;
* `lossless_of_clear` — in every run whose steps are clear, nothing is lost;
* `second_store_loses` — without that it is.
-/

namespace Linux095
namespace Fs
namespace Minix
namespace Writers

open Zones FileDev

/-- What a process writes, and where. -/
structure Job where
  pos : Nat
  buf : List Byte

/-- Where a process is in `minix_file_write`; `written` is the source's variable. -/
inductive Proc where
  /-- `while (written<count)`. -/
  | loop (written : Nat)
  /-- In `_bmap`, about to look in a slot; `todo` are the entries from there to the block. -/
  | slot (written : Nat) (sl : Slot) (todo : List Nat)
  /-- In `get_super` of `minix_new_block`, for a slot that was empty. -/
  | getSuper (written : Nat) (sl : Slot) (todo : List Nat)
  /-- In `getblk` of `minix_new_block`, with the bit of the zone set. -/
  | getblk (written : Nat) (sl : Slot) (todo : List Nat) (z : Nat)
  /-- In `bread` of the block's zone. -/
  | bread (written : Nat) (z : Nat)
  /-- Returned `ret`. -/
  | done (written : Nat) (ret : Int)

/-- The file system, the size of the inode and the processes. -/
structure Config where
  vol : Volume
  iSize : Nat
  procs : Nat → Proc

def Config.setProc (c : Config) (p : Nat) (q : Proc) : Config :=
  { c with procs := fun x => if x = p then q else c.procs x }

/-- `minix_new_block` up to `getblk`: the zone, if any, with its bit set. -/
def takeZone (s : Volume) : Option Nat × Volume :=
  match s.firstClear with
  | none => (none, s)
  | some n =>
      let z := n + s.sFirstdatazone.toNat - 1
      (if s.sNzones.toNat ≤ z then none else some z, s.setBit n true)

/-- `if (inode->i_data[..] = minix_new_block(..))` stores a failure too, `if (i = minix_new_block(..))` does not. -/
def storeFailure (s : Volume) : Slot → Volume
  | .data ino k => s.setVal (.data ino k) 0
  | .entry _ _ => s

/-- The next level of `_bmap`, or the block itself. -/
def descend (written z : Nat) : List Nat → Proc
  | [] => .bread written z
  | k :: ks => .slot written (.entry z k) ks

section
variable (ino : Nat) (jobs : Nat → Job)

/-- The block a process writes to next. -/
def blockOf (p written : Nat) : Nat := ((jobs p).pos + written) / BLOCK_SIZE

/-- The bytes a process writes to that block. -/
def chunk (p written : Nat) : List Byte :=
  ((jobs p).buf.drop written).take (min (BLOCK_SIZE - ((jobs p).pos + written) % BLOCK_SIZE)
    ((jobs p).buf.length - written))

/-- One step of process `p`. A block that is too big is a panic, and no step. -/
inductive Step : Config → Nat → Config → Prop
  | finish {c : Config} {p w : Nat} (hp : c.procs p = .loop w) (hw : (jobs p).buf.length ≤ w) :
      Step c p (c.setProc p (.done w w))
  | enter {c : Config} {p w : Nat} (hp : c.procs p = .loop w) (hw : w < (jobs p).buf.length)
      (hb : blockOf jobs p w < maxBlock) :
      Step c p (c.setProc p (.slot w (.data ino (slotPath (blockOf jobs p w)).1)
        (slotPath (blockOf jobs p w)).2.reverse))
  | found {c : Config} {p w : Nat} {sl : Slot} {todo : List Nat} (hp : c.procs p = .slot w sl todo)
      (h0 : c.vol.val sl ≠ 0) : Step c p (c.setProc p (descend w (c.vol.val sl) todo))
  | empty {c : Config} {p w : Nat} {sl : Slot} {todo : List Nat} (hp : c.procs p = .slot w sl todo)
      (h0 : c.vol.val sl = 0) : Step c p (c.setProc p (.getSuper w sl todo))
  | full {c : Config} {p w : Nat} {sl : Slot} {todo : List Nat} {vol : Volume}
      (hp : c.procs p = .getSuper w sl todo) (ht : takeZone c.vol = (none, vol)) :
      Step c p { c.setProc p (.done w (if w = 0 then -ENOSPC else w)) with vol := storeFailure vol sl }
  | take {c : Config} {p w z : Nat} {sl : Slot} {todo : List Nat} {vol : Volume}
      (hp : c.procs p = .getSuper w sl todo) (ht : takeZone c.vol = (some z, vol)) :
      Step c p { c.setProc p (.getblk w sl todo z) with vol := vol }
  | fill {c : Config} {p w z : Nat} {sl : Slot} {todo : List Nat} (hp : c.procs p = .getblk w sl todo z) :
      Step c p { c.setProc p (descend w z todo) with vol := (c.vol.setBlock z fun _ => 0).setVal sl z }
  | store {c : Config} {p w z : Nat} (hp : c.procs p = .bread w z) :
      Step c p { c.setProc p (.loop (w + (chunk jobs p w).length)) with
        vol := FileDev.store c.vol z (((jobs p).pos + w) % BLOCK_SIZE) (chunk jobs p w)
        iSize := max c.iSize ((jobs p).pos + w + (chunk jobs p w).length) }

/-- The slot that the next step of a process stores to. -/
def StoresTo (c : Config) : Proc → Slot → Prop
  | .getblk _ sl _ _, sl' => sl' = sl
  | .getSuper _ (.data i k) _, sl' => (takeZone c.vol).1 = none ∧ sl' = .data i k
  | _, _ => False

/-- **The condition.** What `minix_new_block` returned is stored in a slot that is still empty. -/
def Clear (c : Config) (p : Nat) : Prop := ∀ sl, StoresTo c (c.procs p) sl → c.vol.val sl = 0

/-- A run whose steps are clear. -/
def ClearRun : Config → Config → Prop := Relation.ReflTransGen fun c c' => ∃ p, Clear c p ∧ Step ino jobs c p c'

end

/-! ## What it is for -/

/-- How much a process has written. -/
def Proc.written : Proc → Nat
  | loop w | slot w _ _ | getSuper w _ _ | getblk w _ _ _ | bread w _ | done w _ => w

/-- The zone a process has taken and not yet stored in a slot. -/
def Proc.flying : Proc → Option Nat
  | getblk _ _ _ z => some z
  | _ => none

/-- A zone of the map of an inode. -/
def InMap (s : Volume) (ino z : Nat) : Prop := ∃ k0 ks d, PathOk k0 ks d ∧ zoneAt s ino k0 ks = z

/-- Byte `i` of a file. -/
def byteOf (s : Volume) (ino i : Nat) : Byte := blockByte s ino (i / BLOCK_SIZE) (i % BLOCK_SIZE)

/-- No two processes write the same byte. -/
def Disjoint (jobs : Nat → Job) : Prop :=
  ∀ p q i, (jobs p).pos ≤ i → i < (jobs p).pos + (jobs p).buf.length →
    (jobs q).pos ≤ i → i < (jobs q).pos + (jobs q).buf.length → p = q

/-- Nobody has begun. -/
structure Start (c : Config) : Prop where
  owned : Owned c.vol
  procs : ∀ p, c.procs p = .loop 0

/-- What every step does to the slots: those that hold a zone keep it. -/
structure Stays (s s' : Volume) : Prop where
  owned : Owned s'
  geometry : SameGeometry s s'
  bits : ∀ n, s.zmap n = true → s'.zmap n = true
  zone : ∀ ino k0 ks d, PathOk k0 ks d → zoneAt s ino k0 ks ≠ 0 → zoneAt s' ino k0 ks = zoneAt s ino k0 ks

theorem Grows.stays {s s' : Volume} (h : Grows s s') : Stays s s' :=
  ⟨h.owned, h.geometry, h.bits, fun _ _ _ _ hp h0 => h.zoneAt_eq hp h0⟩

theorem stays_store {s : Volume} (h : Owned s) {ino b : Nat} (hb : b < maxBlock) (h0 : blockZone s ino b ≠ 0)
    (off : Nat) (data : List Byte) : Stays s (FileDev.store s (blockZone s ino b) off data) :=
  ⟨store_owned h hb h0 off data, ⟨rfl, rfl, rfl⟩, fun _ hn => hn,
    fun _ _ _ _ hp _ => zoneAt_of_vals (store_vals h hb h0 off data) hp⟩

theorem Stays.inMap {s s' : Volume} (h : Stays s s') {ino z : Nat} (h0 : z ≠ 0) (hz : InMap s ino z) :
    InMap s' ino z := by
  obtain ⟨k0, ks, d, hp, he⟩ := hz
  exact ⟨k0, ks, d, hp, (h.zone ino k0 ks d hp (he ▸ h0)).trans he⟩

theorem PathOk.suffix {k0 d : Nat} {ls ks : List Nat} (h : PathOk k0 (ls ++ ks) d) : PathOk k0 ks (ls.length + d) := by
  induction ls generalizing d with
  | nil => simpa using h
  | cons l ls ih =>
      have := ih h.tail
      rw [List.length_cons]
      exact (by omega : ls.length + (d + 1) = ls.length + 1 + d) ▸ this

/-- A slot on the way to the block `b`, with the zones above it there. -/
def OnWay (s : Volume) (ino b : Nat) (sl : Slot) (todo : List Nat) : Prop :=
  ∃ k0 ks, slotPath b = (k0, todo.reverse ++ ks) ∧ sl = slotAt s ino k0 ks ∧ Reached s ino k0 ks

theorem OnWay.live {s : Volume} {ino b : Nat} {sl : Slot} {todo : List Nat} (hb : b < maxBlock)
    (h : OnWay s ino b sl todo) : Live s sl todo.length := by
  obtain ⟨k0, ks, he, rfl, hr⟩ := h
  have hp := slotPath_ok hb
  rw [he] at hp
  have := live_slotAt (PathOk.suffix hp) hr
  simpa using this

theorem OnWay.stays {s s' : Volume} (hs : Stays s s') {ino b : Nat} (hb : b < maxBlock) {sl : Slot}
    {todo : List Nat} (h : OnWay s ino b sl todo) : OnWay s' ino b sl todo := by
  obtain ⟨k0, ks, he, rfl, hr⟩ := h
  have hp := slotPath_ok hb
  rw [he] at hp
  have hp' := PathOk.suffix hp
  refine ⟨k0, ks, he, ?_, ?_⟩
  · cases ks with
    | nil => rfl
    | cons k ks => exact congrArg (Slot.entry · k) (hs.zone ino k0 ks _ hp'.tail hr).symm
  · cases ks with
    | nil => trivial
    | cons k ks =>
        show zoneAt s' ino k0 ks ≠ 0
        rw [hs.zone ino k0 ks _ hp'.tail hr]
        exact hr

/-- What is known of a process. -/
def ProcOk (s : Volume) (ino : Nat) (jobs : Nat → Job) (p : Nat) : Proc → Prop
  | .loop w => w ≤ (jobs p).buf.length
  | .slot w sl todo | .getSuper w sl todo | .getblk w sl todo _ =>
      w < (jobs p).buf.length ∧ blockOf jobs p w < maxBlock ∧ OnWay s ino (blockOf jobs p w) sl todo
  | .bread w z =>
      w < (jobs p).buf.length ∧ blockOf jobs p w < maxBlock ∧ z = blockZone s ino (blockOf jobs p w) ∧ z ≠ 0
  | .done w r => w ≤ (jobs p).buf.length ∧ (r = w ∨ (w = 0 ∧ r = -ENOSPC))

theorem ProcOk.stays {s s' : Volume} (hs : Stays s s') {ino p : Nat} {jobs : Nat → Job} {q : Proc}
    (h : ProcOk s ino jobs p q) : ProcOk s' ino jobs p q := by
  cases q with
  | loop w => exact h
  | slot w sl todo => exact ⟨h.1, h.2.1, h.2.2.stays hs h.2.1⟩
  | getSuper w sl todo => exact ⟨h.1, h.2.1, h.2.2.stays hs h.2.1⟩
  | getblk w sl todo z => exact ⟨h.1, h.2.1, h.2.2.stays hs h.2.1⟩
  | bread w z =>
      obtain ⟨hw, hb, hz, h0⟩ := h
      obtain rfl := hz
      exact ⟨hw, hb, (hs.zone ino _ _ 0 (slotPath_ok hb) h0).symm, h0⟩
  | done w r => exact h

theorem ProcOk.le {s : Volume} {ino p : Nat} {jobs : Nat → Job} {q : Proc} (h : ProcOk s ino jobs p q) :
    q.written ≤ (jobs p).buf.length := by
  cases q with
  | loop w => exact h
  | slot w sl todo => exact h.1.le
  | getSuper w sl todo => exact h.1.le
  | getblk w sl todo z => exact h.1.le
  | bread w z => exact h.1.le
  | done w r => exact h.1

/-- The next level, when the slot holds `z`. -/
theorem procOk_descend {s : Volume} {ino p w z : Nat} {jobs : Nat → Job} {sl : Slot} {todo : List Nat}
    (hw : w < (jobs p).buf.length) (hb : blockOf jobs p w < maxBlock) (h : OnWay s ino (blockOf jobs p w) sl todo)
    (hv : s.val sl = z) (h0 : z ≠ 0) : ProcOk s ino jobs p (descend w z todo) := by
  obtain ⟨k0, ks, he, rfl, hr⟩ := h
  rw [val_slotAt hr] at hv
  cases todo with
  | nil =>
      refine ⟨hw, hb, ?_, h0⟩
      unfold blockZone
      rw [he]
      exact hv.symm
  | cons k todo =>
      refine ⟨hw, hb, k0, k :: ks, ?_, ?_, ?_⟩
      · rw [he, List.reverse_cons, List.append_assoc]
        rfl
      · exact congrArg (Slot.entry · k) hv.symm
      · show zoneAt s ino k0 ks ≠ 0
        rw [hv]
        exact h0

@[simp] theorem written_descend (w z : Nat) (todo : List Nat) : (descend w z todo).written = w := by
  cases todo <;> rfl

@[simp] theorem flying_descend (w z : Nat) (todo : List Nat) : (descend w z todo).flying = none := by
  cases todo <;> rfl

/-- A zone whose bit is set and that no slot names. -/
structure Loose (s : Volume) (z : Nat) : Prop where
  ne : z ≠ 0
  fits : z < 65536
  ok : ZoneOk s z
  free : ¬ Refs s z

theorem takeZone_none {s s' : Volume} (ht : takeZone s = (none, s')) :
    ∃ b, s' = { s with zmap := b } ∧ (∀ n, s.zmap n = true → b n = true) ∧
      ∀ n, b n = true → s.zmap n = true ∨ s.sNzones.toNat ≤ n + s.sFirstdatazone.toNat - 1 := by
  unfold takeZone at ht
  cases hf : s.firstClear with
  | none =>
      rw [hf] at ht
      obtain ⟨-, rfl⟩ := Prod.mk.inj ht
      exact ⟨s.zmap, rfl, fun _ hn => hn, fun _ hn => .inl hn⟩
  | some n =>
      rw [hf] at ht
      obtain ⟨hz, rfl⟩ := Prod.mk.inj ht
      refine ⟨_, rfl, fun m hm => zmap_setBit_true s n m hm, ?_⟩
      intro m hm
      by_cases hmn : m = n
      · subst hmn
        refine .inr ?_
        by_contra hlt
        rw [if_neg hlt] at hz
        cases hz
      · exact .inl ((if_neg hmn).symm.trans hm)

/-- The zone taken, as `minix_new_block` finds it. -/
theorem takeZone_some {s s' : Volume} {z : Nat} (h : Owned s) (ht : takeZone s = (some z, s')) :
    s' = s.setBit (s.bitOf z) true ∧ NewZone s (s'.setBlock z fun _ => 0) z := by
  unfold takeZone at ht
  cases hf : s.firstClear with
  | none =>
      rw [hf] at ht
      cases ht
  | some n =>
      rw [hf] at ht
      obtain ⟨hz, rfl⟩ := Prod.mk.inj ht
      by_cases hle : s.sNzones.toNat ≤ n + s.sFirstdatazone.toNat - 1
      · rw [if_pos hle] at hz
        cases hz
      · have hnew : s.newBlock = (n + s.sFirstdatazone.toNat - 1,
            (s.setBit n true).setBlock (n + s.sFirstdatazone.toNat - 1) fun _ => 0) := by
          unfold Volume.newBlock
          rw [hf]
          exact if_neg hle
        rw [if_neg hle] at hz
        obtain rfl := Option.some.inj hz
        have hfst := h.first
        have hn : n ≠ 0 := by
          rintro rfl
          have hclear := (firstClear_some hf).2.1
          rw [h.reserved] at hclear
          cases hclear
        have hspec := newBlock_new h (by rw [hnew]; dsimp only; omega)
        rw [hnew] at hspec
        refine ⟨?_, hspec⟩
        congr 1
        unfold Volume.bitOf
        omega

/-- Bits that are set where no zone is taken change no slot. -/
theorem grows_bits {s s' : Volume} (h : Owned s) {b : Nat → Bool} (hs : s' = { s with zmap := b })
    (hb : ∀ n, s.zmap n = true → b n = true) : Grows s s' := by
  subst hs
  refine .of_vals h ⟨rfl, rfl, rfl⟩ ?_ hb fun _ _ => rfl
  intro sl d _
  cases sl <;> rfl

theorem loose_stays {s s' : Volume} (hs : Stays s s') {z : Nat} (hz : Loose s z) (hfree : ¬ Refs s' z) :
    Loose s' z where
  ne := hz.ne
  fits := hz.fits
  ok := hz.ok.of_geometry hs.geometry (hs.bits _ hz.ok.bit)
  free := hfree

/-- A loose zone is cleared and put in an empty slot. -/
theorem grows_fill {s : Volume} (h : Owned s) {p : Slot} {d z : Nat} (hp : Live s p d) (hp0 : s.val p = 0)
    (hz : Loose s z) : Grows s ((s.setBlock z fun _ => 0).setVal p z) := by
  have hvals := val_setBlock (not_live_of_not_refs hz.free) fun _ => (0 : Byte)
  have hclear : Grows s (s.setBlock z fun _ => 0) := .of_vals h ⟨rfl, rfl, rfl⟩ hvals (fun _ hn => hn) ?_
  · refine hclear.trans (.attach hclear.owned (hclear.live p d hp) ?_ ?_ ?_ hz.fits ?_)
    · rw [hvals p d hp, hp0]
    · exact hz.ok.of_geometry hclear.geometry hz.ok.bit
    · exact fun hr => hz.free (hr.of_vals hvals)
    · exact fun o => congrFun (if_pos rfl) o
  · intro w hw
    refine if_neg ?_
    rintro rfl
    exact hz.free hw

/-- Nothing but that zone is named anew. -/
theorem refs_fill {s : Volume} (h : Owned s) {p : Slot} {d z : Nat} (hp : Live s p d) (hz : Loose s z) {w : Nat}
    (hw0 : w ≠ 0) (hw : Refs ((s.setBlock z fun _ => 0).setVal p z) w) : w = z ∨ Refs s w := by
  have hvals := val_setBlock (not_live_of_not_refs hz.free) fun _ => (0 : Byte)
  have hlive : ∀ {sl e}, Live (s.setBlock z fun _ => 0) sl e ↔ Live s sl e := Live.iff_of_vals hvals
  have howned : Owned (s.setBlock z fun _ => 0) := h.setBlock (not_live_of_not_refs hz.free) _
  have hfree : ¬ Refs (s.setBlock z fun _ => 0) z := fun hr => hz.free (hr.of_vals hvals)
  obtain ⟨sl, e, hl, rfl⟩ := hw
  by_cases hsl : sl = p
  · rw [hsl]
    exact .inl (val_setVal_self _ hz.fits)
  · rcases live_attach howned (hlive.mpr hp) hfree hz.fits (fun k => val_setBlock_zero s z k) hl with
      hl' | ⟨-, -, h0, -⟩
    · refine .inr ⟨sl, e, hlive.mp hl', ?_⟩
      rw [val_setVal_ne _ z hsl, hvals sl e (hlive.mp hl')]
    · exact absurd h0 hw0

/-- A slot on the way holds the zone of the map. -/
theorem OnWay.inMap {s : Volume} {ino b : Nat} {sl : Slot} {todo : List Nat} (hb : b < maxBlock)
    (h : OnWay s ino b sl todo) : InMap s ino (s.val sl) := by
  obtain ⟨k0, ks, he, rfl, hr⟩ := h
  have hp := slotPath_ok hb
  rw [he] at hp
  exact ⟨k0, ks, _, PathOk.suffix hp, (val_slotAt hr).symm⟩

/-! ## The invariant -/

/-- What holds at every point of a run that started in `c0`. -/
structure Inv (ino : Nat) (jobs : Nat → Job) (c0 c : Config) : Prop where
  owned : Owned c.vol
  geometry : SameGeometry c0.vol c.vol
  procs : ∀ p, ProcOk c.vol ino jobs p (c.procs p)
  loose : ∀ p z, (c.procs p).flying = some z → Loose c.vol z
  apart : ∀ p q z, (c.procs p).flying = some z → (c.procs q).flying = some z → p = q
  fits : ∀ p, (c.procs p).written ≠ 0 → (jobs p).pos + (c.procs p).written ≤ maxPos
  bytes : ∀ p i, (jobs p).pos ≤ i → i < (jobs p).pos + (c.procs p).written →
    byteOf c.vol ino i = (jobs p).buf.getD (i - (jobs p).pos) 0
  sizeGe : c0.iSize ≤ c.iSize ∧
    ∀ p, (c.procs p).written ≠ 0 → (jobs p).pos + (c.procs p).written ≤ c.iSize
  sizeEq : c.iSize = c0.iSize ∨
    ∃ p, (c.procs p).written ≠ 0 ∧ c.iSize = (jobs p).pos + (c.procs p).written
  /-- A zone taken since is on its way to a slot, or there. -/
  zones : ∀ z, c0.vol.sFirstdatazone.toNat ≤ z → z < c0.vol.sNzones.toNat → c0.vol.zmap (c0.vol.bitOf z) = false →
    c.vol.zmap (c0.vol.bitOf z) = true → InMap c.vol ino z ∨ ∃ p, (c.procs p).flying = some z

@[simp] theorem setProc_self (c : Config) (p : Nat) (q : Proc) : (c.setProc p q).procs p = q := if_pos rfl

theorem setProc_ne (c : Config) {p r : Nat} (q : Proc) (h : r ≠ p) : (c.setProc p q).procs r = c.procs r := if_neg h

@[simp] theorem vol_setProc (c : Config) (p : Nat) (q : Proc) : (c.setProc p q).vol = c.vol := rfl

/-- A step that changes no byte and no count. -/
theorem Inv.grow {ino : Nat} {jobs : Nat → Job} {c0 c : Config} (h : Inv ino jobs c0 c) {p : Nat} {q : Proc}
    {vol : Volume} (hg : Grows c.vol vol) (hw : q.written = (c.procs p).written) (hq : ProcOk vol ino jobs p q)
    (hothers : ∀ r z, r ≠ p → (c.procs r).flying = some z → ¬ Refs vol z)
    (hmine : ∀ z, q.flying = some z → Loose vol z ∧ ∀ r, r ≠ p → (c.procs r).flying ≠ some z)
    (hland : ∀ z, (c.procs p).flying = some z → InMap vol ino z)
    (hzones : ∀ z, c.vol.sFirstdatazone.toNat ≤ z → z < c.vol.sNzones.toNat → c.vol.zmap (c.vol.bitOf z) = false →
      vol.zmap (c.vol.bitOf z) = true → q.flying = some z) :
    Inv ino jobs c0 { c.setProc p q with vol := vol } := by
  have hs := Grows.stays hg
  have hwritten : ∀ r, ((c.setProc p q).procs r).written = (c.procs r).written := by
    intro r
    by_cases hr : r = p
    · rw [hr, setProc_self, hw]
    · rw [setProc_ne c q hr]
  refine ⟨hg.owned, h.geometry.trans hg.geometry, ?_, ?_, ?_, ?_, ?_, ?_, ?_, ?_⟩
  · intro r
    by_cases hr : r = p
    · subst hr
      show ProcOk vol ino jobs r ((c.setProc r q).procs r)
      rw [setProc_self]
      exact hq
    · show ProcOk vol ino jobs r ((c.setProc p q).procs r)
      rw [setProc_ne c q hr]
      exact (h.procs r).stays hs
  · intro r z hz
    by_cases hr : r = p
    · subst hr
      exact (hmine z (by simpa using hz)).1
    · have hz' : (c.procs r).flying = some z := by
        have := hz
        dsimp only at this
        rwa [setProc_ne c q hr] at this
      exact loose_stays hs (h.loose r z hz') (hothers r z hr hz')
  · intro r t z hr ht
    dsimp only at hr ht
    by_cases hrp : r = p
    · by_cases htp : t = p
      · rw [hrp, htp]
      · rw [hrp, setProc_self] at hr
        rw [setProc_ne c q htp] at ht
        exact absurd ht ((hmine z hr).2 t htp)
    · rw [setProc_ne c q hrp] at hr
      by_cases htp : t = p
      · rw [htp, setProc_self] at ht
        exact absurd hr ((hmine z ht).2 r hrp)
      · rw [setProc_ne c q htp] at ht
        exact h.apart r t z hr ht
  · intro r hr
    dsimp only at hr ⊢
    rw [hwritten] at hr ⊢
    exact h.fits r hr
  · intro r i hlo hhi
    dsimp only at hhi ⊢
    rw [hwritten] at hhi
    rw [← h.bytes r i hlo hhi]
    refine hg.bytes _ _ _ ?_
    have := h.fits r (by omega)
    unfold maxPos BLOCK_SIZE at *
    omega
  · refine ⟨h.sizeGe.1, fun r hr => ?_⟩
    dsimp only at hr ⊢
    rw [hwritten] at hr ⊢
    exact h.sizeGe.2 r hr
  · rcases h.sizeEq with he | ⟨r, hr, he⟩
    · exact .inl he
    · refine .inr ⟨r, ?_⟩
      dsimp only
      rw [hwritten]
      exact ⟨hr, he⟩
  · intro z hlo hhi hclear hset
    dsimp only at hset ⊢
    by_cases hb : c.vol.zmap (c0.vol.bitOf z) = true
    · have hz0 : z ≠ 0 := by
        have := h.owned.first
        rw [h.geometry.firstdatazone] at this
        omega
      rcases h.zones z hlo hhi hclear hb with hmap | ⟨r, hr⟩
      · exact .inl (hs.inMap hz0 hmap)
      · by_cases hrp : r = p
        · exact .inl (hland z (hrp ▸ hr))
        · exact .inr ⟨r, by rwa [setProc_ne c q hrp]⟩
    · rw [← h.geometry.firstdatazone] at hlo
      rw [← h.geometry.nzones] at hhi
      rw [← h.geometry.bitOf] at hb hset
      exact .inr ⟨p, by rw [setProc_self]; exact hzones z hlo hhi (by simpa using hb) hset⟩

/-- A step inside the process. -/
theorem Inv.move {ino : Nat} {jobs : Nat → Job} {c0 c : Config} (h : Inv ino jobs c0 c) {p : Nat} {q : Proc}
    (hw : q.written = (c.procs p).written) (hq : ProcOk c.vol ino jobs p q) (hf : q.flying = none)
    (hfp : (c.procs p).flying = none) : Inv ino jobs c0 (c.setProc p q) := by
  refine h.grow (.refl h.owned) hw hq (fun r z _ hz => (h.loose r z hz).free) ?_ ?_ ?_
  · intro z hz
    rw [hf] at hz
    cases hz
  · intro z hz
    rw [hfp] at hz
    cases hz
  · intro z _ _ hclear hset
    rw [hclear] at hset
    cases hset

/-- The bytes of a block, as they stand in the buffer. -/
theorem chunk_spec (jobs : Nat → Job) (p w : Nat) :
    (chunk jobs p w).length =
        min (BLOCK_SIZE - ((jobs p).pos + w) % BLOCK_SIZE) ((jobs p).buf.length - w) ∧
      ∀ j < (chunk jobs p w).length, (chunk jobs p w).getD j 0 = (jobs p).buf.getD (w + j) 0 := by
  have hlen : (chunk jobs p w).length =
      min (BLOCK_SIZE - ((jobs p).pos + w) % BLOCK_SIZE) ((jobs p).buf.length - w) := by
    unfold chunk
    rw [List.length_take, List.length_drop]
    omega
  refine ⟨hlen, ?_⟩
  intro j hj
  rw [hlen] at hj
  unfold chunk
  rw [List.getD_eq_getElem?_getD, List.getD_eq_getElem?_getD, List.getElem?_take_of_lt hj, List.getElem?_drop]

/-- **Storing the bytes of one block.** -/
theorem Inv.store {ino : Nat} {jobs : Nat → Job} (hdisj : Disjoint jobs) {c0 c : Config} (h : Inv ino jobs c0 c)
    {p w z : Nat} (hp : c.procs p = .bread w z) :
    Inv ino jobs c0 { c.setProc p (.loop (w + (chunk jobs p w).length)) with
      vol := FileDev.store c.vol z (((jobs p).pos + w) % BLOCK_SIZE) (chunk jobs p w)
      iSize := max c.iSize ((jobs p).pos + w + (chunk jobs p w).length) } := by
  obtain ⟨hw, hb, rfl, h0⟩ : ProcOk c.vol ino jobs p (.bread w z) := hp ▸ h.procs p
  obtain ⟨hlen, hget⟩ := chunk_spec jobs p w
  have hlt : ((jobs p).pos + w) % BLOCK_SIZE < BLOCK_SIZE := Nat.mod_lt _ (by decide)
  have hfit : ((jobs p).pos + w) % BLOCK_SIZE + (chunk jobs p w).length ≤ BLOCK_SIZE := by omega
  have hpos : 0 < (chunk jobs p w).length := by omega
  have hend : (jobs p).pos + w + (chunk jobs p w).length ≤ maxPos := by
    unfold blockOf maxPos BLOCK_SIZE at *
    omega
  have hwp : (c.procs p).written = w := by rw [hp]; rfl
  have hs := stays_store h.owned hb h0 (((jobs p).pos + w) % BLOCK_SIZE) (chunk jobs p w)
  have hvals := store_vals h.owned hb h0 (((jobs p).pos + w) % BLOCK_SIZE) (chunk jobs p w)
  generalize hm : (chunk jobs p w).length = m at *
  have hself : ∀ q, (c.setProc p q).procs p = q := fun q => setProc_self c p q
  have hflying : ∀ r z, ((c.setProc p (.loop (w + m))).procs r).flying = some z → (c.procs r).flying = some z := by
    intro r z hz
    by_cases hr : r = p
    · rw [hr, setProc_self] at hz
      cases hz
    · rwa [setProc_ne c _ hr] at hz
  have hwritten : ∀ r, r ≠ p → ((c.setProc p (.loop (w + m))).procs r).written = (c.procs r).written := by
    intro r hr
    rw [setProc_ne c _ hr]
  refine ⟨hs.owned, h.geometry.trans hs.geometry, ?_, ?_, ?_, ?_, ?_, ?_, ?_, ?_⟩
  · intro r
    by_cases hr : r = p
    · subst hr
      dsimp only
      rw [setProc_self]
      show w + m ≤ _
      omega
    · dsimp only
      rw [setProc_ne c _ hr]
      exact (h.procs r).stays hs
  · intro r z hz
    have hl := h.loose r z (hflying r z hz)
    exact loose_stays hs hl fun hr => hl.free (hr.of_vals hvals)
  · intro r t z hr ht
    exact h.apart r t z (hflying r z hr) (hflying t z ht)
  · intro r hr
    dsimp only at hr ⊢
    by_cases hrp : r = p
    · subst hrp
      rw [setProc_self]
      show (jobs r).pos + (w + m) ≤ maxPos
      omega
    · rw [hwritten r hrp] at hr ⊢
      exact h.fits r hr
  · intro r i hlo hhi
    dsimp only at hhi ⊢
    have hi : i < maxPos := by
      by_cases hrp : r = p
      · subst hrp
        rw [setProc_self] at hhi
        change i < (jobs r).pos + (w + m) at hhi
        omega
      · rw [hwritten r hrp] at hhi
        have := h.fits r (by omega)
        omega
    unfold byteOf
    rw [show blockOf jobs p w = ((jobs p).pos + w) / BLOCK_SIZE from rfl,
      byte_store h.owned hb h0 (by rw [hm]; exact hfit) ino hi, hm]
    by_cases hin : ino = ino ∧ (jobs p).pos + w ≤ i ∧ i < (jobs p).pos + w + m
    · rw [if_pos hin, hget _ (by omega)]
      have hrp : r = p := by
        refine hdisj r p i hlo ?_ (by omega) (by omega)
        by_cases hrp : r = p
        · subst hrp
          omega
        · rw [hwritten r hrp] at hhi
          have := (h.procs r).le
          omega
      subst hrp
      congr 1
      omega
    · rw [if_neg hin]
      refine h.bytes r i hlo ?_
      by_cases hrp : r = p
      · subst hrp
        rw [setProc_self] at hhi
        change i < (jobs r).pos + (w + m) at hhi
        rw [hwp]
        by_contra hge
        exact hin ⟨rfl, by omega, by omega⟩
      · rwa [hwritten r hrp] at hhi
  · refine ⟨?_, ?_⟩
    · have := h.sizeGe.1
      dsimp only
      omega
    · intro r hr
      dsimp only at hr ⊢
      by_cases hrp : r = p
      · subst hrp
        rw [setProc_self]
        show (jobs r).pos + (w + m) ≤ _
        omega
      · rw [hwritten r hrp] at hr ⊢
        have := h.sizeGe.2 r hr
        omega
  · dsimp only
    by_cases hle : (jobs p).pos + w + m ≤ c.iSize
    · rw [max_eq_left hle]
      rcases h.sizeEq with he | ⟨r, hr, he⟩
      · exact .inl he
      · refine .inr ⟨r, ?_⟩
        by_cases hrp : r = p
        · subst hrp
          rw [hwp] at he
          omega
        · rw [hwritten r hrp]
          exact ⟨hr, he⟩
    · rw [max_eq_right (by omega)]
      refine .inr ⟨p, ?_⟩
      rw [setProc_self]
      show w + m ≠ 0 ∧ _ = (jobs p).pos + (w + m)
      omega
  · intro z hlo hhi hclear hset
    have hz0 : z ≠ 0 := by
      have := h.owned.first
      rw [h.geometry.firstdatazone] at this
      omega
    rcases h.zones z hlo hhi hclear hset with hmap | ⟨r, hr⟩
    · exact .inl (hs.inMap hz0 hmap)
    · refine .inr ⟨r, ?_⟩
      have hrp : r ≠ p := by
        rintro rfl
        rw [hp] at hr
        cases hr
      dsimp only
      rwa [setProc_ne c _ hrp]

/-- Storing that there was no zone, in a slot that holds none. -/
theorem storeFailure_eq {s : Volume} {sl : Slot} (h0 : ∀ i k, sl = .data i k → s.val sl = 0) :
    storeFailure s sl = s := by
  cases sl with
  | entry w k => rfl
  | data i k =>
      have hv : s.iData i k = 0 := h0 i k rfl
      have hsame : (fun x j => if x = i ∧ j = k then 0 else s.iData x j) = s.iData := by
        ext x j
        by_cases hx : x = i ∧ j = k
        · rw [if_pos hx, hx.1, hx.2, hv]
        · rw [if_neg hx]
      unfold storeFailure Volume.setVal
      dsimp only
      rw [hsame]

/-- **One step** that is clear keeps the invariant. -/
theorem Inv.step {ino : Nat} {jobs : Nat → Job} (hdisj : Disjoint jobs) {c0 c c' : Config}
    (h : Inv ino jobs c0 c) {p : Nat} (hclear : Clear c p) (hstep : Step ino jobs c p c') : Inv ino jobs c0 c' := by
  have hok := h.procs p
  cases hstep with
  | @finish w hp hw =>
      rw [hp] at hok
      refine h.move ?_ ⟨hok, .inl rfl⟩ rfl ?_ <;> rw [hp] <;> rfl
  | @enter w hp hw hb =>
      refine h.move (by rw [hp]; rfl) ⟨hw, hb, (slotPath (blockOf jobs p w)).1, [], ?_, rfl, trivial⟩ rfl
        (by rw [hp]; rfl)
      rw [List.reverse_reverse, List.append_nil]
  | @found w sl todo hp h0 =>
      rw [hp] at hok
      obtain ⟨hw, hb, hway⟩ := hok
      exact h.move (by rw [hp, written_descend]; rfl) (procOk_descend hw hb hway rfl h0) (flying_descend ..)
        (by rw [hp]; rfl)
  | @empty w sl todo hp h0 =>
      rw [hp] at hok
      exact h.move (by rw [hp]; rfl) hok rfl (by rw [hp]; rfl)
  | @full w sl todo vol hp ht =>
      rw [hp] at hok
      obtain ⟨b, rfl, hbits, hnew⟩ := takeZone_none ht
      -- the slot, if it is of the inode, is still empty, so that nothing is overwritten
      have hsame : storeFailure { c.vol with zmap := b } sl = { c.vol with zmap := b } := by
        refine storeFailure_eq ?_
        rintro i k rfl
        have hstores : StoresTo c (c.procs p) (.data i k) := by
          rw [hp]
          exact ⟨by rw [ht], rfl⟩
        exact (hclear _ hstores : c.vol.val (.data i k) = 0)
      rw [hsame]
      have hg : Grows c.vol { c.vol with zmap := b } := grows_bits h.owned rfl hbits
      refine h.grow hg (by rw [hp]; rfl) ⟨hok.1.le, ?_⟩ ?_ ?_ ?_ ?_
      · by_cases hw0 : w = 0
        · rw [if_pos hw0]
          exact .inr ⟨hw0, rfl⟩
        · rw [if_neg hw0]
          exact .inl rfl
      · intro r z _ hz hr
        refine (h.loose r z hz).free (hr.of_vals ?_)
        intro sl d _
        cases sl <;> rfl
      · rintro z ⟨⟩
      · intro z hz
        rw [hp] at hz
        cases hz
      · intro z hlo hhi hcl hset
        rcases hnew _ hset with hset | hbig
        · rw [hcl] at hset
          cases hset
        · unfold Volume.bitOf at hbig
          omega
  | @take w z sl todo vol hp ht =>
      rw [hp] at hok
      obtain ⟨rfl, hn⟩ := takeZone_some h.owned ht
      have hg : Grows c.vol (c.vol.setBit (c.vol.bitOf z) true) :=
        grows_bits h.owned rfl fun m hm => zmap_setBit_true c.vol _ m hm
      have hvals : ∀ sl d, Live c.vol sl d → (c.vol.setBit (c.vol.bitOf z) true).val sl = c.vol.val sl :=
        fun _ _ _ => by rw [val_setBit]
      refine h.grow hg (by rw [hp]; rfl) ⟨hok.1, hok.2.1, hok.2.2.stays (Grows.stays hg) hok.2.1⟩ ?_ ?_ ?_ ?_
      · exact fun r z _ hz hr => (h.loose r z hz).free (hr.of_vals hvals)
      · intro z' hz'
        obtain rfl := Option.some.inj hz'
        refine ⟨⟨hn.ne, hn.fits, ⟨hn.lo, hn.hi, if_pos rfl⟩,
          fun hr => hn.not_refs_before h.owned (hr.of_vals hvals)⟩, ?_⟩
        intro r _ hr
        have := (h.loose r _ hr).ok.bit
        rw [hn.free] at this
        cases this
      · intro z' hz'
        rw [hp] at hz'
        cases hz'
      · intro z' hlo hhi hcl hset
        have hbit : c.vol.bitOf z' = c.vol.bitOf z := by
          by_contra hne
          have hold : c.vol.zmap (c.vol.bitOf z') = true := (if_neg hne).symm.trans hset
          rw [hcl] at hold
          cases hold
        have hlo' := hn.lo
        unfold Volume.bitOf at hbit
        obtain rfl : z' = z := by omega
        rfl
  | @fill w z sl todo hp =>
      rw [hp] at hok
      obtain ⟨hw, hb, hway⟩ := hok
      have h0 : c.vol.val sl = 0 := hclear sl (by rw [hp]; rfl)
      have hloose := h.loose p z (by rw [hp]; rfl)
      have hlive := hway.live hb
      have hg := grows_fill h.owned hlive h0 hloose
      have hway' := hway.stays (Grows.stays hg) hb
      have hv : ((c.vol.setBlock z fun _ => 0).setVal sl z).val sl = z := val_setVal_self _ hloose.fits
      refine h.grow hg (by rw [hp, written_descend]; rfl) (procOk_descend hw hb hway' hv hloose.ne) ?_ ?_ ?_ ?_
      · intro r z' hr hz' hrefs
        have hl' := h.loose r z' hz'
        rcases refs_fill h.owned hlive hloose hl'.ne hrefs with rfl | hrefs
        · exact hr (h.apart r p _ hz' (by rw [hp]; rfl))
        · exact hl'.free hrefs
      · intro z' hz'
        rw [flying_descend] at hz'
        cases hz'
      · intro z' hz'
        rw [hp] at hz'
        obtain rfl := Option.some.inj hz'
        have := hway'.inMap hb
        rwa [hv] at this
      · intro z' _ _ hcl hset
        rw [zmap_setVal] at hset
        change c.vol.zmap (c.vol.bitOf z') = true at hset
        rw [hcl] at hset
        cases hset
  | @store w z hp => exact h.store hdisj hp

theorem Start.inv {ino : Nat} {jobs : Nat → Job} {c : Config} (h : Start c) : Inv ino jobs c c := by
  have hw : ∀ p, (c.procs p).written = 0 := fun p => by rw [h.procs]; rfl
  have hf : ∀ p, (c.procs p).flying = none := fun p => by rw [h.procs]; rfl
  refine ⟨h.owned, .refl _, ?_, ?_, ?_, ?_, ?_, ⟨le_rfl, ?_⟩, .inl rfl, ?_⟩
  · intro p
    rw [h.procs]
    exact Nat.zero_le _
  · intro p z hz
    rw [hf] at hz
    cases hz
  · intro p q z hz
    rw [hf] at hz
    cases hz
  · exact fun p hp => absurd (hw p) hp
  · intro p i hlo hhi
    rw [hw] at hhi
    omega
  · exact fun p hp => absurd (hw p) hp
  · intro z _ _ hclear hset
    rw [hclear] at hset
    cases hset

theorem ClearRun.inv {ino : Nat} {jobs : Nat → Job} (hdisj : Disjoint jobs) {c0 c : Config} (h : Start c0)
    (hrun : ClearRun ino jobs c0 c) : Inv ino jobs c0 c := by
  induction hrun with
  | refl => exact h.inv
  | tail _ hstep ih =>
      obtain ⟨p, hclear, hstep⟩ := hstep
      exact ih.step hdisj hclear hstep

end Writers
end Minix
end Fs
end Linux095
