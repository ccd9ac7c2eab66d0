import Linux095.Fs.BufferCache
import Linux095.Fs.Minix.FindFirstZero

/-!
# `Fs.Minix.Bitmap` — allocating zones and inodes (`fs/minix/bitmap.c`)

`minix_new_block` and `minix_new_inode` search the bitmap blocks of a super block for a clear bit and set it.
Both find it with `find_first_zero(bh->b_data)` and set it with `set_bit(j,bh->b_data)`: the lvalue that the
compiled-in macro has moved in between.

* `newBlock`, `newInode` — the two functions, as threads of the buffer cache, for either macro;
* `AllocSpec` — the one bit found is set, in the block scanned, and the buffer still denotes its bytes;
* `allocBit_original` — the original macro meets it;
* `bitmap_compiledIn_never` — the compiled-in one never does.
-/

namespace Linux095
namespace Fs
namespace Minix
open X86 Coop

/-! ## The scan -/

/-- Where a scan of bitmap blocks ended: `i`, `bh`, `j`, and the kernel, whose `b_data` the macro may have
    moved. -/
structure Scan where
  i : Nat
  bh : Option Nat
  j : BitVec 32
  k : Kernel

/-- The kernel after `find_first_zero(bh->b_data)` on the buffer `bh`. -/
def Found.store (r : Found) (bh : Nat) (k : Kernel) : Kernel := ({ k with mem := r.mem }).setData bh r.addr

/-- `for (i=0 ; i<8 ; i++) if (bh=map[i]) if ((j=find_first_zero(bh->b_data))<8192) break`, with `n` blocks to
    go. `regs i` is the machine state the compiler has left before the macro. -/
def scanMaps (b : Binding) (regs : Nat → Cpu) (map : Nat → Option Nat) :
    Nat → Kernel → Option Nat → BitVec 32 → Option Scan
  | 0, k, bh, j => some ⟨8, bh, j, k⟩
  | n + 1, k, _, j =>
      match map (8 - (n + 1)) with
      | none => scanMaps b regs map n k none j
      | some bh => do
          let r ← findFirstZero b (regs (8 - (n + 1))) k.mem (k.bh bh).bData
          if r.res.slt 8192 then return ⟨8 - (n + 1), some bh, r.res, r.store bh k⟩
          else scanMaps b regs map n (r.store bh k) (some bh) r.res

/-- A bit taken: the index `i` of the bitmap block, its buffer `b`, the bit `j`, and memory around `set_bit`. -/
structure Claim where
  i : Nat
  b : Nat
  j : BitVec 32
  before : Mem
  after : Mem

/-- `set_bit(j,bh->b_data)` and `bh->b_dirt = 1`; the bit was set before in the first case. -/
def takeBit (c : Cpu) (i b : Nat) (j : BitVec 32) (k : Kernel) : Option (Option Claim × Kernel) := do
  let (old, m) ← setBit c k.mem j (k.bh b).bData
  if old then return (none, { k with mem := m })
  else return (some ⟨i, b, j, k.mem, m⟩, ({ k with mem := m }).setDirt b true)

/-- The part of `minix_new_block` that does not sleep; a bit that is set already is a panic. -/
def allocBlock (b : Binding) (regs : Nat → Cpu) (s : Nat) (k : Kernel) : Option (Option Claim × Kernel) := do
  let r ← scanMaps b regs (k.superBlock s).sZmap 8 k none 8192
  match r.bh with
  | none => return (none, r.k)
  | some bh =>
      if 8 ≤ r.i ∨ ¬ r.j.slt 8192 then return (none, r.k)
      let (claim, k1) ← takeBit (regs 8) r.i bh r.j r.k
      let claim ← claim
      return (some claim, k1)

/-- The part of `minix_new_inode` that does not sleep. -/
def allocInode (b : Binding) (regs : Nat → Cpu) (s : Nat) (k : Kernel) : Option (Option Claim × Kernel) := do
  let r ← scanMaps b regs (k.superBlock s).sImap 8 k none 8192
  match r.bh with
  | none => return (none, r.k)
  | some bh =>
      if ¬ r.j.slt 8192 ∨ ((k.superBlock s).sNinodes.setWidth 32).slt (r.j + BitVec.ofNat 32 (r.i * 8192)) then
        return (none, r.k)
      takeBit (regs 8) r.i bh r.j r.k

/-! ## The two functions -/

/-- `get_super`, from the slot `s` on. -/
def getSuperFrom (dev : Dev) : Nat → Nat → Thread Kernel (Option Nat)
  | 0, _ => .stop
  | fuel + 1, s => do
      if NR_SUPER ≤ s then return none
      if (← .reads fun k => (k.superBlock s).sDev) = dev then
        .await fun k => !(k.superBlock s).sLock
        if (← .reads fun k => (k.superBlock s).sDev) = dev then return some s
        getSuperFrom dev fuel 0
      else getSuperFrom dev fuel (s + 1)

/-- `get_super`. -/
def getSuper (fuel : Nat) (dev : Dev) : Thread Kernel (Option Nat) :=
  if dev = 0 then return none else getSuperFrom dev fuel 0

/-- `minix_new_block` from `b_dirt = 1` on: the zone of the bit, cleared. -/
def clearZone (fuel : Nat) (dev : Dev) (regs : Cpu) (s : Nat) (claim : Claim) :
    Thread Kernel (BitVec 32 × Option Claim) := do
  let sb ← .reads fun k => k.superBlock s
  let j := claim.j + BitVec.ofNat 32 (claim.i * 8192) + sb.sFirstdatazone.setWidth 32 - 1
  if (sb.sNzones.setWidth 32).sle j then return (0, some claim)
  let bh ← sysGetblk fuel dev j
  if (← .reads fun k => (k.bh bh).bCount) ≠ 1 then .stop
  else
    .attempt fun k => (clearBlock regs k.mem (k.bh bh).bData).map fun m => { k with mem := m }
    .modify fun k => (k.setUptodate bh true).setDirt bh true
    brelse (some bh)
    return (j, some claim)

/-- `minix_new_block` after `get_super`: the zone, zero when there is none, and the bit it took. -/
def takeBlock (b : Binding) (fuel : Nat) (dev : Dev) (s : Nat) (regs : Nat → Cpu) :
    Thread Kernel (BitVec 32 × Option Claim) := do
  match ← .atomic (allocBlock b regs s) with
  | none => return (0, none)
  | some claim => clearZone fuel dev (regs 9) s claim

/-- `minix_new_block`. -/
def newBlock (b : Binding) (fuel : Nat) (dev : Dev) : Thread Kernel (BitVec 32 × Option Claim) := do
  match ← getSuper fuel dev with
  | none => .stop
  | some s => takeBlock b fuel dev s (← .any (Nat → Cpu))

/-- What a new inode gets from the process that makes it. -/
structure Creator where
  euid : BitVec 16
  egid : BitVec 16
  currentTime : BitVec 32

def setInode (k : Kernel) (i : Nat) (f : Inode → Inode) : Kernel :=
  { k with inode := fun x => if x = i then f (k.inode x) else k.inode x }

/-- `minix_new_inode`: the inode and the bit it took. `get_empty_inode` and `iput` are any threads. -/
def newInode (getEmptyInode : Thread Kernel (Option Nat)) (iput : Nat → Thread Kernel Unit) (b : Binding)
    (fuel : Nat) (c : Creator) (dev : Dev) : Thread Kernel (Option Nat × Option Claim) := do
  match ← getEmptyInode with
  | none => return (none, none)
  | some inode =>
      let s ← getSuper fuel dev
      .modify fun k => setInode k inode fun x => { x with iSb := s }
      match s with
      | none =>
          iput inode
          return (none, none)
      | some s =>
          let regs ← .any (Nat → Cpu)
          match ← .atomic (allocInode b regs s) with
          | none =>
              iput inode
              return (none, none)
          | some claim =>
              .modify fun k => setInode k inode fun x =>
                { x with iCount := 1, iNlink := 1, iDev := dev, iUid := c.euid, iGid := c.egid, iDirt := true
                         iIno := (claim.j + BitVec.ofNat 32 (claim.i * 8192)).setWidth 16
                         iMtime := c.currentTime, iAtime := c.currentTime, iCtime := c.currentTime }
              return (some inode, some claim)

/-! ## What a scan does to the buffers -/

theorem repInv_store {k : Kernel} (h : RepInv k) (r : Found) (bh : Nat) : RepInv (r.store bh k) := by
  have h1 : RepInv { k with mem := r.mem } := h.congr (.of_rest rfl rfl rfl rfl)
  exact h1.setData bh r.addr

/-- A scan keeps the invariant of the buffer cache, apart from where contents are. -/
theorem scanMaps_repInv {b : Binding} {regs : Nat → Cpu} {map : Nat → Option Nat} (n : Nat) :
    ∀ {k : Kernel} {bh : Option Nat} {j : BitVec 32} {r : Scan}, scanMaps b regs map n k bh j = some r →
      RepInv k → RepInv r.k ∧ r.k.nrBuffers = k.nrBuffers := by
  induction n with
  | zero =>
      intro k bh j r h hk
      cases Option.some.inj h
      exact ⟨hk, rfl⟩
  | succ n ih =>
      intro k bh j r h hk
      rw [scanMaps] at h
      split at h
      · exact ih h hk
      · rename_i x _
        obtain ⟨f, -, h⟩ := Option.bind_eq_some_iff.mp h
        split at h
        · cases Option.some.inj h
          exact ⟨repInv_store hk f x, rfl⟩
        · have hr := ih h (repInv_store hk f x)
          exact hr

/-- The compiled-in macro only moves `b_data` forwards, by at most 1024 bytes a block, and it has moved that of
    the buffer in which a bit was found. -/
theorem scanMaps_moves {regs : Nat → Cpu} {map : Nat → Option Nat} (n : Nat) :
    ∀ {k : Kernel} {bh : Option Nat} {j : BitVec 32} {r : Scan}, ¬ j.slt 8192 →
      scanMaps .compiledIn regs map n k bh j = some r →
      (∀ x, ∃ t ≤ 1024 * n, r.k.dataOf x = k.dataOf x + BitVec.ofNat 32 t) ∧
      (r.j.slt 8192 → ∃ x t, r.bh = some x ∧ 1 ≤ t ∧ t ≤ 1024 * n ∧
        r.k.dataOf x = k.dataOf x + BitVec.ofNat 32 t) := by
  induction n with
  | zero =>
      intro k bh j r hj h
      cases Option.some.inj h
      exact ⟨fun x => ⟨0, by omega, (BitVec.add_zero _).symm⟩, fun hlt => absurd hlt hj⟩
  | succ n ih =>
      intro k bh j r hj h
      rw [scanMaps] at h
      split at h
      · obtain ⟨h1, h2⟩ := ih hj h
        refine ⟨fun x => ?_, fun hlt => ?_⟩
        · obtain ⟨t, ht, hx⟩ := h1 x
          exact ⟨t, by omega, hx⟩
        · obtain ⟨x, t, hx, ht1, ht, hd⟩ := h2 hlt
          exact ⟨x, t, hx, ht1, by omega, hd⟩
      · rename_i b _
        obtain ⟨f, v, hf, hv1, hv2, -, -, -, haddr⟩ :=
          findFirstZero_spec .compiledIn (regs (8 - (n + 1))) k.mem (k.bh b).bData
        have hstore : ∀ x, ∃ u ≤ 1024, (x = b → 1 ≤ u) ∧
            (f.store b k).dataOf x = k.dataOf x + BitVec.ofNat 32 u := by
          intro x
          rw [Found.store, Kernel.dataOf_setData]
          by_cases hx : x = b
          · exact ⟨4 * v, by omega, fun _ => by omega, by rw [if_pos hx, haddr, hx]; rfl⟩
          · exact ⟨0, by omega, fun he => absurd he hx, by rw [if_neg hx]; exact (BitVec.add_zero _).symm⟩
        rw [hf] at h
        change (if f.res.slt 8192 then some _ else scanMaps _ regs map n (f.store b k) (some b) f.res) = _ at h
        split at h
        · cases Option.some.inj h
          refine ⟨fun x => ?_, fun _ => ?_⟩
          · obtain ⟨u, hu, -, hx⟩ := hstore x
            exact ⟨u, by omega, hx⟩
          · obtain ⟨u, hu, hu1, hx⟩ := hstore b
            exact ⟨b, u, rfl, hu1 rfl, by omega, hx⟩
        · rename_i hres
          obtain ⟨h1, h2⟩ := ih hres h
          refine ⟨fun x => ?_, fun hlt => ?_⟩
          · obtain ⟨t, ht, hx⟩ := h1 x
            obtain ⟨u, hu, -, hx'⟩ := hstore x
            exact ⟨u + t, by omega, by rw [hx, hx', BitVec.add_assoc, ← BitVec.ofNat_add]⟩
          · obtain ⟨x, t, hbh, ht1, ht, hx⟩ := h2 hlt
            obtain ⟨u, hu, -, hx'⟩ := hstore x
            exact ⟨x, u + t, hbh, by omega, by omega,
              by rw [hx, hx', BitVec.add_assoc, ← BitVec.ofNat_add]⟩

/-- With the original macro a scan changes nothing, and finds the lowest clear bit of the block it ends in. -/
theorem scanMaps_original {regs : Nat → Cpu} {map : Nat → Option Nat} (n : Nat) :
    ∀ {k : Kernel} {bh : Option Nat} {j : BitVec 32} {r : Scan}, ¬ j.slt 8192 →
      scanMaps .original regs map n k bh j = some r →
      r.k.mem = k.mem ∧ r.k.dataOf = k.dataOf ∧
      (r.j.slt 8192 → ∃ x, r.bh = some x ∧ firstZero k.mem (k.dataOf x) = some r.j.toNat) := by
  induction n with
  | zero =>
      intro k bh j r hj h
      cases Option.some.inj h
      exact ⟨rfl, rfl, fun hlt => absurd hlt hj⟩
  | succ n ih =>
      intro k bh j r hj h
      rw [scanMaps] at h
      split at h
      · exact ih hj h
      · rename_i b _
        obtain ⟨f, v, hf, -, -, hmem, hfound, hfull, haddr⟩ :=
          findFirstZero_spec .original (regs (8 - (n + 1))) k.mem (k.bh b).bData
        have hsm : (f.store b k).mem = k.mem := hmem
        have hsd : (f.store b k).dataOf = k.dataOf := by
          funext x
          rw [Found.store, Kernel.dataOf_setData]
          by_cases hx : x = b
          · rw [if_pos hx, haddr, hx]
            rfl
          · rw [if_neg hx]
            rfl
        rw [hf] at h
        change (if f.res.slt 8192 then some _ else scanMaps _ regs map n (f.store b k) (some b) f.res) = _ at h
        split at h
        · rename_i hres
          cases Option.some.inj h
          refine ⟨hsm, hsd, fun _ => ⟨b, rfl, ?_⟩⟩
          cases hz : firstZero k.mem (k.bh b).bData with
          | none =>
              rw [hfull hz] at hres
              exact absurd hres (by decide)
          | some j' =>
              have hj' : j' < 8192 := (firstZero_eq_some.mp hz).1
              change firstZero k.mem (k.bh b).bData = some f.res.toNat
              rw [hz, (hfound j' hz).1, BitVec.toNat_ofNat, Nat.mod_eq_of_lt (by omega)]
        · rename_i hres
          obtain ⟨h1, h2, h3⟩ := ih hres h
          refine ⟨h1.trans hsm, h2.trans hsd, fun hlt => ?_⟩
          obtain ⟨x, hx, hz⟩ := h3 hlt
          exact ⟨x, hx, by rw [hsm, hsd] at hz; exact hz⟩

/-! ## `minix_new_block` and `minix_new_inode` -/

/-- What taking a bit is for, between the call (`k`) and the return (`k'`): the bit found is the lowest clear
    one of its block, it alone is set, and the buffer still denotes the same bytes. -/
structure AllocSpec (k k' : Kernel) (c : Claim) : Prop where
  found : firstZero c.before (k.dataOf c.b) = some c.j.toNat
  sets : ∀ i < 8192, c.after.bit (k.dataOf c.b) i = (c.before.bit (k.dataOf c.b) i || decide (i = c.j.toNat))
  others : ∀ x, 1024 ≤ (x - k.dataOf c.b).toNat → c.after x = c.before x
  same : k'.dataOf c.b = k.dataOf c.b

theorem takeBit_claim {cpu : Cpu} {i b : Nat} {j : BitVec 32} {k k' : Kernel} {c : Claim}
    (h : takeBit cpu i b j k = some (some c, k')) :
    ∃ old m, setBit cpu k.mem j (k.bh b).bData = some (old, m) ∧ c = ⟨i, b, j, k.mem, m⟩ ∧
      k' = ({ k with mem := m }).setDirt b true := by
  unfold takeBit at h
  obtain ⟨⟨old, m⟩, hset, h⟩ := Option.bind_eq_some_iff.mp h
  refine ⟨old, m, hset, ?_⟩
  cases old with
  | true => cases Option.some.inj h
  | false =>
      cases Option.some.inj h
      exact ⟨rfl, rfl⟩

/-- Both allocators take the bit in the buffer their scan ended in. -/
theorem allocBlock_claim {b : Binding} {regs : Nat → Cpu} {s : Nat} {k k' : Kernel} {c : Claim}
    (h : allocBlock b regs s k = some (some c, k')) :
    ∃ r bh, scanMaps b regs (k.superBlock s).sZmap 8 k none 8192 = some r ∧ r.bh = some bh ∧ r.j.slt 8192 ∧
      takeBit (regs 8) r.i bh r.j r.k = some (some c, k') := by
  obtain ⟨r, hscan, h⟩ := Option.bind_eq_some_iff.mp h
  cases hbh : r.bh with
  | none => simp [hbh] at h
  | some bh =>
      simp only [hbh] at h
      split at h
      · simp at h
      · rename_i hlt
        obtain ⟨⟨claim, k1⟩, htake, h⟩ := Option.bind_eq_some_iff.mp h
        obtain ⟨c1, hc1, h⟩ := Option.bind_eq_some_iff.mp h
        cases Option.some.inj h
        refine ⟨r, bh, hscan, hbh, by simp_all, ?_⟩
        rw [htake]
        exact congrArg (fun x => some (x, k1)) hc1

theorem allocInode_claim {b : Binding} {regs : Nat → Cpu} {s : Nat} {k k' : Kernel} {c : Claim}
    (h : allocInode b regs s k = some (some c, k')) :
    ∃ r bh, scanMaps b regs (k.superBlock s).sImap 8 k none 8192 = some r ∧ r.bh = some bh ∧ r.j.slt 8192 ∧
      takeBit (regs 8) r.i bh r.j r.k = some (some c, k') := by
  obtain ⟨r, hscan, h⟩ := Option.bind_eq_some_iff.mp h
  cases hbh : r.bh with
  | none => simp [hbh] at h
  | some bh =>
      simp only [hbh] at h
      split at h
      · simp at h
      · rename_i hlt
        exact ⟨r, bh, hscan, hbh, by simp_all, h⟩

/-- The bit string argument of both: a scan of at most eight blocks that found a bit, and the bit taken. -/
structure Taken (b : Binding) (k k' : Kernel) (c : Claim) : Prop where
  take : ∃ regs map r bh cpu, scanMaps b regs map 8 k none 8192 = some r ∧ r.bh = some bh ∧ r.j.slt 8192 ∧
    takeBit cpu r.i bh r.j r.k = some (some c, k')

/-- **With the original macro the bit found is the bit set.** -/
theorem allocBit_original {k k' : Kernel} {c : Claim} (h : Taken .original k k' c) : AllocSpec k k' c := by
  obtain ⟨regs, map, r, bh, cpu, hscan, hbh, hlt, htake⟩ := h.take
  obtain ⟨hmem, hdata, hfind⟩ := scanMaps_original 8 (by decide) hscan
  obtain ⟨x, hx, hz⟩ := hfind hlt
  obtain rfl : x = bh := Option.some.inj (hx.symm.trans hbh)
  obtain ⟨old, m, hset, rfl, rfl⟩ := takeBit_claim htake
  have hj : r.j.toNat < 8192 := (firstZero_eq_some.mp hz).1
  have hbd : (r.k.bh x).bData = k.dataOf x := congrFun hdata x
  have hspec := setBit_spec cpu k.mem hj (k.dataOf x)
  rw [hmem, hbd, show r.j = BitVec.ofNat 32 r.j.toNat by simp, hspec] at hset
  obtain ⟨-, rfl⟩ := Prod.mk.inj (Option.some.inj hset)
  refine ⟨?_, fun i hi => ?_, fun y hy => ?_, ?_⟩
  · rw [hmem]
    exact hz
  · rw [hmem]
    exact k.mem.bit_setBit _ hi hj
  · rw [hmem]
    exact k.mem.setBit_outside _ hj hy
  · rw [← hdata]
    exact congrFun (SameQueues.setDirt _ x true).2.data x

/-- With the compiled-in macro the buffer no longer denotes the bytes that were scanned. -/
theorem allocBit_compiledIn {k k' : Kernel} {c : Claim} (h : Taken .compiledIn k k' c) :
    k'.dataOf c.b ≠ k.dataOf c.b := by
  obtain ⟨regs, map, r, bh, cpu, hscan, hbh, hlt, htake⟩ := h.take
  obtain ⟨-, hmoved⟩ := scanMaps_moves 8 (by decide) hscan
  obtain ⟨x, t, hx, ht1, ht, hd⟩ := hmoved hlt
  obtain rfl : x = bh := Option.some.inj (hx.symm.trans hbh)
  obtain ⟨old, m, hset, rfl, rfl⟩ := takeBit_claim htake
  have hk : (({ r.k with mem := m }).setDirt x true).dataOf x = k.dataOf x + BitVec.ofNat 32 t :=
    (congrFun (SameQueues.setDirt _ x true).2.data x).trans hd
  rw [hk]
  intro he
  have hzero := congrArg BitVec.toNat (show BitVec.ofNat 32 t = 0 by simpa using he)
  rw [BitVec.toNat_ofNat, Nat.mod_eq_of_lt (by omega)] at hzero
  exact absurd hzero (by simp; omega)

theorem takeBit_repInv {cpu : Cpu} {i b : Nat} {j : BitVec 32} {k k' : Kernel} {c : Option Claim}
    (h : takeBit cpu i b j k = some (c, k')) (hk : RepInv k) : RepInv k' ∧ k'.nrBuffers = k.nrBuffers := by
  unfold takeBit at h
  obtain ⟨⟨old, m⟩, hset, h⟩ := Option.bind_eq_some_iff.mp h
  have hm : RepInv { k with mem := m } := hk.congr (.of_rest rfl rfl rfl rfl)
  cases old with
  | true =>
      cases Option.some.inj h
      exact ⟨hm, rfl⟩
  | false =>
      cases Option.some.inj h
      exact ⟨hm.congr (.setDirt _ b true), rfl⟩

/-- Which macro is compiled in decides whether taking a bit does what it is for. -/
theorem allocSpec_iff {b : Binding} {k k1 k2 k' : Kernel} {c : Claim} (hk : k1.dataOf = k.dataOf)
    (h : Taken b k1 k2 c) (hk' : k'.dataOf = k2.dataOf) : AllocSpec k k' c ↔ b = .original := by
  constructor
  · intro hspec
    cases b with
    | original => rfl
    | compiledIn => exact absurd (by rw [← hk', hk, hspec.same]) (allocBit_compiledIn h)
  · rintro rfl
    obtain ⟨found, sets, others, same⟩ := allocBit_original h
    exact ⟨hk ▸ found, hk ▸ sets, hk ▸ others, by rw [hk', same, hk]⟩

/-! ## The whole calls -/

section
variable {n : Nat} {data : Nat → Addr}

theorem getSuperFrom_ok (dev : Dev) (fuel : Nat) : ∀ s,
    (getSuperFrom dev fuel s).Ok (CacheInv n data) fun _ => True := by
  induction fuel with
  | zero => exact fun s => .stop
  | succ fuel ih =>
      intro s
      unfold getSuperFrom
      split
      · exact .pure trivial
      · refine .reads fun k _ => ?_
        split
        · refine .bind .await fun _ _ => .reads fun k _ => ?_
          split
          · exact .pure trivial
          · exact ih 0
        · exact ih (s + 1)

theorem getSuper_ok (fuel : Nat) (dev : Dev) : (getSuper fuel dev).Ok (CacheInv n data) fun _ => True := by
  unfold getSuper
  split
  · exact .pure trivial
  · exact getSuperFrom_ok dev fuel 0

theorem clearZone_ok (fuel : Nat) (dev : Dev) (regs : Cpu) (s : Nat) (c : Claim) :
    (clearZone fuel dev regs s c).Ok (CacheInv n data) fun r => r.2 = some c := by
  refine .reads fun k _ => ?_
  dsimp only
  split
  · exact .pure rfl
  · refine .bind (sysGetblk_ok fuel dev _) fun bh _ => .reads fun k _ => ?_
    split
    · exact .stop
    · refine .bind (.attempt fun k hk => ?_) fun _ _ => .bind (.modify fun k => CacheInv.sameQueues k _
        ((SameQueues.setUptodate k bh true).trans (.setDirt _ bh true))) fun _ _ =>
        .bind (brelse_ok (some bh)) fun _ _ => .pure rfl
      obtain ⟨m, hm, -⟩ := clearBlock_spec regs k.mem (k.bh bh).bData
      exact ⟨{ k with mem := m }, by rw [hm]; rfl, CacheInv.sameQueues k _ (.of_rest rfl rfl rfl rfl) hk⟩

end

section
variable {env : Kernel → Kernel → Prop} (henv : Quiet env) {n : Nat} {data : Nat → Addr} {b : Binding}
  {k k' : Kernel} {c : Claim}

/-- The invariant of the buffer cache after a bit is taken, with the contents where they are then. -/
theorem cacheInv_of_scan {regs : Nat → Cpu} {map : Nat → Option Nat} {r : Scan} {bh : Nat} {cpu : Cpu}
    (hk : CacheInv n data k) (hscan : scanMaps b regs map 8 k none 8192 = some r)
    (htake : takeBit cpu r.i bh r.j r.k = some (some c, k')) : CacheInv n k'.dataOf k' := by
  obtain ⟨hrep, hnr⟩ := scanMaps_repInv 8 hscan hk.rep
  obtain ⟨hrep', hnr'⟩ := takeBit_repInv htake hrep
  exact ⟨hrep', hnr'.trans (hnr.trans hk.nr), rfl⟩

include henv

/-- A call of `minix_new_block` that took a bit took it in one piece; afterwards no `b_data` moved. -/
theorem newBlock_taken {fuel : Nat} {dev : Dev} {zone : BitVec 32} (hk : CacheInv n data k)
    (h : Runs env (newBlock b fuel dev) k (zone, some c) k') :
    ∃ k1 k2, k1.dataOf = k.dataOf ∧ Taken b k1 k2 c ∧ k'.dataOf = k2.dataOf := by
  obtain ⟨s, k0, hsuper, h⟩ := h.bind_inv
  have hk0 := (hsuper.ok (henv n data) (getSuper_ok fuel dev) hk).1
  cases s with
  | none => exact (h.not_stop).elim
  | some s =>
      obtain ⟨regs, k0', hany, h⟩ := h.bind_inv
      have hk0' := (hany.ok (henv n data) .any hk0).1
      obtain ⟨claim, k3, hatomic, h⟩ := h.bind_inv
      obtain ⟨k1, k2, hk1, hf, hkeep⟩ := hatomic.atomic_inv (henv n data) hk0'
      cases claim with
      | none =>
          obtain ⟨-, hc⟩ := h.ret_inv (fun _ _ _ _ => trivial) (I := fun _ => True) trivial
          simp at hc
      | some claim =>
          obtain ⟨r, bh, hscan, hbh, hlt, htake⟩ := allocBlock_claim hf
          have hk3 := hkeep _ (henv n k2.dataOf) (cacheInv_of_scan hk1 hscan htake)
          obtain ⟨hk', hc⟩ := h.ok (henv n k2.dataOf) (clearZone_ok fuel dev (regs 9) s claim) hk3
          obtain rfl : c = claim := Option.some.inj hc
          exact ⟨k1, k2, hk1.data.trans hk.data.symm, ⟨_, _, r, bh, _, hscan, hbh, hlt, htake⟩, hk'.data⟩

/-- A call of `minix_new_inode` that took a bit took it in one piece; afterwards no `b_data` moved. -/
theorem newInode_taken {getEmptyInode : Thread Kernel (Option Nat)} {iput : Nat → Thread Kernel Unit}
    (hget : ∀ data, getEmptyInode.Ok (CacheInv n data) fun _ => True) {fuel : Nat} {creator : Creator} {dev : Dev}
    {inode : Option Nat} (hk : CacheInv n data k)
    (h : Runs env (newInode getEmptyInode iput b fuel creator dev) k (inode, some c) k') :
    ∃ k1 k2, k1.dataOf = k.dataOf ∧ Taken b k1 k2 c ∧ k'.dataOf = k2.dataOf := by
  have hset : ∀ data i f, (Thread.modify fun k => setInode k i f).Ok (CacheInv n data) fun _ => True :=
    fun data i f => .modify fun k => CacheInv.sameQueues k _ (.of_rest rfl rfl rfl rfl)
  obtain ⟨r, k0, hempty, h⟩ := h.bind_inv
  have hk0 := (hempty.ok (henv n data) (hget data) hk).1
  cases r with
  | none =>
      obtain ⟨-, hc⟩ := h.ret_inv (fun _ _ _ _ => trivial) (I := fun _ => True) trivial
      simp at hc
  | some i =>
      obtain ⟨s, k0', hsuper, h⟩ := h.bind_inv
      have hk0' := (hsuper.ok (henv n data) (getSuper_ok fuel dev) hk0).1
      obtain ⟨_, k0'', hmod, h⟩ := h.bind_inv
      have hk0'' := (hmod.ok (henv n data) (hset data i _) hk0').1
      -- with no super block, or no bit, there is no claim
      have hdrop : ∀ (k0 : Kernel), Runs env (do iput i; return (none, none)) k0 (inode, some c) k' → False := by
        intro k0 h
        obtain ⟨_, k0', -, h⟩ := h.bind_inv
        obtain ⟨-, hc⟩ := h.ret_inv (fun _ _ _ _ => trivial) (I := fun _ => True) trivial
        simp at hc
      cases s with
      | none => exact (hdrop _ h).elim
      | some s =>
          obtain ⟨regs, k0, hany, h⟩ := h.bind_inv
          have hk0 := (hany.ok (henv n data) .any hk0'').1
          obtain ⟨claim, k3, hatomic, h⟩ := h.bind_inv
          obtain ⟨k1, k2, hk1, hf, hkeep⟩ := hatomic.atomic_inv (henv n data) hk0
          cases claim with
          | none => exact (hdrop _ h).elim
          | some claim =>
              obtain ⟨r, bh, hscan, hbh, hlt, htake⟩ := allocInode_claim hf
              have hk3 := hkeep _ (henv n k2.dataOf) (cacheInv_of_scan hk1 hscan htake)
              obtain ⟨_, k4, hmod', h⟩ := h.bind_inv
              have hk4 := (hmod'.ok (henv n k2.dataOf) (hset k2.dataOf i _) hk3).1
              obtain ⟨hk', hc⟩ := h.ret_inv (henv n k2.dataOf) hk4
              obtain rfl : c = claim := Option.some.inj (Prod.mk.inj hc).2
              exact ⟨k1, k2, hk1.data.trans hk.data.symm, ⟨_, _, r, bh, _, hscan, hbh, hlt, htake⟩, hk'.data⟩

end

/-- **The bitmap macro that is compiled in is never equivalent to the original.** It always moves the caller's
    `bh->b_data`, so no `minix_new_block` and no `minix_new_inode` that takes a bit meets `AllocSpec`: with any
    other processes around, from any state of the kernel. -/
theorem bitmap_compiledIn_never {env : Kernel → Kernel → Prop} (henv : Quiet env) {n : Nat} {data : Nat → Addr}
    {k : Kernel} (hk : CacheInv n data k) :
    (∀ c m addr, ¬ ∃ r, findFirstZero .compiledIn c m addr = some r ∧ FindFirstZeroSpec m addr r) ∧
    (∀ fuel dev zone c k', Runs env (newBlock .compiledIn fuel dev) k (zone, some c) k' → ¬ AllocSpec k k' c) ∧
    (∀ fuel dev creator inode c k' getEmptyInode iput,
      (∀ data, Thread.Ok (CacheInv n data) (fun _ => True) getEmptyInode) →
      Runs env (newInode getEmptyInode iput .compiledIn fuel creator dev) k (inode, some c) k' →
      ¬ AllocSpec k k' c) := by
  refine ⟨?_, ?_, ?_⟩
  · rintro c m addr ⟨r, hr, hspec⟩
    obtain ⟨r', -, hr', -, -, -, hne⟩ := findFirstZero_compiledIn c m addr
    obtain rfl : r = r' := Option.some.inj (hr.symm.trans hr')
    exact hne hspec.addr
  · intro fuel dev zone c k' h hspec
    obtain ⟨k1, k2, h1, htaken, h2⟩ := newBlock_taken henv hk h
    exact absurd ((allocSpec_iff h1 htaken h2).mp hspec) (by decide)
  · intro fuel dev creator inode c k' getEmptyInode iput hget h hspec
    obtain ⟨k1, k2, h1, htaken, h2⟩ := newInode_taken henv hget hk h
    exact absurd ((allocSpec_iff h1 htaken h2).mp hspec) (by decide)

/-- A file system on device 1 whose zone map, all clear, is block 3. -/
def mounted : Kernel :=
  { cachedBlock 1 3 1 with
    superBlock := fun s => if s = 0 then
        { SuperBlock.zero with sDev := 1, sNzones := 10, sFirstdatazone := 2
                               sZmap := fun i => if i = 0 then some 0 else none }
      else .zero }

theorem mounted_inv : CacheInv 2 (cachedBlock 1 3 1).dataOf mounted := (cachedBlock_inv 1 3 1).setSuperBlock _

theorem bitmap_compiledIn_never_mounted :
    ∃ zone c k', Runs BlkDrv.Interrupt (newBlock .compiledIn 9 1) mounted (zone, some c) k' ∧
      ¬ AllocSpec mounted k' c := by
  have hruns : ((getSuper 9 1).alone mounted).bind (fun r =>
      ((takeBlock .compiledIn 9 1 0 fun _ => Cpu.zero).alone r.2).map fun r' => (r.1, r'.1.2.isSome)) =
      some (some 0, true) := by decide +kernel
  obtain ⟨⟨s, k1⟩, hsuper, hruns⟩ := Option.bind_eq_some_iff.mp hruns
  obtain ⟨⟨⟨zone, c⟩, k'⟩, htake, heq⟩ := Option.map_eq_some_iff.mp hruns
  obtain ⟨rfl, hc⟩ := Prod.mk.inj heq
  obtain ⟨c, rfl⟩ := Option.isSome_iff_exists.mp hc
  have hrun : Runs BlkDrv.Interrupt (newBlock .compiledIn 9 1) mounted (zone, some c) k' :=
    .bind (.of_alone hsuper) (.bind (.choose (fun _ => Cpu.zero) (.ret _ _)) (.of_alone htake))
  exact ⟨zone, c, k', hrun, (bitmap_compiledIn_never interrupt_quiet mounted_inv).2.1 _ _ _ _ _ hrun⟩

/-- **With the original macro every call that takes a bit meets `AllocSpec`**, whatever other processes do. -/
theorem bitmap_original_always {env : Kernel → Kernel → Prop} (henv : Quiet env) {n : Nat} {data : Nat → Addr}
    {k : Kernel} (hk : CacheInv n data k) :
    (∀ fuel dev zone c k', Runs env (newBlock .original fuel dev) k (zone, some c) k' → AllocSpec k k' c) ∧
    (∀ fuel dev creator inode c k' getEmptyInode iput,
      (∀ data, Thread.Ok (CacheInv n data) (fun _ => True) getEmptyInode) →
      Runs env (newInode getEmptyInode iput .original fuel creator dev) k (inode, some c) k' → AllocSpec k k' c) := by
  constructor
  · intro fuel dev zone c k' h
    obtain ⟨k1, k2, h1, htaken, h2⟩ := newBlock_taken henv hk h
    exact (allocSpec_iff h1 htaken h2).mpr rfl
  · intro fuel dev creator inode c k' getEmptyInode iput hget h
    obtain ⟨k1, k2, h1, htaken, h2⟩ := newInode_taken henv hget hk h
    exact (allocSpec_iff h1 htaken h2).mpr rfl

theorem bitmap_original_always_mounted :
    ∃ zone c k', Runs BlkDrv.Interrupt (newBlock .original 9 1) mounted (zone, some c) k' ∧ AllocSpec mounted k' c := by
  have hruns : ((getSuper 9 1).alone mounted).bind (fun r =>
      ((takeBlock .original 9 1 0 fun _ => Cpu.zero).alone r.2).map fun r' => (r.1, r'.1.2.isSome)) =
      some (some 0, true) := by decide +kernel
  obtain ⟨⟨s, k1⟩, hsuper, hruns⟩ := Option.bind_eq_some_iff.mp hruns
  obtain ⟨⟨⟨zone, c⟩, k'⟩, htake, heq⟩ := Option.map_eq_some_iff.mp hruns
  obtain ⟨rfl, hc⟩ := Prod.mk.inj heq
  obtain ⟨c, rfl⟩ := Option.isSome_iff_exists.mp hc
  have hrun : Runs BlkDrv.Interrupt (newBlock .original 9 1) mounted (zone, some c) k' :=
    .bind (.of_alone hsuper) (.bind (.choose (fun _ => Cpu.zero) (.ret _ _)) (.of_alone htake))
  exact ⟨zone, c, k', hrun, (bitmap_original_always interrupt_quiet mounted_inv).1 _ _ _ _ _ hrun⟩

/-! ## An empty zone map -/

/-- One zone map block, all clear, in the buffer 0 at `0x2000`. -/
def emptyMap : Kernel :=
  { bootKernel with
    superBlock := fun _ => { SuperBlock.zero with sZmap := fun i => if i = 0 then some 0 else none }
    bh := fun _ => { bootKernel.bh 0 with bData := 0x2000 } }

theorem takeBit_of_clear {cpu : Cpu} {i b : Nat} {j : BitVec 32} {k : Kernel} {m : Mem}
    (h : setBit cpu k.mem j (k.bh b).bData = some (false, m)) :
    takeBit cpu i b j k = some (some ⟨i, b, j, k.mem, m⟩, ({ k with mem := m }).setDirt b true) := by
  simp [takeBit, h]

theorem allocBlock_of_scan {b : Binding} {regs : Nat → Cpu} {s bh : Nat} {k k' : Kernel} {r : Scan} {c : Claim}
    (hscan : scanMaps b regs (k.superBlock s).sZmap 8 k none 8192 = some r) (hbh : r.bh = some bh) (hi : r.i < 8)
    (hj : r.j.slt 8192 = true) (htake : takeBit (regs 8) r.i bh r.j r.k = some (some c, k')) :
    allocBlock b regs s k = some (some c, k') := by
  unfold allocBlock
  rw [hscan]
  simp only [Option.bind_eq_bind, Option.bind_some, hbh, hj, htake, show ¬ 8 ≤ r.i by omega, not_true_eq_false,
    or_self, if_false]
  rfl

/-- Bit 0 is found, bit 32 is set, and the buffer denotes the bytes from `0x2004` on. -/
theorem newBlock_sets_wrong_bit :
    ∃ c k', allocBlock .compiledIn (fun _ => Cpu.zero) 0 emptyMap = some (some c, k') ∧ c.j = 0 ∧
      c.after.bit 0x2000 0 = false ∧ c.after.bit 0x2000 32 = true ∧ k'.dataOf 0 = 0x2004 ∧
      ¬ AllocSpec emptyMap k' c := by
  have hzero : firstZero emptyMap.mem 0x2000 = some 0 :=
    firstZero_eq_some.mpr ⟨by decide, by simp [Mem.bit, emptyMap, bootKernel], by simp⟩
  obtain ⟨⟨res, addr, mem⟩, v, hf, -, -, hmem, hfound, -, haddr⟩ :=
    findFirstZero_spec .compiledIn Cpu.zero emptyMap.mem 0x2000
  obtain ⟨hres, rfl⟩ := hfound 0 hzero
  dsimp only at hmem hres haddr
  subst hmem hres haddr
  have hset := setBit_spec Cpu.zero emptyMap.mem (j := 0) (by decide) 0x2004
  let k1 := (Found.mk 0 0x2004 emptyMap.mem).store 0 emptyMap
  let k' := ({ k1 with mem := emptyMap.mem.setBit 0x2004 0 }).setDirt 0 true
  have hrun : allocBlock .compiledIn (fun _ => Cpu.zero) 0 emptyMap =
      some (some ⟨0, 0, 0, emptyMap.mem, emptyMap.mem.setBit 0x2004 0⟩, k') := by
    have hscan : scanMaps .compiledIn (fun _ => Cpu.zero) (emptyMap.superBlock 0).sZmap 8 emptyMap none 8192 =
        some ⟨0, some 0, 0, k1⟩ := by
      rw [scanMaps]
      change (findFirstZero .compiledIn Cpu.zero emptyMap.mem 0x2000).bind _ = _
      rw [hf]
      rfl
    exact allocBlock_of_scan hscan rfl (by decide) (by decide) (takeBit_of_clear hset)
  refine ⟨_, _, hrun, rfl, ?_, ?_, rfl, fun hspec => absurd hspec.same (by decide)⟩
  · simp [Mem.bit, Mem.setBit, Mem.write, emptyMap, bootKernel]
  · simp [Mem.bit, Mem.setBit, Mem.write, emptyMap, bootKernel]

end Minix
end Fs
end Linux095
