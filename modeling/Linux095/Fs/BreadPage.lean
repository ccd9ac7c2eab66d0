import Linux095.Fs.BufferCache
import Linux095.X86.Lemmas

/-!
# `Fs.BreadPage` — reading a page of four blocks (`fs/buffer.c`)

`bread_page` starts the reads of up to four blocks and then copies each to its quarter of a page with
`COPYBLK`, an `asm` block. The two versions of the macro run the same instructions; the compiled-in one binds
`"+S" (from)` and `"+D" (to)`, and so also advances the caller's lvalues `bh[i]->b_data` and `address`.

* `breadPage` — the function, as a thread of the buffer cache that logs what it does to each quarter;
* `BreadPageSpec` — block `i` is copied to `address + 1024 * i`, and no `b_data` moves;
* `breadPage_spec_iff` — with the compiled-in one a call meets it only when it has nothing to read.
-/

namespace Linux095
namespace Fs
open X86 Coop BlkDrv

/-! ## `COPYBLK` -/

/-- How the operands `from` and `to` of `COPYBLK` are bound. -/
inductive CopyBinding where
  /-- `"S" (from), "D" (to)`. -/
  | original
  /-- `"+S" (from), "+D" (to)`, in the `#else` branch, which is the one compiled. -/
  | compiledIn
  deriving DecidableEq, Repr

def copyBlkAsm : List Instr := [ .cld, .repMovsl ]

/-- A block copied: from the buffer `bh`, between two addresses, with memory before and after. -/
structure Copy where
  bh : Nat
  src : Addr
  dst : Addr
  before : Mem
  after : Mem

/-- `COPYBLK((unsigned long) bh->b_data,address)`, entered from the machine state `c`: what it copied, and the
    caller's `address` afterwards. -/
def copyBlk (b : CopyBinding) (c : Cpu) (bh : Nat) (address : Addr) (k : Kernel) :
    Option ((Copy × Addr) × Kernel) := do
  let src := (k.bh bh).bData
  let c' ← run copyBlkAsm 2 0 ((((c.set .ecx 256).set .esi src).set .edi address).setMem k.mem)
  let k1 := { k with mem := c'.mem }
  let copy := Copy.mk bh src address k.mem c'.mem
  return match b with
    | .original => ((copy, address), k1)
    | .compiledIn => ((copy, c'.reg .edi), k1.setData bh (c'.reg .esi))

/-! ## `bread_page` -/

/-- What a call did about one quarter of the page: the buffer it acquired, the copy it made, and the buffers
    it released. -/
structure Quarter where
  bh : Option Nat
  copy : Option Copy
  released : List Nat

/-- The first loop of `bread_page`. -/
def startReads (fuel : Nat) (dev : Dev) : List Block → Thread Kernel (List (Option Nat))
  | [] => return []
  | b :: bs => do
      if b = 0 then return none :: (← startReads fuel dev bs)
      let bh ← sysGetblk fuel dev b
      if !(← .reads fun k => (k.bh bh).bUptodate) then llRwBlock fuel .read bh
      return some bh :: (← startReads fuel dev bs)

/-- The second loop of `bread_page`, with `address` as the passes so far have left it. -/
def copyQuarters (b : CopyBinding) (c : Cpu) : List (Option Nat) → Addr → Thread Kernel (List Quarter)
  | [], _ => return []
  | none :: bhs, address => do return ⟨none, none, []⟩ :: (← copyQuarters b c bhs (address + 1024))
  | some bh :: bhs, address => do
      waitOnBuffer bh
      if ← .reads fun k => (k.bh bh).bUptodate then
        let (copy, address) ← .atomic (copyBlk b c bh address)
        brelse (some bh)
        return ⟨some bh, some copy, [bh]⟩ :: (← copyQuarters b c bhs (address + 1024))
      else
        brelse (some bh)
        return ⟨some bh, none, [bh]⟩ :: (← copyQuarters b c bhs (address + 1024))

/-- `bread_page`, for the four block numbers of `b`. -/
def breadPage (bnd : CopyBinding) (fuel : Nat) (address : Addr) (dev : Dev) (b : Fin 4 → Block) :
    Thread Kernel (List Quarter) := do
  let bhs ← startReads fuel dev (List.ofFn b)
  copyQuarters bnd (← .any Cpu) bhs address

/-! ## What it is for -/

/-- A copy moved the 1024 bytes at `src` to `dst`, and nothing else. -/
structure Copied (c : Copy) (src dst : Addr) : Prop where
  moved : ∀ d < 1024, c.after (dst + BitVec.ofNat 32 d) = c.before (src + BitVec.ofNat 32 d)
  others : ∀ x, 1024 ≤ (x - dst).toNat → c.after x = c.before x

/-- One quarter, at `dst`: a zero block number leaves it alone; otherwise the block of a buffer is copied there
    and the buffer released once. -/
def QuarterSpec (k : Kernel) (block : Block) (dst : Addr) (q : Quarter) : Prop :=
  if block = 0 then q = ⟨none, none, []⟩
  else ∃ bh c, q = ⟨some bh, some c, [bh]⟩ ∧ c.bh = bh ∧ Copied c (k.dataOf bh) dst

/-- What `bread_page` is for, between the call (`k`) and the return (`k'`). -/
structure BreadPageSpec (k k' : Kernel) (address : Addr) (b : Fin 4 → Block) (log : List Quarter) : Prop where
  quarters : ∀ i : Fin 4, ∃ q, log[(i : Nat)]? = some q ∧
    QuarterSpec k (b i) (address + BitVec.ofNat 32 (1024 * i)) q
  length : log.length = 4
  data : k'.dataOf = k.dataOf

/-- Every buffer that was acquired ended up to date, and so was copied. -/
def AllUptodate (log : List Quarter) : Prop := ∀ q ∈ log, q.bh.isSome → q.copy.isSome

/-! ## One copy -/

/-- `COPYBLK` as a whole: the pointers it leaves. -/
theorem copyBlk_run (c : Cpu) (m : Mem) (src dst : Addr) :
    ∃ c', run copyBlkAsm 2 0 ((((c.set .ecx 256).set .esi src).set .edi dst).setMem m) = some c' ∧
      c'.reg .esi = src + 1024 ∧ c'.reg .edi = dst + 1024 := by
  let c1 := Instr.exec .cld ((((c.set .ecx 256).set .esi src).set .edi dst).setMem m)
  have hdf : c1.df = false := rfl
  obtain ⟨hedi, hesi⟩ := movslLoop_reg (n := 256) hdf
  refine ⟨movslLoop 256 c1, ?_, hesi, hedi⟩
  rw [copyBlkAsm, run_step (i := .cld) rfl, run_step (i := .repMovsl) rfl]
  rfl

section
variable {n : Nat} {data : Nat → Addr} {k k' : Kernel} {c : Cpu} {bh : Nat} {address address' : Addr} {copy : Copy}

/-- The compiled-in macro moves `b_data`, and `address`. -/
theorem copyBlk_compiledIn (hk : CacheInv n data k)
    (h : copyBlk .compiledIn c bh address k = some ((copy, address'), k')) :
    CacheInv n (fun x => if x = bh then data bh + 1024 else data x) k' ∧ address' = address + 1024 := by
  obtain ⟨c', hrun, hesi, hedi⟩ := copyBlk_run c k.mem (k.bh bh).bData address
  rw [copyBlk, hrun] at h
  cases Option.some.inj h
  have hk1 : CacheInv n data { k with mem := c'.mem } := CacheInv.sameQueues k _ (.of_rest rfl rfl rfl rfl) hk
  refine ⟨⟨hk1.rep.setData bh _, hk.nr, ?_⟩, hedi⟩
  funext x
  rw [← hk.data, Kernel.dataOf_setData, hesi]
  rfl

end

/-! ## The two loops -/

/-- What the first loop makes of a block number. -/
def Started (n : Nat) (b : Block) (r : Option Nat) : Prop :=
  if b = 0 then r = none else ∃ bh < n, r = some bh

theorem startReads_ok {n : Nat} {data : Nat → Addr} (fuel : Nat) (dev : Dev) (bs : List Block) :
    (startReads fuel dev bs).Ok (CacheInv n data) fun bhs => List.Forall₂ (Started n) bs bhs := by
  induction bs with
  | nil => exact .pure .nil
  | cons b bs ih =>
      unfold startReads
      split
      · rename_i hb
        exact .bind ih fun bhs hbhs => .pure (.cons (by simp [Started, hb]) hbhs)
      · rename_i hb
        refine .bind (sysGetblk_ok fuel dev b) fun bh hbh => .reads fun k _ => ?_
        have hrest : (do return some bh :: (← startReads fuel dev bs)).Ok (CacheInv n data)
            fun bhs => List.Forall₂ (Started n) (b :: bs) bhs :=
          .bind ih fun bhs hbhs => .pure (.cons (by rw [Started, if_neg hb]; exact ⟨bh, hbh, rfl⟩) hbhs)
        split
        · exact .bind (llRwBlock_ok CacheInv.sameQueues fuel .read bh) fun _ _ => hrest
        · exact hrest

private theorem advance_quarter (x : Addr) (t : Nat) :
    x + BitVec.ofNat 32 (1024 * (t + 1)) = x + 1024 + BitVec.ofNat 32 (1024 * t) := by
  bv_omega

private theorem quarter_moved {x : Addr} {t : Nat} (h0 : 0 < t) (h4 : t ≤ 4) :
    x + BitVec.ofNat 32 (1024 * t) ≠ x := by
  bv_omega

section
variable {env : Kernel → Kernel → Prop} (henv : Quiet env) {n : Nat} {c : Cpu}
include henv

/-- One pass of the second loop over a buffer: it is copied or not, and released either way. -/
theorem copyQuarters_some {b : CopyBinding} {data : Nat → Addr} {bh : Nat} {bhs : List (Option Nat)}
    {address : Addr} {k k' : Kernel} {log : List Quarter} (hk : CacheInv n data k)
    (h : Runs env (copyQuarters b c (some bh :: bhs) address) k log k') :
    (∃ k1 log', CacheInv n data k1 ∧ Runs env (copyQuarters b c bhs (address + 1024)) k1 log' k' ∧
      log = ⟨some bh, none, [bh]⟩ :: log') ∨
    ∃ k1 k2 k3 copy address' log', CacheInv n data k1 ∧ copyBlk b c bh address k1 = some ((copy, address'), k2) ∧
      (∀ data, CacheInv n data k2 → CacheInv n data k3) ∧
      Runs env (copyQuarters b c bhs (address' + 1024)) k3 log' k' ∧
      log = ⟨some bh, some copy, [bh]⟩ :: log' := by
  obtain ⟨_, k1, hwait, h⟩ := h.bind_inv
  have hk1 := (hwait.ok (henv n data) (waitOnBuffer_ok bh) hk).1
  obtain ⟨up, k2, hup, h⟩ := h.bind_inv
  have hk2 := (hup.ok (Q := fun _ => True) (henv n data) (fun k hk => ⟨hk, trivial⟩) hk1).1
  cases up with
  | false =>
      left
      obtain ⟨_, k3, hrel, h⟩ := h.bind_inv
      have hk3 := (hrel.ok (henv n data) (brelse_ok (some bh)) hk2).1
      obtain ⟨log', hrest, rfl⟩ := h.map_inv
      exact ⟨k3, log', hk3, hrest, rfl⟩
  | true =>
      right
      obtain ⟨⟨copy, address'⟩, k3, hcopy, h⟩ := h.bind_inv
      obtain ⟨ka, kb, hka, hrun, hleft⟩ := hcopy.atomic_inv (henv n data) hk2
      obtain ⟨_, k4, hrel, h⟩ := h.bind_inv
      obtain ⟨log', hrest, rfl⟩ := h.map_inv
      refine ⟨ka, kb, k4, copy, address', log', hka, hrun, fun data hd => ?_, hrest, rfl⟩
      exact (hrel.ok (henv n data) (brelse_ok (some bh)) (hleft _ (henv n data) hd)).1

/-- With the compiled-in macro every copy moves a `b_data`. -/
theorem copyQuarters_compiledIn (bhs : List (Option Nat)) :
    ∀ (data : Nat → Addr) (address : Addr) (k k' : Kernel) (log : List Quarter), CacheInv n data k →
    Runs env (copyQuarters .compiledIn c bhs address) k log k' →
    ∃ t : Nat → Nat, CacheInv n (fun x => data x + BitVec.ofNat 32 (1024 * t x)) k' ∧ (∀ x, t x ≤ bhs.length) ∧
      ∀ q ∈ log, q.copy.isSome → ∃ x, 0 < t x := by
  induction bhs with
  | nil =>
      intro data address k k' log hk h
      obtain ⟨hk', rfl⟩ := Runs.ret_inv (henv n data) h hk
      exact ⟨fun _ => 0, by simpa using hk', by simp, by simp⟩
  | cons r bhs ih =>
      intro data address k k' log hk h
      cases r with
      | none =>
          obtain ⟨log', hrun, rfl⟩ := h.map_inv
          obtain ⟨t, hk', ht, hmoved⟩ := ih data _ k k' log' hk hrun
          exact ⟨t, hk', fun x => (ht x).trans (Nat.le_succ _), by simpa using hmoved⟩
      | some bh =>
          rcases copyQuarters_some henv hk h with ⟨k1, log', hk1, hrun, rfl⟩ |
            ⟨k1, k2, k3, copy, address', log', hk1, hcopy, hleft, hrun, rfl⟩
          · obtain ⟨t, hk', ht, hmoved⟩ := ih data _ k1 k' log' hk1 hrun
            exact ⟨t, hk', fun x => (ht x).trans (Nat.le_succ _), by simpa using hmoved⟩
          · obtain ⟨hk2, -⟩ := copyBlk_compiledIn hk1 hcopy
            obtain ⟨t, hk', ht, -⟩ := ih _ _ k3 k' log' (hleft _ hk2) hrun
            refine ⟨fun x => if x = bh then t x + 1 else t x, ?_, fun x => ?_, fun _ _ _ => ⟨bh, by simp⟩⟩
            · have hmove : (fun x => data x + BitVec.ofNat 32 (1024 * if x = bh then t x + 1 else t x)) =
                  fun x => (if x = bh then data bh + 1024 else data x) + BitVec.ofNat 32 (1024 * t x) := by
                funext x
                split
                · rename_i hx
                  rw [hx, advance_quarter]
                · rfl
              rw [hmove]
              exact hk'
            · have := ht x
              dsimp only [List.length_cons]
              split <;> omega

/-- Without a buffer there is nothing to do, with either macro. -/
theorem copyQuarters_none {b : CopyBinding} {data : Nat → Addr} (bhs : List (Option Nat)) :
    ∀ (address : Addr) (k k' : Kernel) (log : List Quarter), (∀ r ∈ bhs, r = none) → CacheInv n data k →
    Runs env (copyQuarters b c bhs address) k log k' →
    CacheInv n data k' ∧ log = List.replicate bhs.length ⟨none, none, []⟩ := by
  induction bhs with
  | nil => exact fun address k k' log _ hk h => Runs.ret_inv (henv n data) h hk
  | cons r bhs ih =>
      intro address k k' log hall hk h
      obtain rfl := hall r (.head _)
      obtain ⟨log', hrun, rfl⟩ := h.map_inv
      obtain ⟨hk', rfl⟩ := ih _ k k' log' (fun r hr => hall r (.tail _ hr)) hk hrun
      exact ⟨hk', rfl⟩

end

/-! ## `bread_page` as a whole -/

section
variable {env : Kernel → Kernel → Prop} (henv : Quiet env) {n : Nat} {data : Nat → Addr} {k k' : Kernel}
  {fuel : Nat} {address : Addr} {dev : Dev} {b : Fin 4 → Block} {log : List Quarter}
include henv

/-- A call is a run of the second loop over what the first one has made of the block numbers. -/
theorem breadPage_run {bnd : CopyBinding} (hk : CacheInv n data k)
    (h : Runs env (breadPage bnd fuel address dev b) k log k') :
    ∃ bhs c k1, List.Forall₂ (Started n) (List.ofFn b) bhs ∧ CacheInv n data k1 ∧
      Runs env (copyQuarters bnd c bhs address) k1 log k' := by
  obtain ⟨bhs, k1, hstart, h⟩ := h.bind_inv
  obtain ⟨hk1, hbhs⟩ := hstart.ok (henv n data) (startReads_ok fuel dev _) hk
  obtain ⟨c, k2, hany, h⟩ := h.bind_inv
  exact ⟨bhs, c, k2, hbhs, (hany.ok (henv n data) .any hk1).1, h⟩

/-- A call that has met its purpose, with the compiled-in macro, has copied nothing: every copy leaves some
    `b_data` one to four quarters further. -/
theorem breadPage_copiesNothing (hk : CacheInv n data k)
    (h : Runs env (breadPage .compiledIn fuel address dev b) k log k') (hspec : BreadPageSpec k k' address b log)
    (i : Fin 4) : b i = 0 := by
  obtain ⟨bhs, c, k1, hbhs, hk1, hrun⟩ := breadPage_run henv hk h
  have hlen : bhs.length = 4 := by rw [← hbhs.length_eq, List.length_ofFn]
  obtain ⟨t, hk', ht, hmoved⟩ := copyQuarters_compiledIn henv bhs data address k1 k' log hk1 hrun
  by_contra hb
  obtain ⟨q, hq, hquarter⟩ := hspec.quarters i
  unfold QuarterSpec at hquarter
  rw [if_neg hb] at hquarter
  obtain ⟨bh, copy, rfl, -⟩ := hquarter
  obtain ⟨x, hx⟩ := hmoved _ (List.mem_of_getElem? hq) rfl
  have hsame : data x + BitVec.ofNat 32 (1024 * t x) = data x := by
    rw [← congrFun hk'.data x, hspec.data, hk.data]
  exact quarter_moved hx (hlen ▸ ht x) hsame

/-- Nor is there anything to get wrong for a page of zero block numbers. -/
theorem breadPage_zero (hk : CacheInv n data k) (h : Runs env (breadPage .compiledIn fuel address dev b) k log k')
    (hb : ∀ i, b i = 0) : BreadPageSpec k k' address b log := by
  obtain ⟨bhs, c, k1, hbhs, hk1, hrun⟩ := breadPage_run henv hk h
  have hlen : bhs.length = 4 := by rw [← hbhs.length_eq, List.length_ofFn]
  have hnone : ∀ r ∈ bhs, r = none := by
    intro r hr
    obtain ⟨j, rfl⟩ := List.get_of_mem hr
    have hstarted := (List.forall₂_iff_get.mp hbhs).2 j (by rw [List.length_ofFn]; omega) j.2
    unfold Started at hstarted
    rwa [List.get_ofFn, if_pos (hb _)] at hstarted
  obtain ⟨hk', rfl⟩ := copyQuarters_none henv bhs address k1 k' log hnone hk1 hrun
  refine ⟨fun i => ⟨⟨none, none, []⟩, ?_, ?_⟩, by simpa using hlen, hk'.data.trans hk.data.symm⟩
  · rw [List.getElem?_replicate, if_pos (by omega)]
  · unfold QuarterSpec
    rw [if_pos (hb i)]

/-- **The compiled-in `bread_page` meets its specification exactly when it has nothing to read.** -/
theorem breadPage_spec_iff (hk : CacheInv n data k)
    (h : Runs env (breadPage .compiledIn fuel address dev b) k log k') :
    AllUptodate log → (BreadPageSpec k k' address b log ↔ ∀ i, b i = 0) :=
  fun _ => ⟨breadPage_copiesNothing henv hk h, breadPage_zero henv hk h⟩

end

theorem breadPage_spec_iff_zero :
    ∃ log, AllUptodate log ∧ (BreadPageSpec twoBuffers twoBuffers 0x5000 (fun _ => 0) log ↔
      ∀ i : Fin 4, (fun _ => 0 : Fin 4 → Block) i = 0) := by
  have hrun : Runs Interrupt (breadPage .compiledIn 1 0x5000 1 fun _ => 0) twoBuffers
      (List.replicate 4 ⟨none, none, []⟩) twoBuffers :=
    .choose Cpu.zero (.ret _ _)
  have hup : AllUptodate (List.replicate 4 ⟨none, none, []⟩) := by
    intro q hq hbh
    rw [List.eq_of_mem_replicate hq] at hbh
    cases hbh
  exact ⟨_, hup, breadPage_spec_iff interrupt_quiet ⟨twoBuffers_repInv, rfl, rfl⟩ hrun hup⟩

/-- The first quarter of a page read from the cached block, the other three left out: `b_data` has moved. -/
theorem breadPage_moves_data :
    ∃ log k', Runs Interrupt (breadPage .compiledIn 3 0x5000 1 ![7, 0, 0, 0]) (cachedBlock 1 7 0) log k' ∧
      AllUptodate log ∧ ¬ BreadPageSpec (cachedBlock 1 7 0) k' 0x5000 ![7, 0, 0, 0] log := by
  have hruns : ((startReads 3 1 [7, 0, 0, 0]).alone (cachedBlock 1 7 0)).bind (fun r =>
      ((copyQuarters .compiledIn Cpu.zero r.1 0x5000).alone r.2).map fun r =>
        r.1.map fun q => (q.bh.isSome, q.copy.isSome)) =
      some [(true, true), (false, false), (false, false), (false, false)] := by decide
  obtain ⟨⟨bhs, k1⟩, hstart, hruns⟩ := Option.bind_eq_some_iff.mp hruns
  obtain ⟨⟨log, k'⟩, hcopy, hlog⟩ := Option.map_eq_some_iff.mp hruns
  have hrun : Runs Interrupt (breadPage .compiledIn 3 0x5000 1 ![7, 0, 0, 0]) (cachedBlock 1 7 0) log k' :=
    .bind (.of_alone hstart) (.bind (.choose Cpu.zero (.ret _ _)) (.of_alone hcopy))
  refine ⟨log, k', hrun, fun q hq hbh => ?_, fun hspec => ?_⟩
  · have hmem : (q.bh.isSome, q.copy.isSome) ∈ log.map fun q => (q.bh.isSome, q.copy.isSome) :=
      List.mem_map_of_mem hq
    rw [hlog, hbh] at hmem
    simpa using hmem
  · exact absurd (breadPage_copiesNothing interrupt_quiet (cachedBlock_inv 1 7 0) hrun hspec 0) (by decide)

end Fs
end Linux095
