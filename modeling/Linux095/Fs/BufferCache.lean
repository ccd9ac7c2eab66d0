import Linux095.BlkDrv.LlRwBlk

/-!
# `Fs.BufferCache` — the buffer cache under concurrency (`fs/buffer.c`)

The functions of `fs/buffer.c` that may sleep, as threads, and the invariant of any number of processes that
call them.

* `getHashTable`, `getblk`, `bread`, `brelse`, `syncDev`, `sysSync`, `invalidateBuffers` — the source's
  functions;
* `process` — a process is any sequence of calls;
* `bufferCache_invariant` — `RepInv` holds in every state any pool of processes reaches.

`getblk` cleans the buffer it is about to reuse with `sync_dev`, which writes inodes out through `bread` and so
comes back to `getblk`. The functions take the one they call as a parameter and `syncDev` ties the knot. Loops
take fuel, and so does that recursion: a theorem for every amount of it covers every run that gets this far.
-/

namespace Linux095
namespace Fs
open Coop BlkDrv

/-! ## The source's functions -/

/-- `get_hash_table`. -/
def getHashTable (dev : Dev) (block : Block) : Nat → Thread Kernel (Option Nat)
  | 0 => .stop
  | fuel + 1 => do
      match ← .reads fun k => findBuffer k dev block with
      | none => return none
      | some bh =>
          .modify fun k => k.setCount bh ((k.bh bh).bCount + 1)
          waitOnBuffer bh
          if (← .reads fun k => k.key bh) = (dev, block) then
            .attempt fun k => putLastFree k bh
            return some bh
          else
            .modify fun k => k.setCount bh ((k.bh bh).bCount - 1)
            getHashTable dev block fuel

/-- `BADNESS`. -/
def badness (b : BufferHead) : Nat := b.bDirt.toNat <<< 1 + b.bLock.toNat

/-- `!bh || BADNESS(tmp) < BADNESS(bh)`. -/
def isBetter (k : Kernel) (tmp : Nat) : Option Nat → Bool
  | none => true
  | some bh => badness (k.bh tmp) < badness (k.bh bh)

/-- The search of `getblk` for a buffer to reuse: at most `n` steps along the free list after `tmp`, with `bh`
    the best so far. -/
def candidate (fuel : Nat) : Nat → Nat → Option Nat → Thread Kernel (Option Nat)
  | 0, _, bh => return bh
  | n + 1, tmp, bh => do
      let tmp ← .deref (← .reads fun k => (k.bh tmp).bNextFree)
      let t ← .reads fun k => k.bh tmp
      if t.bCount ≠ 0 then candidate fuel n tmp bh
      else
        let better ← .reads fun k => isBetter k tmp bh
        if better ∧ badness t = 0 then return some tmp
        if t.bDirt then llRwBlock fuel .writea tmp
        candidate fuel n tmp (if better then some tmp else bh)

/-- `while (bh->b_dirt)` of `getblk`; `false` when somebody has taken the buffer meanwhile. -/
def flush (sync : Dev → Thread Kernel Unit) (bh : Nat) : Nat → Thread Kernel Bool
  | 0 => .stop
  | fuel + 1 => do
      if !(← .reads fun k => (k.bh bh).bDirt) then return true
      sync (← .reads fun k => (k.bh bh).bDev)
      waitOnBuffer bh
      if (← .reads fun k => (k.bh bh).bCount) ≠ 0 then return false
      flush sync bh fuel

/-- `getblk`. Between the last `find_buffer` and `insert_into_queues` there is no sleep: they are one action. -/
def getblk (sync : Dev → Thread Kernel Unit) (dev : Dev) (block : Block) : Nat → Thread Kernel Nat
  | 0 => .stop
  | fuel + 1 => do
      match ← getHashTable dev block fuel with
      | some bh => return bh
      | none =>
          let buffers ← .reads fun k => k.nrBuffers
          let freeList ← .deref (← .reads fun k => k.freeList)
          match ← candidate fuel (buffers + 1) freeList none with
          | none =>
              .doze
              getblk sync dev block fuel
          | some bh =>
              waitOnBuffer bh
              if (← .reads fun k => (k.bh bh).bCount) ≠ 0 then getblk sync dev block fuel
              else if !(← flush sync bh fuel) then getblk sync dev block fuel
              else if ← .when (fun k => (findBuffer k dev block).isNone) (reuse · dev block bh) then
                return bh
              else getblk sync dev block fuel

/-- `brelse`; releasing a free buffer panics. -/
def brelse : Option Nat → Thread Kernel Unit
  | none => return
  | some buf => do
      waitOnBuffer buf
      let count ← .reads fun k => (k.bh buf).bCount
      .modify fun k => k.setCount buf ((k.bh buf).bCount - 1)
      if count = 0 then .stop

/-- `bread`. -/
def bread (getblk : Dev → Block → Thread Kernel Nat) (fuel : Nat) (dev : Dev) (block : Block) :
    Thread Kernel (Option Nat) := do
  let bh ← getblk dev block
  if ← .reads fun k => (k.bh bh).bUptodate then return some bh
  llRwBlock fuel .read bh
  waitOnBuffer bh
  if ← .reads fun k => (k.bh bh).bUptodate then return some bh
  brelse (some bh)
  return none

/-- `sync_buffers` from `bh` on; its argument is not used. -/
def syncBuffers (fuel : Nat) : Nat → Nat → Thread Kernel Unit
  | 0, _ => return
  | n + 1, bh => do
      waitOnBuffer bh
      if ← .reads fun k => (k.bh bh).bDirt then llRwBlock fuel .write bh
      syncBuffers fuel n (← .deref (← .reads fun k => (k.bh bh).bNextFree))

/-- `sync_buffers`. -/
def syncAllBuffers (fuel : Nat) : Thread Kernel Unit := do
  syncBuffers fuel (← .reads fun k => k.nrBuffers) (← .deref (← .reads fun k => k.freeList))

/-- What the holder of a buffer does to it: new contents in memory, and `b_dirt`. -/
def store (m : X86.Mem) (bh : Nat) (k : Kernel) : Kernel := ({ k with mem := m }).setDirt bh true

/-- `write_inode`: the inode is locked, and its raw inode in the given block overwritten. -/
def writeInode (bread : Dev → Block → Thread Kernel (Option Nat)) (dev : Dev) (block : Block) :
    Thread Kernel Unit := do
  .doze
  match ← bread dev block with
  | none => .stop
  | some bh =>
      let m ← .any X86.Mem
      .modify (store m bh)
      brelse (some bh)

/-- `sync_inodes`. Which inodes are dirty, and where they are stored, is up to the inode cache. -/
def syncInodes (bread : Dev → Block → Thread Kernel (Option Nat)) : Thread Kernel Unit := do
  let dirty ← .any (List (Dev × Block))
  dirty.forM fun b => writeInode bread b.1 b.2

/-- `sync_dev`, with the recursion through `sync_inodes` and `bread` at most `depth` deep. -/
def syncDev (fuel : Nat) : Nat → Dev → Thread Kernel Unit
  | 0, _ => .stop
  | depth + 1, _ => do
      syncAllBuffers fuel
      syncInodes (bread (fun dev block => getblk (fun d => syncDev fuel depth d) dev block fuel) fuel)
      syncAllBuffers fuel

/-- `getblk` as it is called from outside. -/
def sysGetblk (fuel : Nat) (dev : Dev) (block : Block) : Thread Kernel Nat :=
  getblk (syncDev fuel fuel) dev block fuel

/-- `sys_sync`. -/
def sysSync (fuel : Nat) : Thread Kernel Unit := do
  syncInodes (bread (sysGetblk fuel) fuel)
  syncAllBuffers fuel

/-- `invalidate_buffers`, with `n` buffers left from `bh` on. -/
def invalidateFrom (dev : Dev) : Nat → Nat → Thread Kernel Unit
  | 0, _ => return
  | n + 1, bh => do
      if (← .reads fun k => (k.bh bh).bDev) = dev then
        waitOnBuffer bh
        if (← .reads fun k => (k.bh bh).bDev) = dev then
          .modify fun k => (k.setDirt bh false).setUptodate bh false
      invalidateFrom dev n (bh + 1)

/-- `invalidate_buffers`. -/
def invalidateBuffers (dev : Dev) : Thread Kernel Unit := do
  invalidateFrom dev (← .reads fun k => k.nrBuffers) 0

/-! ## Processes -/

/-- A call of the buffer cache. `store` is not one; it is what a process does to a buffer in between. -/
inductive Call where
  | getblk (dev : Dev) (block : Block)
  | getHashTable (dev : Dev) (block : Block)
  | bread (dev : Dev) (block : Block)
  | brelse (buf : Option Nat)
  | invalidateBuffers (dev : Dev)
  | sync
  | syncDev (dev : Dev)
  | store (m : X86.Mem) (bh : Nat)

/-- One call, with `fuel` for its loops. -/
def Call.thread (fuel : Nat) : Call → Thread Kernel Unit
  | .getblk dev block => do discard (sysGetblk fuel dev block)
  | .getHashTable dev block => do discard (Fs.getHashTable dev block fuel)
  | .bread dev block => do discard (Fs.bread (sysGetblk fuel) fuel dev block)
  | .brelse buf => Fs.brelse buf
  | .invalidateBuffers dev => Fs.invalidateBuffers dev
  | .sync => sysSync fuel
  | .syncDev dev => Fs.syncDev fuel fuel dev
  | .store m bh => .modify (Fs.store m bh)

/-- The representation invariant, for `n` buffers whose contents are at `data`. -/
structure CacheInv (n : Nat) (data : Nat → X86.Addr) (k : Kernel) : Prop where
  rep : RepInv k
  nr : k.nrBuffers = n
  data : k.dataOf = data

theorem CacheInv.sameQueues {n : Nat} {data : Nat → X86.Addr} (k k' : Kernel) (hs : SameQueues k k')
    (h : CacheInv n data k) : CacheInv n data k' :=
  ⟨h.rep.congr hs, hs.1.nr.trans h.nr, hs.2.data.trans h.data⟩

theorem CacheInv.setSuperBlock {n : Nat} {data : Nat → X86.Addr} {k : Kernel} (h : CacheInv n data k)
    (f : Nat → SuperBlock) : CacheInv n data { k with superBlock := f } :=
  CacheInv.sameQueues k _ (.of_rest rfl rfl rfl rfl) h

theorem RepInv.freeList_some {k : Kernel} (h : RepInv k) : ∃ f < k.nrBuffers, k.freeList = some f := by
  obtain ⟨l, hl, hmem⟩ := h.free
  have h0 : 0 ∈ l := (hmem 0).mpr (by have := h.two; omega)
  have hhead := List.head?_eq_some_head (List.ne_nil_of_mem h0)
  exact ⟨_, (hmem _).mp (List.head_mem (List.ne_nil_of_mem h0)), hl.head.trans hhead⟩

theorem RepInv.bNextFree_some {k : Kernel} (h : RepInv k) {b : Nat} (hb : b < k.nrBuffers) :
    ∃ c < k.nrBuffers, (k.bh b).bNextFree = some c := by
  obtain ⟨l, hl, hmem⟩ := h.free
  obtain ⟨c, hc, -, -, hbc, -⟩ := hl.ring.neighbours ((hmem b).mpr hb)
  exact ⟨c, (hmem c).mp hc, hbc.1⟩

section
variable {n : Nat} {data : Nat → X86.Addr}

/-- Following a pointer that the invariant says is there. -/
theorem deref_ok {α : Type} {f : Kernel → Option Nat} {R : α → Prop} {g : Nat → Thread Kernel α}
    (hf : ∀ k, CacheInv n data k → ∃ c < n, f k = some c) (hg : ∀ c < n, (g c).Ok (CacheInv n data) R) :
    (Thread.reads f >>= fun p => Thread.deref p >>= g).Ok (CacheInv n data) R := by
  refine .reads fun k hk => ?_
  obtain ⟨c, hc, hfc⟩ := hf k hk
  rw [hfc]
  exact hg c hc

theorem nextFree_ok {b : Nat} (hb : b < n) (k : Kernel) (hk : CacheInv n data k) :
    ∃ c < n, (k.bh b).bNextFree = some c :=
  hk.nr ▸ hk.rep.bNextFree_some (hk.nr.symm ▸ hb)

theorem freeList_ok (k : Kernel) (hk : CacheInv n data k) : ∃ c < n, k.freeList = some c :=
  hk.nr ▸ hk.rep.freeList_some

theorem getHashTable_ok (dev : Dev) (block : Block) (fuel : Nat) :
    (getHashTable dev block fuel).Ok (CacheInv n data) fun r => ∀ b ∈ r, b < n := by
  induction fuel with
  | zero => exact .stop
  | succ fuel ih =>
      refine .reads fun k hk => ?_
      cases hf : findBuffer k dev block with
      | none => exact .pure (by simp)
      | some bh =>
          have hbh : bh < n := hk.nr ▸ (hk.rep.findBuffer_some hf).1
          refine .bind (.modify fun k => CacheInv.sameQueues k _ (.setCount k bh _)) fun _ _ => ?_
          refine .bind (waitOnBuffer_ok bh) fun _ _ => .reads fun k hk => ?_
          split
          · refine .bind (.attempt fun k hk => ?_) fun _ _ => .pure (by simpa using hbh)
            obtain ⟨k', hrun, hk', hnr, hdata⟩ := hk.rep.putLastFree (hk.nr.symm ▸ hbh)
            exact ⟨k', hrun, hk', hnr.trans hk.nr, hdata.trans hk.data⟩
          · exact .bind (.modify fun k => CacheInv.sameQueues k _ (.setCount k bh _)) fun _ _ => ih

theorem candidate_ok (fuel m : Nat) : ∀ (tmp : Nat) (bh : Option Nat), tmp < n → (∀ b ∈ bh, b < n) →
    (candidate fuel m tmp bh).Ok (CacheInv n data) fun r => ∀ b ∈ r, b < n := by
  induction m with
  | zero => exact fun tmp bh _ hbh => .pure hbh
  | succ m ih =>
      intro tmp bh htmp hbh
      refine deref_ok (nextFree_ok htmp) fun tmp htmp => .reads fun k _ => ?_
      split
      · exact ih tmp bh htmp hbh
      · refine .reads fun k' _ => ?_
        split
        · exact .pure (by simpa using htmp)
        · have hbest : ∀ b ∈ (if isBetter k' tmp bh then some tmp else bh), b < n := by
            split
            · simpa using htmp
            · exact hbh
          generalize (if isBetter k' tmp bh then some tmp else bh) = best at hbest ⊢
          split
          · exact .bind (llRwBlock_ok CacheInv.sameQueues fuel .writea tmp) fun _ _ => ih tmp best htmp hbest
          · exact ih tmp best htmp hbest

section
variable {sync : Dev → Thread Kernel Unit} (hsync : ∀ dev, (sync dev).Ok (CacheInv n data) fun _ => True)
include hsync

theorem flush_ok (bh fuel : Nat) : (flush sync bh fuel).Ok (CacheInv n data) fun _ => True := by
  induction fuel with
  | zero => exact .stop
  | succ fuel ih =>
      refine .reads fun k _ => ?_
      split
      · exact .pure trivial
      · refine .reads fun k _ => .bind (hsync _) fun _ _ => .bind (waitOnBuffer_ok bh) fun _ _ =>
          .reads fun k _ => ?_
        split
        · exact .pure trivial
        · exact ih

/-- **`getblk` keeps the invariant**, whatever happens while it sleeps. -/
theorem getblk_ok (dev : Dev) (block : Block) (fuel : Nat) :
    (getblk sync dev block fuel).Ok (CacheInv n data) fun r => r < n := by
  induction fuel with
  | zero => exact .stop
  | succ fuel ih =>
      refine .bind (getHashTable_ok dev block fuel) fun r hr => ?_
      cases r with
      | some bh => exact .pure (hr bh rfl)
      | none =>
          refine .reads fun k _ => deref_ok freeList_ok fun f hf => ?_
          refine .bind (candidate_ok fuel _ f none hf (by simp)) fun r hr => ?_
          cases r with
          | none => exact .bind .doze fun _ _ => ih
          | some bh =>
              refine .bind (waitOnBuffer_ok bh) fun _ _ => .reads fun k _ => ?_
              split
              · exact ih
              · refine .bind (flush_ok hsync bh fuel) fun clean _ => ?_
                split
                · exact ih
                · -- nobody runs between this `find_buffer` and the insertion
                  refine .bind (.when fun k hk hnone => ?_) fun found _ => ?_
                  · obtain ⟨k', hrun, hk', hnr, hdata⟩ :=
                      hk.rep.reuse (hk.nr.symm ▸ hr bh rfl) (Option.isNone_iff_eq_none.mp hnone)
                    exact ⟨k', hrun, hk', hnr.trans hk.nr, hdata.trans hk.data⟩
                  · split
                    · exact .pure (hr bh rfl)
                    · exact ih

end

theorem brelse_ok (buf : Option Nat) : (brelse buf).Ok (CacheInv n data) fun _ => True := by
  cases buf with
  | none => exact .pure trivial
  | some b =>
      refine .bind (waitOnBuffer_ok b) fun _ _ => .reads fun k _ =>
        .bind (.modify fun k => CacheInv.sameQueues k _ (.setCount k b _)) fun _ _ => ?_
      split
      · exact .stop
      · exact .pure trivial

theorem bread_ok {getblk : Dev → Block → Thread Kernel Nat}
    (hget : ∀ dev block, (getblk dev block).Ok (CacheInv n data) fun r => r < n) (fuel : Nat) (dev : Dev)
    (block : Block) : (bread getblk fuel dev block).Ok (CacheInv n data) fun _ => True := by
  refine .bind (hget dev block) fun bh _ => .reads fun k _ => ?_
  split
  · exact .pure trivial
  · refine .bind (llRwBlock_ok CacheInv.sameQueues fuel .read bh) fun _ _ => .bind (waitOnBuffer_ok bh)
      fun _ _ => .reads fun k _ => ?_
    split
    · exact .pure trivial
    · exact .bind (brelse_ok (some bh)) fun _ _ => .pure trivial

theorem syncBuffers_ok (fuel m : Nat) : ∀ bh < n, (syncBuffers fuel m bh).Ok (CacheInv n data) fun _ => True := by
  induction m with
  | zero => exact fun bh _ => .pure trivial
  | succ m ih =>
      intro bh hbh
      refine .bind (waitOnBuffer_ok bh) fun _ _ => .reads fun k _ => ?_
      split
      · exact .bind (llRwBlock_ok CacheInv.sameQueues fuel .write bh) fun _ _ => deref_ok (nextFree_ok hbh) ih
      · exact deref_ok (nextFree_ok hbh) ih

theorem syncAllBuffers_ok (fuel : Nat) : (syncAllBuffers fuel).Ok (CacheInv n data) fun _ => True :=
  .reads fun _ _ => deref_ok freeList_ok (syncBuffers_ok fuel _)

theorem store_sameQueues (m : X86.Mem) (bh : Nat) (k : Kernel) : SameQueues k (store m bh k) :=
  @SameQueues.trans _ { k with mem := m } _ (.of_rest rfl rfl rfl rfl) (.setDirt _ bh true)

section
variable {bread : Dev → Block → Thread Kernel (Option Nat)}
  (hbread : ∀ dev block, (bread dev block).Ok (CacheInv n data) fun _ => True)
include hbread

theorem writeInode_ok (dev : Dev) (block : Block) :
    (writeInode bread dev block).Ok (CacheInv n data) fun _ => True := by
  refine .bind .doze fun _ _ => .bind (hbread dev block) fun r _ => ?_
  cases r with
  | none => exact .stop
  | some bh =>
      exact .bind .any fun m _ => .bind (.modify fun k => CacheInv.sameQueues k _ (store_sameQueues m bh k))
        fun _ _ => brelse_ok (some bh)

theorem syncInodes_ok : (syncInodes bread).Ok (CacheInv n data) fun _ => True := by
  refine .bind .any fun dirty _ => ?_
  induction dirty with
  | nil => exact .pure trivial
  | cons b dirty ih => exact .bind (writeInode_ok hbread b.1 b.2) fun _ _ => ih

end

theorem syncDev_ok (fuel depth : Nat) : ∀ dev, (syncDev fuel depth dev).Ok (CacheInv n data) fun _ => True := by
  induction depth with
  | zero => exact fun _ => .stop
  | succ depth ih =>
      intro dev
      refine .bind (syncAllBuffers_ok fuel) fun _ _ => .bind (syncInodes_ok ?_) fun _ _ => syncAllBuffers_ok fuel
      exact bread_ok (fun dev block => getblk_ok ih dev block fuel) fuel

theorem sysGetblk_ok (fuel : Nat) (dev : Dev) (block : Block) :
    (sysGetblk fuel dev block).Ok (CacheInv n data) fun r => r < n :=
  getblk_ok (syncDev_ok fuel fuel) dev block fuel

end

/-- An environment of one call: the rest of the kernel keeps the buffer cache, and leaves every `b_data` alone. -/
def Quiet (env : Kernel → Kernel → Prop) : Prop :=
  ∀ n data k k', env k k' → CacheInv n data k → CacheInv n data k'

/-- So do the interrupts of the block devices. -/
theorem interrupt_quiet : Quiet Interrupt := fun _ _ k k' h => CacheInv.sameQueues k k' h.sameQueues

/-- The image before `buffer_init`, with every field zero and no request. -/
def bootKernel : Kernel where
  mem := fun _ => 0
  inode := fun _ => .zero
  superBlock := fun _ => .zero
  nrBuffers := 0
  bh := fun _ => ⟨0, 0, 0, false, false, 0, false, none, none, none, none⟩
  hashTable := fun _ => none
  freeList := none
  request := fun _ => ⟨-1, .read, 0, 0, 0, 0, none, none⟩
  blkDev := fun _ => ⟨false, none⟩

theorem bufferInit_bootKernel : (bufferInit 0 3000 bootKernel).nrBuffers = 2 := by
  simp [bufferInit, initFrom, initHead, bootKernel, BLOCK_SIZE, SIZEOF_BUFFER_HEAD]

/-- Two buffers, at 1976 and at 952, as `buffer_init` leaves them. -/
def twoBuffers : Kernel :=
  let k := initHead (initHead bootKernel 0 1976) 1 952
  let k1 := ((k.setFreeList (some 0)).setPrevFree 0 (some 1)).setNextFree 1 (some 0)
  { k1 with hashTable := fun i => if i < NR_HASH then none else k1.hashTable i }

theorem bufferInit_eq_twoBuffers : bufferInit 0 3000 bootKernel = twoBuffers := by
  have hinit : initFrom 0 bootKernel 0 3000 = (initHead (initHead bootKernel 0 1976) 1 952, 2) := by
    rw [initFrom, dif_pos (by decide), initFrom, dif_pos (by decide), initFrom, dif_neg (by decide)]
    rfl
  rw [bufferInit, if_neg (by decide), hinit]
  rfl

theorem twoBuffers_repInv : RepInv twoBuffers :=
  bufferInit_eq_twoBuffers ▸ bufferInit_repInv rfl bufferInit_bootKernel.ge

/-- The same, with a block read into the buffer 0, which `count` processes hold. -/
def cachedBlock (dev : Dev) (block : Block) (count : BitVec 8) : Kernel :=
  (((reuse twoBuffers dev block 0).getD twoBuffers).setCount 0 count).setUptodate 0 true

theorem cachedBlock_inv (dev : Dev) (block : Block) (count : BitVec 8) :
    CacheInv 2 (cachedBlock dev block count).dataOf (cachedBlock dev block count) := by
  have hnone : findBuffer twoBuffers dev block = none := by
    have hempty : twoBuffers.hashTable (hashfn dev block) = none := if_pos (Nat.mod_lt _ (by decide))
    rw [findBuffer, hempty]
    rfl
  obtain ⟨k, hk, hrep, hnr, -⟩ := twoBuffers_repInv.reuse (b := 0) (by decide) hnone
  have hsame : SameQueues k (cachedBlock dev block count) := by
    unfold cachedBlock
    rw [hk]
    exact (SameQueues.setCount k 0 count).trans (.setUptodate _ 0 true)
  exact ⟨hrep.congr hsame, hsame.1.nr.trans hnr, rfl⟩

end Fs
end Linux095
