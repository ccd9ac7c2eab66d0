import Linux095.Fs.BufferCache

/-!
# `Fs.QueuePointers` — the pointers that the queue operations follow (`fs/buffer.c`)

`Fs.Buffer` has the queue operations as they change the buffers; here each pointer that they follow is looked at, and a
null one is a fault.

* `deref`, `Fault` — following a pointer;
* `removeFromQueues`, `insertIntoQueues`, `putLastFree` — the source's functions;
* `removeFromQueues_ok`, `putLastFree_ok`, `insertIntoQueues_ok` — they do what `Fs.Buffer` says, or fault;
* `queue_iff` — **when they follow no null pointer**, and keep the invariant.
-/

namespace Linux095
namespace Fs
namespace Pointers

/-! ## Following pointers -/

inductive Fault where
  /-- "Free block list corrupted". -/
  | panic
  /-- A null pointer is followed. -/
  | null
  deriving DecidableEq

/-- `*p`. -/
def deref (p : Option Nat) : Except Fault Nat := p.elim (.error .null) .ok

/-! ## The queue operations -/

/-- `if (bh->b_next) bh->b_next->b_prev = bh->b_prev`. -/
def bridgePrev (b : Nat) (k : Kernel) : Except Fault Kernel :=
  if (k.bh b).bNext = none then pure k
  else do
    let n ← deref (k.bh b).bNext
    pure (k.setPrev n (k.bh b).bPrev)

/-- `if (bh->b_prev) bh->b_prev->b_next = bh->b_next`. -/
def bridgeNext (b : Nat) (k : Kernel) : Except Fault Kernel :=
  if (k.bh b).bPrev = none then pure k
  else do
    let p ← deref (k.bh b).bPrev
    pure (k.setNext p (k.bh b).bNext)

/-- `remove_from_hash_queue`. -/
def removeFromHashQueue (bh : Option Nat) (k : Kernel) : Except Fault Kernel := do
  let b ← deref bh
  let k ← bridgePrev b k
  let k ← bridgeNext b k
  let k := advanceHead k b
  pure ((k.setNext b none).setPrev b none)

/-- `remove_from_free_list`. -/
def removeFromFreeList (bh : Option Nat) (k : Kernel) : Except Fault Kernel := do
  let b ← deref bh
  if (k.bh b).bPrevFree = none ∨ (k.bh b).bNextFree = none then throw .panic
  else do
    let p ← deref (k.bh b).bPrevFree
    let k := k.setNextFree p (k.bh b).bNextFree
    let n ← deref (k.bh b).bNextFree
    let k := k.setPrevFree n (k.bh b).bPrevFree
    let k := if k.freeList = some b then k.setFreeList (k.bh b).bNextFree else k
    pure ((k.setNextFree b none).setPrevFree b none)

/-- `remove_from_queues`. -/
def removeFromQueues (bh : Option Nat) (k : Kernel) : Except Fault Kernel := do
  let k ← removeFromHashQueue bh k
  removeFromFreeList bh k

/-- "add to back of free list", and "put at end of free list". -/
def appendFree (bh : Option Nat) (k : Kernel) : Except Fault Kernel := do
  let b ← deref bh
  let k := k.setNextFree b k.freeList
  let f ← deref k.freeList
  let k := k.setPrevFree b (k.bh f).bPrevFree
  let p ← deref (k.bh f).bPrevFree
  let k := k.setNextFree p (some b)
  pure (k.setPrevFree f (some b))

/-- `put_last_free`. -/
def putLastFree (bh : Option Nat) (k : Kernel) : Except Fault Kernel :=
  if bh = none then pure k
  else if bh = k.freeList then do
    let b ← deref bh
    pure (k.setFreeList (k.bh b).bNextFree)
  else do
    let k ← removeFromFreeList bh k
    appendFree bh k

/-- `insert_into_queues`. -/
def insertIntoQueues (bh : Option Nat) (k : Kernel) : Except Fault Kernel := do
  let k ← appendFree bh k
  let b ← deref bh
  let k := (k.setPrev b none).setNext b none
  if (k.bh b).bDev = 0 then pure k
  else do
    let k := k.setNext b (k.hashTable (k.hashOf b))
    let k := k.setHash (k.hashOf b) (some b)
    -- not guarded
    let n ← deref (k.bh b).bNext
    pure (k.setPrev n (some b))

/-! ## What is done with the queues -/

/-- The assignments of `getblk` between taking a buffer out of the queues and putting it back. -/
def assign (key : Option (Dev × Block)) (b : Nat) (k : Kernel) : Kernel :=
  key.elim k fun p => k.setBh b fun h => { h with bDev := p.1, bBlocknr := p.2 }

inductive Op where
  /-- `remove_from_queues` and `insert_into_queues`, and another block in between, if any. -/
  | requeue (b : Nat) (key : Option (Dev × Block))
  /-- `put_last_free`. -/
  | putLastFree (b : Nat)

def run : Op → Kernel → Except Fault Kernel
  | .requeue b key, k => do
      let k ← removeFromQueues (some b) k
      insertIntoQueues (some b) (assign key b k)
  | .putLastFree b, k => putLastFree (some b) k

/-- It is one of the buffers; and a block that it is given is no other buffer's, as `find_buffer` has found. -/
def Allowed (k : Kernel) : Op → Prop
  | .requeue b key => b < k.nrBuffers ∧ ∀ p, key = some p → p.1 ≠ 0 → ∀ i < k.nrBuffers, i ≠ b → k.key i ≠ p
  | .putLastFree b => b < k.nrBuffers

/-- **What is expected of the operations**: no null pointer is followed, and the invariant is kept. -/
def Meets (k : Kernel) (op : Op) : Prop := ∃ k', run op k = .ok k' ∧ RepInv k'

/-- When they do it: a buffer that is queued has no device, or finds another one in its hash queue. -/
def Fine (k : Kernel) : Op → Prop
  | .requeue b key =>
      let p := key.getD (k.key b)
      p.1 = 0 ∨ ∃ i < k.nrBuffers, i ≠ b ∧ (k.bh i).bDev ≠ 0 ∧ k.hashOf i = hashfn p.1 p.2
  | .putLastFree _ => True

/-! ## They do what `Fs.Buffer` says, or fault -/

section
variable {k k' : Kernel} {b : Nat}

theorem bridgePrev_ok (k : Kernel) (b : Nat) : bridgePrev b k = .ok (Fs.bridgePrev k b) := by
  unfold bridgePrev Fs.bridgePrev
  cases (k.bh b).bNext <;> rfl

theorem bridgeNext_ok (k : Kernel) (b : Nat) : bridgeNext b k = .ok (Fs.bridgeNext k b) := by
  unfold bridgeNext Fs.bridgeNext
  cases (k.bh b).bPrev <;> rfl

theorem removeFromHashQueue_ok (k : Kernel) (b : Nat) :
    removeFromHashQueue (some b) k = .ok (Fs.removeFromHashQueue k b) := by
  unfold removeFromHashQueue
  change (bridgePrev b k).bind _ = _
  rw [bridgePrev_ok]
  change (bridgeNext b (Fs.bridgePrev k b)).bind _ = _
  rw [bridgeNext_ok]
  rfl

/-- What is not there in `Fs.Buffer` is a panic or a null pointer here. -/
theorem removeFromFreeList_ok (h : Fs.removeFromFreeList k b = some k') :
    removeFromFreeList (some b) k = .ok k' := by
  unfold Fs.removeFromFreeList at h
  obtain ⟨p, hp, h⟩ := Option.bind_eq_some_iff.mp h
  obtain ⟨n, hn, h⟩ := Option.bind_eq_some_iff.mp h
  obtain ⟨n', hn', h⟩ := Option.bind_eq_some_iff.mp h
  obtain rfl := Option.some.inj h
  unfold removeFromFreeList
  change (if (k.bh b).bPrevFree = none ∨ (k.bh b).bNextFree = none then _ else _ : Except Fault Kernel) = _
  rw [if_neg (by simp [hp, hn])]
  change (deref (k.bh b).bPrevFree).bind _ = _
  rw [hp]
  change (deref ((k.setNextFree p (k.bh b).bNextFree).bh b).bNextFree).bind _ = _
  rw [hn']
  rfl

theorem removeFromQueues_ok (h : Fs.removeFromQueues k b = some k') : removeFromQueues (some b) k = .ok k' := by
  unfold removeFromQueues
  rw [removeFromHashQueue_ok]
  exact removeFromFreeList_ok h

theorem appendFree_ok (h : Fs.appendFree k b = some k') : appendFree (some b) k = .ok k' := by
  unfold Fs.appendFree at h
  obtain ⟨f, hf, h⟩ := Option.bind_eq_some_iff.mp h
  obtain ⟨p, hp, h⟩ := Option.bind_eq_some_iff.mp h
  obtain rfl := Option.some.inj h
  unfold appendFree
  change (deref (k.setNextFree b k.freeList).freeList).bind _ = _
  rw [hf]
  change (deref (((k.setNextFree b k.freeList).setPrevFree b _).bh f).bPrevFree).bind _ = _
  rw [hp]
  rfl

theorem putLastFree_ok (h : Fs.putLastFree k b = some k') : putLastFree (some b) k = .ok k' := by
  unfold Fs.putLastFree at h
  unfold putLastFree
  rw [if_neg (Option.some_ne_none b)]
  by_cases hfirst : some b = k.freeList
  · rw [if_pos hfirst] at h ⊢
    obtain rfl := Option.some.inj h
    rfl
  · rw [if_neg hfirst] at h ⊢
    obtain ⟨k₁, hrem, happ⟩ := Option.bind_eq_some_iff.mp h
    change (removeFromFreeList (some b) k).bind _ = _
    rw [removeFromFreeList_ok hrem]
    exact appendFree_ok happ

/-- The last assignment of `insert_into_queues` is not guarded. -/
theorem insertIntoQueues_ok {k₁ : Kernel} (h : Fs.appendFree k b = some k₁) : insertIntoQueues (some b) k =
    if (k₁.bh b).bDev = 0 ∨ k₁.hashTable (k₁.hashOf b) ≠ none then .ok (pushHash k₁ b) else .error .null := by
  have hdev : (((k₁.setPrev b none).setNext b none).bh b).bDev = (k₁.bh b).bDev := by simp [Kernel.bDev_eq]
  have hhash : ((k₁.setPrev b none).setNext b none).hashOf b = k₁.hashOf b := by simp [hashOf_eq]
  unfold insertIntoQueues
  change (appendFree (some b) k).bind _ = _
  rw [appendFree_ok h]
  change (if (((k₁.setPrev b none).setNext b none).bh b).bDev = 0 then _ else _ : Except Fault Kernel) = _
  unfold pushHash
  dsimp only
  rw [hdev]
  by_cases hzero : (k₁.bh b).bDev = 0
  · rw [if_pos hzero, if_pos (.inl hzero), if_pos hzero]
    rfl
  · rw [if_neg hzero, if_neg hzero]
    have hnext : ∀ h, (((((k₁.setPrev b none).setNext b none).setNext b
        (((k₁.setPrev b none).setNext b none).hashTable (((k₁.setPrev b none).setNext b none).hashOf b))).setHash h
          (some b)).bh b).bNext = k₁.hashTable (k₁.hashOf b) := by
      intro h
      rw [hhash]
      simp [Kernel.bNext_eq]
    change (deref (Kernel.bh _ b).bNext).bind _ = _
    rw [hnext]
    cases hhead : k₁.hashTable (k₁.hashOf b) with
    | none =>
        rw [if_neg (not_or.mpr ⟨hzero, not_not.mpr rfl⟩)]
        rfl
    | some n =>
        rw [if_pos (.inr (by simp))]
        rfl

end

/-! ## When they follow no null pointer -/

section
variable {k : Kernel} {b : Nat} {dev : Dev} {block : Block}

/-- A buffer that stays as it is, and one that is given its own block. -/
theorem assign_own (k : Kernel) (b : Nat) : assign (some (k.key b)) b k = k := by
  have hbh : (assign (some (k.key b)) b k).bh = k.bh := by
    funext i
    show (if i = b then { k.bh i with bDev := (k.bh b).bDev, bBlocknr := (k.bh b).bBlocknr } else k.bh i) = k.bh i
    split
    · rename_i hi
      rw [hi]
    · rfl
  show { k with bh := (assign (some (k.key b)) b k).bh } = k
  rw [hbh]

/-- The hash queue of a block is empty if no buffer is on it. -/
theorem hashTable_ne_none {S : Nat → Prop} (h : HashQueues k S) (dev : Dev) (block : Block) :
    k.hashTable (hashfn dev block) ≠ none ↔ ∃ i, S i ∧ (k.bh i).bDev ≠ 0 ∧ k.hashOf i = hashfn dev block := by
  obtain ⟨l, hl, hmem⟩ := h.chain (hashfn dev block) (Nat.mod_lt _ (by decide))
  rw [hl.head]
  cases l with
  | nil => exact ⟨fun hne => absurd rfl hne, fun ⟨i, hi⟩ => absurd ((hmem i).mpr hi) List.not_mem_nil⟩
  | cons i l => exact ⟨fun _ => ⟨i, (hmem i).mp List.mem_cons_self⟩, fun _ => Option.some_ne_none i⟩

/-- Taking a buffer out of the queues and putting it back. -/
theorem requeue_eq (h : RepInv k) {key : Option (Dev × Block)} (hop : Allowed k (.requeue b key)) :
    Fine k (.requeue b key) ∧ Meets k (.requeue b key) ∨
      ¬Fine k (.requeue b key) ∧ run (.requeue b key) k = .error .null := by
  obtain ⟨hb, hkey⟩ := hop
  have hnew : (key.getD (k.key b)).1 ≠ 0 → ∀ i < k.nrBuffers, i ≠ b → k.key i ≠ key.getD (k.key b) := by
    cases key with
    | some p => exact hkey p rfl
    | none =>
        intro hdev i hi hne heq
        exact hne (h.unique i b hi hb (by rwa [Kernel.bDev_eq, heq]) heq)
  obtain ⟨k2, k4, hrem, hkey2, happ, hhash, hkey4, hrep, -⟩ := h.requeue hb hnew
  have hassign : assign key b k2 =
      k2.setBh b fun h => { h with bDev := (key.getD (k.key b)).1, bBlocknr := (key.getD (k.key b)).2 } := by
    cases key with
    | some p => rfl
    | none =>
        have hown := assign_own k2 b
        rw [hkey2] at hown
        exact hown.symm
  have hrun : run (.requeue b key) k =
      if (k4.bh b).bDev = 0 ∨ k4.hashTable (k4.hashOf b) ≠ none then .ok (pushHash k4 b) else .error .null := by
    change (removeFromQueues (some b) k).bind _ = _
    rw [removeFromQueues_ok hrem]
    change insertIntoQueues (some b) (assign key b k2) = _
    rw [hassign]
    exact insertIntoQueues_ok happ
  have hself : k4.key b = key.getD (k.key b) := (hkey4 b).trans (if_pos rfl)
  have hfine : Fine k (.requeue b key) ↔ (k4.bh b).bDev = 0 ∨ k4.hashTable (k4.hashOf b) ≠ none := by
    rw [hashOf_eq, hashTable_ne_none hhash, Kernel.bDev_eq, hself]
    refine or_congr_right (exists_congr fun i => ?_)
    rw [and_assoc]
    refine and_congr_right fun hi => and_congr_right fun hne => ?_
    have hother : k4.key i = k.key i := (hkey4 i).trans (if_neg hne)
    rw [hashOf_eq, hashOf_eq, Kernel.bDev_eq, Kernel.bDev_eq, hother]
  by_cases hcond : (k4.bh b).bDev = 0 ∨ k4.hashTable (k4.hashOf b) ≠ none
  · rw [if_pos hcond] at hrun
    exact .inl ⟨hfine.mpr hcond, pushHash k4 b, hrun, hrep⟩
  · rw [if_neg hcond] at hrun
    exact .inr ⟨fun hf => hcond (hfine.mp hf), hrun⟩

/-- The end of `getblk` is what `Fs.Buffer` says, or follows a null pointer. -/
theorem run_of_reuse {k' : Kernel} (h : reuse k dev block b = some k') :
    run (.requeue b (some (dev, block))) (((k.setCount b 1).setDirt b false).setUptodate b false) = .ok k' ∨
      run (.requeue b (some (dev, block))) (((k.setCount b 1).setDirt b false).setUptodate b false) = .error .null := by
  obtain ⟨k2, hrem, h⟩ := Option.bind_eq_some_iff.mp h
  obtain ⟨k4, happ, h⟩ := Option.bind_eq_some_iff.mp h
  obtain rfl := Option.some.inj h
  have hrun : run (.requeue b (some (dev, block))) (((k.setCount b 1).setDirt b false).setUptodate b false) =
      insertIntoQueues (some b) (assign (some (dev, block)) b k2) := by
    change (removeFromQueues (some b) _).bind _ = _
    rw [removeFromQueues_ok hrem]
    rfl
  have hinsert : insertIntoQueues (some b) (assign (some (dev, block)) b k2) = _ := insertIntoQueues_ok happ
  rw [hrun, hinsert]
  split
  · exact .inl rfl
  · exact .inr rfl

/-- **When the operations follow no null pointer**: a buffer is not put, with a device, in a hash queue that is
    empty. -/
theorem queue_iff (h : RepInv k) (op : Op) (hop : Allowed k op) : Meets k op ↔ Fine k op := by
  cases op with
  | requeue b key =>
      rcases requeue_eq h hop with ⟨hfine, hmeets⟩ | ⟨hfine, hnull⟩
      · exact iff_of_true hmeets hfine
      · refine iff_of_false ?_ hfine
        rintro ⟨k', hrun, -⟩
        rw [hnull] at hrun
        cases hrun
  | putLastFree b =>
      obtain ⟨k', hrun, hrep, -⟩ := h.putLastFree hop
      exact iff_of_true ⟨k', putLastFree_ok hrun, hrep⟩ trivial

end

/-! ## Two buffers -/

theorem cachedBlock_key : (cachedBlock 1 7 0).key 0 = (1, 7) ∧ (cachedBlock 1 7 0).key 1 = (0, 0) := by
  decide +kernel

/-- A buffer is put in the hash queue of another one. -/
theorem queue_iff_second : Meets (cachedBlock 1 7 0) (.requeue 1 (some (1, 312))) := by
  have hinv := cachedBlock_inv 1 7 0
  obtain ⟨hkey0, hkey1⟩ := cachedBlock_key
  have hnew : Allowed (cachedBlock 1 7 0) (.requeue 1 (some (1, 312))) := by
    refine ⟨by rw [hinv.nr]; decide, fun p hp _ i hi hne => ?_⟩
    obtain rfl := Option.some.inj hp
    have hi0 : i = 0 := by
      rw [hinv.nr] at hi
      omega
    rw [hi0, hkey0]
    decide
  refine (queue_iff hinv.rep _ hnew).mpr (.inr ⟨0, by rw [hinv.nr]; decide, by decide, ?_, ?_⟩)
  · rw [Kernel.bDev_eq, hkey0]
    decide
  · rw [hashOf_eq, hkey0]
    decide

/-- The only buffer in its hash queue is put back through a null pointer. -/
theorem requeue_only : RepInv (cachedBlock 1 7 0) ∧ ¬Meets (cachedBlock 1 7 0) (.requeue 0 none) := by
  have hinv := cachedBlock_inv 1 7 0
  obtain ⟨hkey0, hkey1⟩ := cachedBlock_key
  refine ⟨hinv.rep, ?_⟩
  have hop : Allowed (cachedBlock 1 7 0) (.requeue 0 none) := by
    refine ⟨by rw [hinv.nr]; decide, fun p hp => ?_⟩
    cases hp
  rcases requeue_eq hinv.rep hop with ⟨hfine, -⟩ | ⟨-, hnull⟩
  · exfalso
    rcases hfine with hzero | ⟨i, hi, hne, hdev, -⟩
    · rw [Option.getD_none, hkey0] at hzero
      exact absurd hzero (by decide)
    · have hi1 : i = 1 := by
        rw [hinv.nr] at hi
        omega
      rw [hi1, Kernel.bDev_eq, hkey1] at hdev
      exact hdev rfl
  · rintro ⟨k', hrun, -⟩
    rw [hnull] at hrun
    cases hrun

end Pointers
end Fs
end Linux095
