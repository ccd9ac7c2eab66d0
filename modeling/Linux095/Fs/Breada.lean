import Linux095.Fs.Holders

/-!
# `Fs.Breada` — a block with read-ahead (`fs/buffer.c`)

`breada` is `bread` of its first block; in between it takes each further block of its list, asks for it to be read, and
lets it go. What it hands to `ll_rw_block` there is the buffer of the first block.

* `llRwAhead` — `ll_rw_block(READA,bh)`, which does not sleep, as one action that tells what it asked for;
* `breada` — the function, with a log of what it did about each further block;
* `Right`, `Harmless`, `right_iff` — what the log should say, and **when it does**;
* `pinned` — the discipline of the buffer cache, where a process knows the block of a buffer that it holds;
* `breada_iff` — **a call does what `bread` does, and asks for the further blocks, just when each of them is
  `Harmless`**, in every run in which no `b_count` overflows.
-/

namespace Linux095
namespace Fs
namespace Breada

open Coop BlkDrv Holders Relation

/-! ## `ll_rw_block(READA,bh)` -/

/-- What a call of `ll_rw_block` came to. -/
structure Asked where
  /-- The buffer that a request was made for. -/
  issued : Option Nat
  /-- The driver to be started. -/
  driver : Option Nat

/-- `ll_rw_block(READA,b)`, up to where a driver is started. -/
def llRwAhead (b : Nat) (k : Kernel) : Asked × Kernel :=
  let m := major (k.bh b).bDev
  if NR_BLK_DEV ≤ m ∨ !(k.blkDev m).requestFn then (⟨none, none⟩, k)
  else if (k.bh b).bLock then (⟨none, none⟩, k)
  else
    let k₁ := k.setLock b true
    if (k.bh b).bUptodate then (⟨none, none⟩, k₁.setLock b false)
    else
      match emptyRequest k₁ NR_REQUEST with
      | none => (⟨none, none⟩, k₁.setLock b false)
      | some r =>
          (⟨some b, if (k.blkDev m).currentRequest.isNone then some m else none⟩,
            addRequest m r (fillRequest k₁ .read b r))

/-- A driver that is started may end requests at once. -/
def startDriver : Option Nat → Thread Kernel Unit
  | none => return
  | some m => do
      let ended ← .any (List Bool)
      .modify fun k => ended.foldl (fun k u => endRequest m u k) k

/-! ## `breada` -/

/-- What was done about a further block. -/
structure Turn where
  /-- The buffer of the first block. -/
  bh : Nat
  /-- The buffer of this one. -/
  tmp : Nat
  /-- The state in which `ll_rw_block` was called, if it was. -/
  called : Option Kernel
  /-- The buffer that a request was made for. -/
  issued : Option Nat

/-- `if (!tmp->b_uptodate) ll_rw_block(READA,bh)`. -/
def readAhead (bh tmp : Nat) : Thread Kernel Turn := do
  if ← .reads fun k => (k.bh tmp).bUptodate then return ⟨bh, tmp, none, none⟩
  let (turn, driver) ← .atomic fun k =>
    some ((Turn.mk bh tmp (some k) (llRwAhead bh k).1.issued, (llRwAhead bh k).1.driver), (llRwAhead bh k).2)
  startDriver driver
  return turn

/-- The loop; the list ends with its first negative number. -/
def readAheads (fuel : Nat) (dev : Dev) (bh : Nat) : List Block → Thread Kernel (List Turn)
  | [] => return []
  | block :: args => do
      if block.msb then return []
      let tmp ← sysGetblk fuel dev block
      let turn ← readAhead bh tmp
      .modify fun k => k.setCount tmp ((k.bh tmp).bCount - 1)
      return turn :: (← readAheads fuel dev bh args)

/-- From the first test of `b_uptodate` to the last. -/
def fetch (fuel : Nat) (dev : Dev) (bh : Nat) (args : List Block) (uptodate : Bool) : Thread Kernel (List Turn) := do
  if !uptodate then llRwBlock fuel .read bh
  let log ← readAheads fuel dev bh args
  waitOnBuffer bh
  return log

/-- **`breada`**. -/
def breada (fuel : Nat) (dev : Dev) (first : Block) (args : List Block) : Thread Kernel (Option Nat × List Turn) := do
  let bh ← sysGetblk fuel dev first
  let uptodate ← .reads fun k => (k.bh bh).bUptodate
  let log ← fetch fuel dev bh args uptodate
  if ← .reads fun k => (k.bh bh).bUptodate then return (some bh, log)
  brelse (some bh)
  return (none, log)

/-! ## `llRwAhead` is what `ll_rw_block` does -/

section Runs

variable {env : Kernel → Kernel → Prop} {k k' : Kernel}

theorem runs_reads {α : Type} (f : Kernel → α) : Runs env (.reads f) k (f k) k := .act (.ret _ _)

theorem runs_modify (f : Kernel → Kernel) : Runs env (.modify f) k () (f k) := .act (.ret _ _)

theorem runs_await {b : Nat} (hlock : (k.bh b).bLock = false) : Runs env (waitOnBuffer b) k () k :=
  .of_alone (Thread.alone_await (by simp [hlock]))

/-- `add_request`, and the driver that it starts. -/
theorem runs_startRequest (m r : Nat)
    (hstart : Runs env (startDriver (if (k.blkDev m).currentRequest.isNone then some m else none)) (addRequest m r k) ()
      k') : Runs env (startRequest m r) k () k' := by
  refine .bind (runs_reads _) (.bind (runs_modify _) ?_)
  by_cases hidle : (k.blkDev m).currentRequest.isNone = true
  · rw [if_pos hidle] at hstart
    rw [if_pos hidle]
    exact hstart
  · rw [if_neg hidle] at hstart
    rw [if_neg hidle]
    exact hstart

/-- **The one action is a run of the thread**, whatever a started driver ends. -/
theorem llRwAhead_runs (fuel b : Nat)
    (hstart : Runs env (startDriver (llRwAhead b k).1.driver) (llRwAhead b k).2 () k') :
    Runs env (llRwBlock (fuel + 1) .reada b) k () k' := by
  unfold llRwAhead at hstart
  refine .bind (runs_reads _) (.bind (runs_reads _) ?_)
  dsimp only at hstart ⊢
  by_cases hnone : NR_BLK_DEV ≤ major (k.bh b).bDev ∨ (!(k.blkDev (major (k.bh b).bDev)).requestFn) = true
  · rw [if_pos hnone] at hstart
    rw [if_pos hnone]
    exact hstart
  rw [if_neg hnone] at hstart
  rw [if_neg hnone]
  refine .bind (runs_reads _) ?_
  by_cases hlock : (k.bh b).bLock = true
  · rw [if_pos hlock] at hstart
    rw [if_pos ⟨rfl, hlock⟩]
    exact hstart
  rw [if_neg hlock] at hstart
  rw [if_neg fun h => hlock h.2]
  -- the buffer is not locked, so that nothing is waited for
  have hlocks : Runs env (lockBuffer b) k () (k.setLock b true) :=
    .bind (runs_await (by simpa using hlock)) (runs_modify _)
  have hsame : ((k.setLock b true).bh b).bUptodate = (k.bh b).bUptodate := by
    simp [Kernel.setLock, Kernel.setBh]
  refine .bind hlocks (.bind (runs_reads _) ?_)
  by_cases hup : (k.bh b).bUptodate = true
  · rw [if_pos hup] at hstart
    rw [if_pos (show needless Rw.reada.cmd ((k.setLock b true).bh b) = true from hsame.trans hup)]
    have hdone := Runs.bind (runs_modify fun k => k.setLock b false) hstart
    exact hdone
  · rw [if_neg hup] at hstart
    rw [if_neg (show ¬ needless Rw.reada.cmd ((k.setLock b true).bh b) = true from fun h => hup (hsame.symm.trans h))]
    refine .bind (runs_reads _) ?_
    have hlimit : (if Rw.reada.cmd = Cmd.read then NR_REQUEST else NR_REQUEST * 2 / 3) = NR_REQUEST := rfl
    rw [hlimit]
    cases hslot : emptyRequest (k.setLock b true) NR_REQUEST with
    | none =>
        rw [hslot] at hstart
        exact Runs.bind (runs_modify fun k => k.setLock b false) hstart
    | some r =>
        rw [hslot] at hstart
        exact .bind (runs_modify fun k => fillRequest k Rw.reada.cmd b r) (runs_startRequest _ r hstart)

end Runs

/-! ## One further block -/

/-- A slot for a request is free. -/
def SlotFree (k : Kernel) : Prop := ∃ r < NR_REQUEST, (k.request r).dev < 0

/-- The device of the buffer has a driver. -/
def Driven (k : Kernel) (b : Nat) : Prop :=
  major (k.bh b).bDev < NR_BLK_DEV ∧ (k.blkDev (major (k.bh b).bDev)).requestFn = true

/-- The buffer is not up to date and not locked. -/
def Wanted (k : Kernel) (b : Nat) : Prop := (k.bh b).bUptodate = false ∧ (k.bh b).bLock = false

/-- **What should be done**: a request for a block that is not up to date and not locked, if a slot is free, and none
for another. -/
def Right (t : Turn) : Prop :=
  (∀ k ∈ t.called, Wanted k t.tmp → SlotFree k → t.issued = some t.tmp) ∧ ∀ b ∈ t.issued, b = t.tmp

/-- **When it is done.** No slot is free; or the block is the first one again, and its device has a driver if it is
wanted; or it is not wanted, and nothing can be asked for the first one. -/
def Harmless (t : Turn) : Prop :=
  ∀ k ∈ t.called, SlotFree k →
    if t.tmp = t.bh then Wanted k t.bh → Driven k t.bh else ¬ Wanted k t.tmp ∧ ¬ (Wanted k t.bh ∧ Driven k t.bh)

/-- The log tells what `ll_rw_block` came to. -/
def Told (t : Turn) : Prop :=
  match t.called with
  | none => t.issued = none
  | some k => t.issued = (llRwAhead t.bh k).1.issued

theorem emptyRequest_isSome (k : Kernel) (n : Nat) :
    (emptyRequest k n).isSome = true ↔ ∃ r < n, (k.request r).dev < 0 := by
  induction n with
  | zero => simp [emptyRequest]
  | succ n ih =>
      unfold emptyRequest
      by_cases hfree : (k.request n).dev < 0
      · rw [if_pos hfree]
        exact iff_of_true rfl ⟨n, Nat.lt_succ_self n, hfree⟩
      · rw [if_neg hfree, ih]
        constructor
        · rintro ⟨r, hr, hdev⟩
          exact ⟨r, by omega, hdev⟩
        · rintro ⟨r, hr, hdev⟩
          rcases Nat.lt_succ_iff_lt_or_eq.mp hr with hr | rfl
          · exact ⟨r, hr, hdev⟩
          · exact absurd hdev hfree

/-- When a request is made. -/
theorem issued_iff (k : Kernel) (b b' : Nat) :
    (llRwAhead b k).1.issued = some b' ↔ b' = b ∧ Driven k b ∧ Wanted k b ∧ SlotFree k := by
  unfold llRwAhead Driven Wanted
  dsimp only
  by_cases hnone : NR_BLK_DEV ≤ major (k.bh b).bDev ∨ (!(k.blkDev (major (k.bh b).bDev)).requestFn) = true
  · rw [if_pos hnone]
    refine iff_of_false (by simp) ?_
    rintro ⟨_, ⟨hlt, hfn⟩, _⟩
    rcases hnone with hle | hfn'
    · omega
    · simp [hfn] at hfn'
  rw [if_neg hnone]
  rw [not_or] at hnone
  have hdriven : major (k.bh b).bDev < NR_BLK_DEV ∧ (k.blkDev (major (k.bh b).bDev)).requestFn = true :=
    ⟨by omega, by simpa using hnone.2⟩
  by_cases hlock : (k.bh b).bLock = true
  · simp [hlock]
  rw [if_neg hlock]
  by_cases hup : (k.bh b).bUptodate = true
  · simp [hup]
  rw [if_neg hup]
  have hslot : (emptyRequest (k.setLock b true) NR_REQUEST).isSome = true ↔ SlotFree k :=
    emptyRequest_isSome (k.setLock b true) NR_REQUEST
  cases hempty : emptyRequest (k.setLock b true) NR_REQUEST with
  | none =>
      rw [hempty] at hslot
      refine iff_of_false (by simp) ?_
      rintro ⟨_, _, _, hfree⟩
      simpa using hslot.mpr hfree
  | some r =>
      rw [hempty] at hslot
      have hfree : SlotFree k := hslot.mp rfl
      simp [hdriven, hlock, hup, hfree, eq_comm]

/-- **When one further block is dealt with as it should be.** -/
theorem right_iff {t : Turn} (ht : Told t) : Right t ↔ Harmless t := by
  unfold Told at ht
  cases hcalled : t.called with
  | none =>
      rw [hcalled] at ht
      simp only at ht
      simp [Right, Harmless, hcalled, ht]
  | some k =>
      rw [hcalled] at ht
      simp only at ht
      have hissued : ∀ b, t.issued = some b ↔ b = t.bh ∧ Driven k t.bh ∧ Wanted k t.bh ∧ SlotFree k := by
        intro b
        rw [ht]
        exact issued_iff k t.bh b
      simp only [Right, Harmless, hcalled, Option.mem_def, Option.some.injEq, forall_eq', hissued]
      by_cases hfree : SlotFree k
      · by_cases hsame : t.tmp = t.bh
        · rw [hsame]
          simp only [if_true, hfree]
          tauto
        · simp only [hsame, if_false, hfree, false_and, imp_false]
          constructor
          · rintro ⟨hown, hother⟩
            refine fun _ => ⟨fun hw => hown hw trivial, ?_⟩
            rintro ⟨hw, hd⟩
            exact hsame (hother t.bh ⟨rfl, hd, hw, trivial⟩).symm
          · intro hall
            obtain ⟨hown, hother⟩ := hall trivial
            refine ⟨fun hw _ => hown hw, ?_⟩
            rintro b ⟨_, hd, hw, _⟩
            exact absurd ⟨hw, hd⟩ hother
      · simp [hfree]

/-! ## The references of the loop -/

/-- What the log says about a further block. -/
structure TurnOk (dev : Dev) (bh : Nat) (block : Block) (t : Turn) : Prop where
  first : t.bh = bh
  told : Told t
  /-- `tmp` is the buffer of the block. -/
  key : ∀ k ∈ t.called, k.key t.tmp = (dev, block)

/-- The numbers before the first negative one. -/
def listed (args : List Block) : List Block := args.takeWhile fun block => !block.msb

theorem untaken_llRwAhead (b : Nat) (k : Kernel) : Untaken k (llRwAhead b k).2 := by
  have hlock : Untaken k ((k.setLock b true).setLock b false) :=
    (Untaken.setLock k b true).trans (.setLock _ b false)
  unfold llRwAhead
  dsimp only
  split
  · exact .refl k
  split
  · exact .refl k
  split
  · exact hlock
  split
  · exact hlock
  · rename_i r _
    exact ((Untaken.setLock k b true).trans (untaken_setRequest _ r _)).trans (untaken_addRequest _ r _)

section Safe

variable {n N p : Nat} {W : Ledger → Prop} {r : Ledger}

theorem startDriver_safe (driver : Option Nat) (k : Kernel) :
    (discipline n N).Safe p W (Same r) (startDriver driver) r k := by
  cases driver with
  | none => exact Safe.pure rfl
  | some m =>
      refine Safe.bind (Safe.any (Q := Same r) fun _ => rfl) ?_
      rintro ended _ k rfl
      refine modify_same (fun k => ?_) k
      induction ended generalizing k with
      | nil => exact .refl k
      | cons u ended ih => exact (Steady.endRequest m u k).toUntaken.trans (ih _)

theorem readAhead_safe {dev : Dev} {block : Block} {bh tmp : Nat} {k : Kernel} (hkey : k.key tmp = (dev, block)) :
    (discipline n N).Safe p W (fun t r' _ => r = r' ∧ t.tmp = tmp ∧ TurnOk dev bh block t) (readAhead bh tmp) r k := by
  refine Safe.reads fun k₁ _ hcalm₁ _ _ => ?_
  have hkey₁ : k₁.key tmp = (dev, block) := by
    rw [(steady_calm hcalm₁).queues.2.key]
    exact hkey
  split
  · exact Safe.pure ⟨rfl, rfl, rfl, rfl, by simp⟩
  refine Safe.bind (Q := fun x r' _ => r = r' ∧ x.1.tmp = tmp ∧ TurnOk dev bh block x.1) (Safe.atomic ?_) ?_
  · intro k₂ g hcalm₂ hinv hg hW
    refine ⟨_, _, rfl, fun _ => ⟨r, hW, ?_, (untaken_llRwAhead bh k₂).reassigns, rfl, rfl, rfl, rfl, ?_⟩⟩
    · rw [Safe.update_self hg]
      exact (untaken_llRwAhead bh k₂).counted hinv
    · intro k hk
      obtain rfl := Option.some.inj hk
      rw [(steady_calm hcalm₂).queues.2.key]
      exact hkey₁
  · rintro ⟨t, driver⟩ _ k₂ ⟨rfl, htmp, hturn⟩
    refine Safe.bind (startDriver_safe driver k₂) ?_
    rintro _ _ k₃ rfl
    exact Safe.pure ⟨rfl, htmp, hturn⟩

variable (hp : p < N) (hW : Room W r)
include hp hW

/-- **The loop** takes each buffer and lets it go. -/
theorem readAheads_safe (fuel : Nat) (dev : Dev) (bh : Nat) (args : List Block) (k : Kernel) :
    (discipline n N).Safe p W (fun log r' _ => r = r' ∧ List.Forall₂ (TurnOk dev bh) (listed args) log)
      (readAheads fuel dev bh args) r k := by
  induction args generalizing k with
  | nil => exact Safe.pure ⟨rfl, .nil⟩
  | cons block args ih =>
      unfold readAheads
      by_cases hneg : block.msb = true
      · rw [if_pos hneg]
        exact Safe.pure ⟨rfl, by simp [listed, hneg]⟩
      rw [if_neg hneg]
      refine Safe.bind (sysGetblk_safe hp hW fuel dev block k) ?_
      rintro tmp _ k₁ ⟨rfl, _, hkey, _⟩
      refine Safe.bind (readAhead_safe hkey) ?_
      rintro t _ k₂ ⟨rfl, rfl, hturn⟩
      refine Safe.bind (drop_safe hp hW.1 t.tmp k₂) ?_
      rintro _ _ k₃ rfl
      refine Safe.bind (ih k₃) ?_
      rintro log _ k₄ ⟨rfl, hlog⟩
      refine Safe.pure ⟨rfl, ?_⟩
      have hlisted : listed (block :: args) = block :: listed args := by
        simp [listed, hneg]
      rw [hlisted]
      exact .cons hturn hlog

theorem fetch_safe (fuel : Nat) (dev : Dev) (bh : Nat) (args : List Block) (uptodate : Bool) (k : Kernel) :
    (discipline n N).Safe p W (fun log r' _ => r = r' ∧ List.Forall₂ (TurnOk dev bh) (listed args) log)
      (fetch fuel dev bh args uptodate) r k := by
  have hrest : ∀ k, (discipline n N).Safe p W
      (fun log r' _ => r = r' ∧ List.Forall₂ (TurnOk dev bh) (listed args) log)
      (do
        let log ← readAheads fuel dev bh args
        waitOnBuffer bh
        return log) r k := by
    intro k
    refine Safe.bind (readAheads_safe hp hW fuel dev bh args k) ?_
    rintro log _ k₁ ⟨rfl, hlog⟩
    refine Safe.bind (waitOnBuffer_safe bh k₁) ?_
    rintro _ _ k₂ ⟨rfl, _⟩
    exact Safe.pure ⟨rfl, hlog⟩
  cases uptodate with
  | true => exact hrest k
  | false =>
      refine Safe.bind (llRwBlock_safe fuel .read bh k) ?_
      rintro _ _ k₁ rfl
      exact hrest k₁

end Safe

/-! ## A buffer that is held keeps its block -/

/-- What a process holds, and the block of a buffer among them. -/
structure Pinned where
  held : Ledger
  pin : Option (Nat × Dev × Block)

/-- The buffers that are pinned have their blocks. -/
def Pins (n N : Nat) (k : Kernel) (g : Nat → Pinned) : Prop :=
  ∀ p < N, ∀ b key, (g p).pin = some (b, key) → b < n ∧ 1 ≤ (g p).held b ∧ k.key b = key

/-- What others do while a process sleeps. -/
def Anything : Nat → Kernel → Kernel → Prop := fun _ _ _ => True

theorem anything (p : Nat) (k k' : Kernel) : Anything p k k' := trivial

theorem reassigns_refl (_ : Nat) (k : Kernel) : Reassigns k k := (Untaken.refl k).reassigns

/-- An interrupt leaves the counts and the pins. -/
theorem counted_pins_irq {n N : Nat} (k k' : Kernel) (g : Nat → Pinned) (hirq : Interrupt k k')
    (h : Counted n N k (fun p => (g p).held) ∧ Pins n N k g) :
    Counted n N k' (fun p => (g p).held) ∧ Pins n N k' g := by
  have hsteady := Steady.interrupt hirq
  refine ⟨hsteady.counted h.1, ?_⟩
  intro p hp b key hpin
  rw [hsteady.queues.2.key]
  exact h.2 p hp b key hpin

/-- **The discipline of the buffer cache, with pins.** -/
def pinned (n N : Nat) : Discipline Kernel Pinned where
  inv := fun k g => Counted n N k (fun p => (g p).held) ∧ Pins n N k g
  fits := Fits
  irq := Interrupt
  rely := Anything
  guar := fun _ => Reassigns
  inv_irq := counted_pins_irq
  rely_refl := fun p k => anything p k k
  rely_trans := fun p k _ k'' _ _ => anything p k k''
  rely_irq := fun p k k' _ => anything p k k'
  guar_refl := reassigns_refl
  guar_rely := fun p _ k k' _ _ => anything p k k'

section Pinned

variable {n N p : Nat} {α β : Type}

/-- A buffer with a holder is not given another block. -/
theorem key_of_held {k k' : Kernel} {g : Nat → Ledger} {b : Nat} (hk : Counted n N k g) (hp : p < N) (hb : b < n)
    (hheld : 1 ≤ g p b) (hkeys : Reassigns k k') : k'.key b = k.key b := by
  by_contra hne
  have hzero := (hkeys b hne).1
  have hcount := hk.count b hb
  have hle := le_total hp g b
  have hnobody : (0 : BitVec 8).toNat = 0 := rfl
  rw [hzero, hnobody] at hcount
  omega

/-- The ledgers of a process that changes its own. -/
theorem held_update (g : Nat → Pinned) (R : Pinned) :
    (fun q => (Function.update g p R q).held) = Function.update (fun q => (g q).held) p R.held := by
  funext q
  by_cases hq : q = p
  · subst hq
    simp
  · simp [Function.update_of_ne hq]

/-- **A thread that keeps the discipline keeps the pins**, as long as its process holds what it has pinned. -/
theorem pin_safe {t : Thread Kernel α} {W : Ledger → Prop} {Q : α → Ledger → Kernel → Prop} {W' : Pinned → Prop}
    {pin : Option (Nat × Dev × Block)} (hp : p < N) (hW' : ∀ r, W r → W' ⟨r, pin⟩)
    (hheld : ∀ r, W r → ∀ b key, pin = some (b, key) → 1 ≤ r b) {r : Ledger} {k : Kernel} (hr : W r)
    (h : (discipline n N).Safe p W Q t r k) :
    (pinned n N).Safe p W' (fun a R k => R.pin = pin ∧ W R.held ∧ Q a R.held k) t ⟨r, pin⟩ k := by
  induction t generalizing r k with
  | ret a => exact ⟨rfl, hr, h⟩
  | act f t ih =>
      intro k' g hcalm hinv hg _ hfits
      obtain ⟨r', hr', hinv', hguar, hrest⟩ := h k' (fun q => (g q).held) hcalm hinv.1 (by rw [hg]) hr hfits
      refine ⟨⟨r', pin⟩, hW' r' hr', ⟨?_, ?_⟩, hguar, ih k' hr' hrest⟩
      · rw [held_update]
        exact hinv'
      · intro q hq b key hpin
        by_cases hqp : q = p
        · subst hqp
          rw [Function.update_self] at hpin ⊢
          have hpinned : (g q).pin = some (b, key) := by
            rw [hg]
            exact hpin
          obtain ⟨hb, hone, hkey⟩ := hinv.2 q hq b key hpinned
          refine ⟨hb, hheld r' hr' b key hpin, ?_⟩
          rw [key_of_held hinv.1 hq hb hone hguar]
          exact hkey
        · rw [Function.update_of_ne hqp] at hpin ⊢
          obtain ⟨hb, hone, hkey⟩ := hinv.2 q hq b key hpin
          refine ⟨hb, hone, ?_⟩
          rw [key_of_held hinv.1 hq hb hone hguar]
          exact hkey
  | sleep w t ih => exact fun k' hrely hw => ih hr (h k' hrely hw)
  | choose t ih => exact fun x => ih x hr (h x)
  | stop => trivial
  | fault => exact h

/-- A test, with which the process changes its pin. -/
theorem reads_pin {f : Kernel → α} {t : α → Thread Kernel β} {W : Pinned → Prop} {Q : β → Pinned → Kernel → Prop}
    {r : Ledger} {pin : Option (Nat × Dev × Block)} {k : Kernel}
    (h : ∀ k' g, (discipline n N).Calm k k' → (pinned n N).inv k' g → g p = ⟨r, pin⟩ → ∃ pin',
      W ⟨r, pin'⟩ ∧ (∀ b key, pin' = some (b, key) → b < n ∧ 1 ≤ r b ∧ k'.key b = key) ∧
        (pinned n N).Safe p W Q (t (f k')) ⟨r, pin'⟩ k') :
    (pinned n N).Safe p W Q (Thread.reads f >>= t) ⟨r, pin⟩ k := by
  intro k' g hcalm hinv hg _ _
  obtain ⟨pin', hW, hpins, hsafe⟩ := h k' g hcalm hinv hg
  refine ⟨⟨r, pin'⟩, hW, ⟨?_, ?_⟩, (Untaken.refl k').reassigns, hsafe⟩
  · rw [held_update]
    have hsame : (fun q => (g q).held) p = r := congrArg Pinned.held hg
    rw [Safe.update_self hsame]
    exact hinv.1
  · intro q hq b key hpin
    by_cases hqp : q = p
    · subst hqp
      rw [Function.update_self] at hpin ⊢
      exact hpins b key hpin
    · rw [Function.update_of_ne hqp] at hpin ⊢
      exact hinv.2 q hq b key hpin

end Pinned

/-! ## `bread` and `breada` -/

/-- What comes of a block: the buffer of the block, up to date, or nothing. -/
def Fetched (n : Nat) (dev : Dev) (block : Block) (result : Option Nat) (k : Kernel) : Prop :=
  ∀ b ∈ result, b < n ∧ k.key b = (dev, block) ∧ (k.bh b).bUptodate = true

/-- What the caller holds afterwards. -/
def held (r : Ledger) : Option Nat → Ledger
  | none => r
  | some b => hold b r

/-- What it holds meanwhile: at most two buffers more. -/
def Within (r r' : Ledger) : Prop := r' = r ∨ ∃ b, r' = hold b r ∨ ∃ b', r' = hold b' (hold b r)

/-- What a call leads to. -/
def Ends (n : Nat) (dev : Dev) (block : Block) (r : Ledger) (result : Option Nat) (R : Pinned) (k : Kernel) : Prop :=
  R = ⟨held r result, none⟩ ∧ Fetched n dev block result k

section Calls

variable {n N p : Nat} {r : Ledger} (hp : p < N)
include hp

/-- `getblk`, from outside. -/
theorem getblk_pinned (fuel : Nat) (dev : Dev) (block : Block) (k : Kernel) :
    (pinned n N).Safe p (fun R => Within r R.held) (fun b R k => R = ⟨hold b r, none⟩ ∧ b < n ∧ k.key b = (dev, block))
      (sysGetblk fuel dev block) ⟨r, none⟩ k := by
  have hroom : Room (fun r' => r' = r ∨ ∃ b, r' = hold b r) r := ⟨.inl rfl, fun b => .inr ⟨b, rfl⟩⟩
  refine Safe.mono (pin_safe hp ?_ (by simp) hroom.1 (sysGetblk_safe hp hroom fuel dev block k)) ?_
  · rintro r' (rfl | ⟨b, rfl⟩)
    · exact .inl rfl
    · exact .inr ⟨b, .inl rfl⟩
  · rintro b ⟨r', pin⟩ k ⟨rfl, _, rfl, hb, hkey, _⟩
    exact ⟨rfl, hb, hkey⟩

/-- The end of both: the last test, and `brelse` if it fails. -/
theorem last_pinned {α : Type} {b : Nat} {key : Dev × Block} {g : Option Nat → α} {Q : α → Pinned → Kernel → Prop}
    (hsome : ∀ k, b < n → k.key b = key → (k.bh b).bUptodate = true → Q (g (some b)) ⟨hold b r, none⟩ k)
    (hnone : ∀ k, Q (g none) ⟨r, none⟩ k) (k : Kernel) :
    (pinned n N).Safe p (fun R => Within r R.held) Q
      (do
        if ← .reads fun k => (k.bh b).bUptodate then return g (some b)
        brelse (some b)
        return g none) ⟨hold b r, some (b, key)⟩ k := by
  refine reads_pin fun k' ledger _ hinv hg => ⟨none, .inr ⟨b, .inl rfl⟩, by simp, ?_⟩
  obtain ⟨hb, _, hkey⟩ := hinv.2 p hp b key (by rw [hg])
  by_cases hup : (k'.bh b).bUptodate = true
  · rw [if_pos hup]
    exact Safe.pure (hsome k' hb hkey hup)
  · rw [if_neg hup]
    have hsafe : (discipline n N).Safe p (fun r' => r' = r ∨ r' = hold b r) (Same r) (brelse (some b)) (hold b r) k' :=
      brelse_safe hp (Or.inl rfl) b k'
    refine Safe.bind (pin_safe hp ?_ (by simp) (Or.inr rfl) hsafe) ?_
    · rintro r' (rfl | rfl)
      · exact .inl rfl
      · exact .inr ⟨b, .inl rfl⟩
    · rintro _ ⟨r', pin⟩ k₁ ⟨rfl, _, rfl⟩
      exact Safe.pure (hnone k₁)

omit hp in
/-- The buffer that has just been found is pinned. -/
theorem pin_key {b : Nat} {dev : Dev} {block : Block} {k k' : Kernel} (hb : b < n) (hkey : k.key b = (dev, block))
    (hcalm : (discipline n N).Calm k k') (b' : Nat) (key : Dev × Block)
    (hpin : some (b, dev, block) = some (b', key)) : b' < n ∧ 1 ≤ hold b r b' ∧ k'.key b' = key := by
  cases hpin
  rw [(steady_calm hcalm).queues.2.key]
  exact ⟨hb, by simp, hkey⟩

/-- While a buffer is pinned, a thread may hold one more. -/
theorem middle_pinned {α : Type} {b : Nat} {key : Dev × Block} {t : Thread Kernel α} {Q : α → Prop} {k : Kernel}
    (h : (discipline n N).Safe p (fun r' => r' = hold b r ∨ ∃ b', r' = hold b' (hold b r))
      (fun a r' _ => hold b r = r' ∧ Q a) t (hold b r) k) :
    (pinned n N).Safe p (fun R => Within r R.held) (fun a R _ => R = ⟨hold b r, some (b, key)⟩ ∧ Q a) t
      ⟨hold b r, some (b, key)⟩ k := by
  refine Safe.mono (pin_safe hp ?_ ?_ (Or.inl rfl) h) ?_
  · rintro r' (rfl | ⟨b', rfl⟩)
    · exact .inr ⟨b, .inl rfl⟩
    · exact .inr ⟨b, .inr ⟨b', rfl⟩⟩
  · rintro r' hr' b₁ key₁ hpin
    cases hpin
    rcases hr' with rfl | ⟨b', rfl⟩
    · simp
    · by_cases hb : b = b'
      · subst hb
        simp
      · rw [hold_of_ne hb]
        simp
  · rintro a ⟨r', pin⟩ _ ⟨rfl, _, rfl, hQ⟩
    exact ⟨rfl, hQ⟩

/-- **`bread`.** -/
theorem bread_pinned (fuel : Nat) (dev : Dev) (block : Block) (k : Kernel) :
    (pinned n N).Safe p (fun R => Within r R.held) (Ends n dev block r) (bread (sysGetblk fuel) fuel dev block)
      ⟨r, none⟩ k := by
  refine Safe.bind (getblk_pinned hp fuel dev block k) ?_
  rintro b _ k₁ ⟨rfl, hb, hkey⟩
  refine reads_pin fun k₂ _ hcalm _ _ => ?_
  by_cases hup : (k₂.bh b).bUptodate = true
  · -- nothing has happened since it was found
    refine ⟨none, .inr ⟨b, .inl rfl⟩, by simp, ?_⟩
    rw [if_pos hup]
    refine Safe.pure ⟨rfl, ?_⟩
    rintro b' ⟨⟩
    refine ⟨hb, ?_, hup⟩
    rw [(steady_calm hcalm).queues.2.key]
    exact hkey
  · refine ⟨some (b, dev, block), .inr ⟨b, .inl rfl⟩, pin_key hb hkey hcalm, ?_⟩
    rw [if_neg hup]
    refine Safe.bind (middle_pinned hp (Q := fun _ => True)
      (Safe.mono (llRwBlock_safe fuel .read b k₂) fun _ _ _ h => ⟨h, trivial⟩)) ?_
    rintro _ _ k₃ ⟨rfl, _⟩
    refine Safe.bind (middle_pinned hp (Q := fun _ => True)
      (Safe.mono (waitOnBuffer_safe b k₃) fun _ _ _ h => ⟨h.1, trivial⟩)) ?_
    rintro _ _ k₄ ⟨rfl, _⟩
    refine last_pinned hp (g := id) (fun k hb hkey hup => ⟨rfl, ?_⟩) (fun k => ⟨rfl, by simp [Fetched]⟩) k₄
    rintro b' ⟨⟩
    exact ⟨hb, hkey, hup⟩

/-- **`breada`** leads to what `bread` does, and to a log of the further blocks. -/
theorem breada_pinned (fuel : Nat) (dev : Dev) (first : Block) (args : List Block) (k : Kernel) :
    (pinned n N).Safe p (fun R => Within r R.held)
      (fun x R k => Ends n dev first r x.1 R k ∧
        ∃ bh, (∀ b ∈ x.1, b = bh) ∧ List.Forall₂ (TurnOk dev bh) (listed args) x.2)
      (breada fuel dev first args) ⟨r, none⟩ k := by
  refine Safe.bind (getblk_pinned hp fuel dev first k) ?_
  rintro b _ k₁ ⟨rfl, hb, hkey⟩
  refine reads_pin fun k₂ _ hcalm _ _ => ?_
  refine ⟨some (b, dev, first), .inr ⟨b, .inl rfl⟩, pin_key hb hkey hcalm, ?_⟩
  have hroom : Room (fun r' => r' = hold b r ∨ ∃ b', r' = hold b' (hold b r)) (hold b r) :=
    ⟨.inl rfl, fun b' => .inr ⟨b', rfl⟩⟩
  refine Safe.bind (middle_pinned hp (fetch_safe hp hroom fuel dev b args _ k₂)) ?_
  rintro log _ k₃ ⟨rfl, hlog⟩
  refine last_pinned hp (g := fun result => (result, log)) (fun k hb hkey hup => ⟨⟨rfl, ?_⟩, b, ?_, hlog⟩)
    (fun k => ⟨⟨rfl, by simp [Fetched]⟩, b, by simp, hlog⟩) k₃
  · rintro b' ⟨⟩
    exact ⟨hb, hkey, hup⟩
  · rintro b' ⟨⟩
    rfl

end Calls

/-! ## Processes -/

/-- What a process calls. -/
inductive Call where
  | other (c : Holders.Call)
  | bread (dev : Dev) (block : Block)
  | breada (dev : Dev) (first : Block) (args : List Block)

namespace Call

/-- One call: the buffer that it hands over, and its log. -/
def thread (fuel : Nat) : Call → Thread Kernel (Option Nat × List Turn)
  | other c => do return (← c.thread fuel, [])
  | bread dev block => do return (← Fs.bread (sysGetblk fuel) fuel dev block, [])
  | breada dev first args => Breada.breada fuel dev first args

/-- What the caller holds afterwards. -/
def after (c : Call) (result : Option Nat × List Turn) (r : Ledger) : Ledger :=
  match c with
  | other c => c.after result.1 r
  | _ => held r result.1

/-- What it holds meanwhile. -/
def within (c : Call) (r : Ledger) (R : Pinned) : Prop :=
  match c with
  | other c => c.Within r R.held
  | _ => Within r R.held

/-- What the result is. -/
def Returns (n : Nat) (c : Call) (result : Option Nat × List Turn) (k : Kernel) : Prop :=
  match c with
  | other _ => True
  | bread dev block => Fetched n dev block result.1 k
  | breada dev first args => Fetched n dev first result.1 k ∧
      ∃ bh, (∀ b ∈ result.1, b = bh) ∧ List.Forall₂ (TurnOk dev bh) (listed args) result.2

end Call

/-- `N` processes that use `n` buffers. Only what is held is released. -/
def reading (n N fuel : Nat) : Server Kernel Pinned Ledger Call (Option Nat × List Turn) where
  toDiscipline := pinned n N
  thread := fun _ => Call.thread fuel
  rest := fun r R => R = ⟨r, none⟩
  pre := fun p c r _ => p < N ∧ ∀ b, c = .other (.brelse b) → 1 ≤ r b
  after := Call.after
  within := Call.within
  post := fun p c result k => p < N ∧ c.Returns n result k

theorem reading_sound (n N fuel : Nat) : (reading n N fuel).Sound := by
  rintro p c r _ k ⟨hp, hheld⟩ rfl
  cases c with
  | other c =>
      obtain ⟨hW, hsafe⟩ := cache_sound n N fuel p c r r k ⟨hp, fun b hb => hheld b (congrArg Call.other hb)⟩ rfl
      refine ⟨hW, ?_⟩
      have hpinned : (pinned n N).Safe p (fun R => c.Within r R.held) _ (c.thread fuel) ⟨r, none⟩ k :=
        pin_safe hp (fun _ h => h) (by simp) hW hsafe
      refine Safe.bind hpinned ?_
      rintro result ⟨r', pin⟩ k ⟨rfl, _, hrest, _⟩
      refine Safe.pure ⟨?_, hp, trivial⟩
      exact congrArg (fun r => Pinned.mk r none) hrest
  | bread dev block =>
      refine ⟨.inl rfl, Safe.bind (bread_pinned hp fuel dev block k) ?_⟩
      rintro result _ k ⟨rfl, hfetched⟩
      exact Safe.pure ⟨rfl, hp, hfetched⟩
  | breada dev first args =>
      refine ⟨.inl rfl, Safe.mono (breada_pinned hp fuel dev first args k) ?_⟩
      rintro result _ k ⟨⟨rfl, hfetched⟩, hlog⟩
      exact ⟨rfl, hp, hfetched, hlog⟩

/-! ## Runs -/

abbrev Config := Pool Kernel Ledger Call (Option Nat × List Turn)

/-- **What `bread` does**: it returns the buffer of the block, which it has found up to date, or nothing; and the caller
holds that buffer once more than before. -/
structure LikeBread (n N : Nat) (p : Nat) (dev : Dev) (block : Block) (r : Ledger) (result : Option Nat) (k : Kernel) :
    Prop where
  fetched : ∃ k₀, (discipline n N).Calm k₀ k ∧ Fetched n dev block result k₀
  key : ∀ b ∈ result, k.key b = (dev, block)
  count : ∃ g : Nat → Ledger, (∀ b < n, (k.bh b).bCount.toNat = total N g b) ∧ g p = held r result

section Runs

variable {n N fuel p : Nat} {k : Kernel} {g : Nat → Ledger} {c : Config}

theorem start_ok (h : Counted n N k g) : (pinned n N).inv k fun p => ⟨g p, none⟩ := ⟨h, by simp [Pins]⟩

/-- A call that has returned. -/
theorem returned {call : Call} {r : Ledger} {result : Option Nat × List Turn} (h : Counted n N k g)
    (hr : (reading n N fuel).Reaches Fits ⟨k, fun p => .idle (g p), none⟩ c) (hcpu : c.cpu = some p)
    (hp : c.proc p = .busy call r (.ret result)) :
    ∃ g' k₀, Counted n N c.state g' ∧ g' p = call.after result r ∧ (discipline n N).Calm k₀ c.state ∧
      call.Returns n result k₀ := by
  obtain ⟨g', hok⟩ := Server.run (reading_sound n N fuel) (start_ok h) (fun _ => rfl) hr
  obtain ⟨s, proc, cpu⟩ := c
  have hcpu : cpu = some p := hcpu
  subst hcpu
  obtain ⟨_, s₀, hcalm, hends⟩ := hok.running hp
  have hrest : g' p = ⟨call.after result r, none⟩ := hends.1
  exact ⟨_, s₀, hok.inv.1, congrArg Pinned.held hrest, hcalm, hends.2.2⟩

theorem likeBread_of {dev : Dev} {block : Block} {r : Ledger} {result : Option Nat} {g' : Nat → Ledger}
    {k₀ k : Kernel} (hcount : Counted n N k g') (hledger : g' p = held r result)
    (hcalm : (discipline n N).Calm k₀ k) (hfetched : Fetched n dev block result k₀) :
    LikeBread n N p dev block r result k where
  fetched := ⟨k₀, hcalm, hfetched⟩
  key := by
    intro b hb
    rw [(steady_calm hcalm).queues.2.key]
    exact (hfetched b hb).2.1
  count := ⟨g', hcount.count, hledger⟩

/-- **`bread`** does what it does. -/
theorem bread_likeBread {dev : Dev} {block : Block} {r : Ledger} {result : Option Nat} {log : List Turn}
    (h : Counted n N k g) (hr : (reading n N fuel).Reaches Fits ⟨k, fun p => .idle (g p), none⟩ c)
    (hcpu : c.cpu = some p) (hp : c.proc p = .busy (.bread dev block) r (.ret (result, log))) :
    LikeBread n N p dev block r result c.state := by
  obtain ⟨g', k₀, hcount, hledger, hcalm, hfetched⟩ := returned h hr hcpu hp
  exact likeBread_of hcount hledger hcalm hfetched

end Runs

end Breada
end Fs
end Linux095
