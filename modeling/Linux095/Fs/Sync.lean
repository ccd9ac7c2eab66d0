import Linux095.Fs.Types

/-!
# `Fs.Sync` — `sys_sync` and `sync_dev` (`fs/buffer.c`, `fs/inode.c`)

A sync makes passes over the inode table and over the free list, which is one ring of all buffers. A pass over
the buffers takes `NR_BUFFERS` steps along `b_next_free` and sleeps on the way; meanwhile every cache hit of
another process moves a buffer to the end of that ring.

* `Step` — one step of the sync, or of the other processes;
* `Complete` — nothing that was dirty when the sync began has still to be handed to the block layer;
* `Clear` — the condition: what the last pass has still to write stays within its reach;
* `complete_of_clear` — a sync whose steps are clear is complete when it returns;
* `misses_buffer` — without that it need not be.
-/

namespace Linux095
namespace Fs
namespace Sync

/-! ## The ring -/

/-- `l` is `b` followed by `x` and `a`, so that `x` is followed on the ring by `a` and then by `b`. -/
def Around (l : List Nat) (x : Nat) (r : List Nat) : Prop := ∃ b a, l = b ++ x :: a ∧ r = a ++ b

/-- `x->b_next_free`. -/
def NextFree (l : List Nat) (x y : Nat) : Prop := ∃ r, Around l x r ∧ (r ++ [x]).head? = some y

/-- `put_last_free`: `x` goes to the end of the ring. -/
def putLast (l : List Nat) (x : Nat) : List Nat := l.erase x ++ [x]

/-- One of the `n` buffers from `x` on. -/
def Within (l : List Nat) (x n y : Nat) : Prop := ∃ r, Around l x r ∧ y ∈ (x :: r).take n

/-! ## The sync and the other processes -/

inductive Pass where
  | buffers
  | inodes
  deriving DecidableEq

/-- The passes of `sys_sync`. -/
def sysSync : List Pass := [.inodes, .buffers]

/-- The passes of `sync_dev`. -/
def syncDev : List Pass := [.buffers, .inodes, .buffers]

/-- Where the sync is, with the passes still to make. -/
inductive Pc where
  | next (todo : List Pass)
  /-- `sync_buffers` with `left` steps still to make, at the buffer `bh`. -/
  | visit (left bh : Nat) (todo : List Pass)
  /-- In `ll_rw_block(WRITE,bh)`. -/
  | write (left bh : Nat) (todo : List Pass)
  /-- Before `bh = bh->b_next_free`. -/
  | leave (left bh : Nat) (todo : List Pass)
  /-- `sync_inodes`, at the inode `i`. -/
  | inode (i : Nat) (todo : List Pass)
  /-- In `write_inode`. -/
  | writeInode (i : Nat) (todo : List Pass)

/-- The buffers in the order of the free list, and the flags. `bufOwed` and `inodeOwed` are what was dirty when
    the sync began and whose contents of then or later have still to be handed to the block layer; an inode
    that is written into a buffer is owed through it. -/
structure Config where
  free : List Nat
  bDirt : Nat → Bool
  iDirt : Nat → Bool
  iPipe : Nat → Bool
  bufOwed : Nat → Bool
  inodeOwed : Nat → Bool
  pc : Pc

namespace Config

/-- `ll_rw_block` has queued a write of `bh`. -/
def hand (c : Config) (bh : Nat) : Config :=
  { c with bDirt := fun x => if x = bh then false else c.bDirt x
           bufOwed := fun x => if x = bh then false else c.bufOwed x }

/-- `minix_write_inode` has copied the inode `i` to the buffer `bh`. -/
def writeInode (c : Config) (i bh : Nat) : Config :=
  { c with iDirt := fun x => if x = i then false else c.iDirt x
           inodeOwed := fun x => if x = i then false else c.inodeOwed x
           bDirt := fun x => if x = bh then true else c.bDirt x
           bufOwed := fun x => if x = bh then c.bufOwed bh || c.inodeOwed i else c.bufOwed x }

end Config

/-- What a step is about. -/
inductive Event where
  /-- Another process's `get_hash_table` or `getblk` moves a buffer to the end of the free list. -/
  | move (x : Nat)
  /-- Another process's `bread` queues a read of a buffer. -/
  | read (x : Nat)
  | other

/-- One step. The other processes may step between any two steps of the sync. -/
inductive Step : Config → Event → Config → Prop
  | buffers {c : Config} {bh : Nat} {todo : List Pass} (hpc : c.pc = .next (.buffers :: todo))
      (hhead : c.free.head? = some bh) : Step c .other { c with pc := .visit c.free.length bh todo }
  | buffersDone {c : Config} {bh : Nat} {todo : List Pass} (hpc : c.pc = .visit 0 bh todo) :
      Step c .other { c with pc := .next todo }
  | clean {c : Config} {left bh : Nat} {todo : List Pass} (hpc : c.pc = .visit (left + 1) bh todo)
      (hd : c.bDirt bh = false) : Step c .other { c with pc := .leave left bh todo }
  | dirty {c : Config} {left bh : Nat} {todo : List Pass} (hpc : c.pc = .visit (left + 1) bh todo)
      (hd : c.bDirt bh = true) : Step c .other { c with pc := .write left bh todo }
  | hand {c : Config} {left bh : Nat} {todo : List Pass} (hpc : c.pc = .write left bh todo)
      (hd : c.bDirt bh = true) : Step c .other { c.hand bh with pc := .leave left bh todo }
  | cleaned {c : Config} {left bh : Nat} {todo : List Pass} (hpc : c.pc = .write left bh todo)
      (hd : c.bDirt bh = false) : Step c .other { c with pc := .leave left bh todo }
  | advance {c : Config} {left bh bh' : Nat} {todo : List Pass} (hpc : c.pc = .leave left bh todo)
      (hnext : NextFree c.free bh bh') : Step c .other { c with pc := .visit left bh' todo }
  | inodes {c : Config} {todo : List Pass} (hpc : c.pc = .next (.inodes :: todo)) :
      Step c .other { c with pc := .inode 0 todo }
  | inodesDone {c : Config} {i : Nat} {todo : List Pass} (hpc : c.pc = .inode i todo) (hi : NR_INODE ≤ i) :
      Step c .other { c with pc := .next todo }
  | inodeClean {c : Config} {i : Nat} {todo : List Pass} (hpc : c.pc = .inode i todo) (hi : i < NR_INODE)
      (hd : c.iDirt i = false ∨ c.iPipe i = true) : Step c .other { c with pc := .inode (i + 1) todo }
  | inodeDirty {c : Config} {i : Nat} {todo : List Pass} (hpc : c.pc = .inode i todo) (hi : i < NR_INODE)
      (hd : c.iDirt i = true) (hpipe : c.iPipe i = false) : Step c .other { c with pc := .writeInode i todo }
  | inodeWritten {c : Config} {i bh : Nat} {todo : List Pass} (hpc : c.pc = .writeInode i todo)
      (hd : c.iDirt i = true) (hbh : bh ∈ c.free) :
      Step c .other { c.writeInode i bh with pc := .inode (i + 1) todo }
  | inodeCleaned {c : Config} {i : Nat} {todo : List Pass} (hpc : c.pc = .writeInode i todo)
      (hd : c.iDirt i = false) : Step c .other { c with pc := .inode (i + 1) todo }
  | move {c : Config} {x : Nat} (hx : x ∈ c.free) : Step c (.move x) { c with free := putLast c.free x }
  | read {c : Config} {x : Nat} (hx : x ∈ c.free) :
      Step c (.read x) { c with bDirt := fun y => if y = x then false else c.bDirt y }
  | otherHands {c : Config} {x : Nat} (hd : c.bDirt x = true) : Step c .other (c.hand x)
  | otherDirties {c : Config} {x : Nat} (hx : x ∈ c.free) :
      Step c .other { c with bDirt := fun y => if y = x then true else c.bDirt y }
  | otherWritesInode {c : Config} {i bh : Nat} (hd : c.iDirt i = true) (hbh : bh ∈ c.free) :
      Step c .other (c.writeInode i bh)
  | otherDirtiesInode {c : Config} (i : Nat) :
      Step c .other { c with iDirt := fun x => if x = i then true else c.iDirt x }

/-- The beginning of a sync: what is dirty is owed. -/
structure Start (c : Config) : Prop where
  pc : c.pc = .next sysSync ∨ c.pc = .next syncDev
  nodup : c.free.Nodup
  buf : ∀ x, c.bufOwed x = true → x ∈ c.free ∧ c.bDirt x = true
  bufAll : ∀ x ∈ c.free, c.bDirt x = true → c.bufOwed x = true
  inode : ∀ i, c.inodeOwed i = true → i < NR_INODE ∧ c.iDirt i = true ∧ c.iPipe i = false
  inodeAll : ∀ i < NR_INODE, c.iDirt i = true → c.iPipe i = false → c.inodeOwed i = true

/-- **A sync is complete** when nothing is owed any more. -/
def Complete (c : Config) : Prop := (∀ x, c.bufOwed x = false) ∧ ∀ i, c.inodeOwed i = false

/-- The buffer at which the last pass is, and how many it still visits from there on. -/
def Config.window (c : Config) : Option (Nat × Nat) :=
  match c.pc with
  | .visit left bh [] => some (bh, left)
  | .write left bh [] => some (bh, left + 1)
  | .leave left bh [] => some (bh, left + 1)
  | _ => none

/-- **The condition.** After a move, every buffer that the last pass has still to write is among those it still
    visits; and no read is queued for a buffer that is dirty (a block written as a whole, without having been
    read), which makes it clean without writing it. -/
def Clear (c : Config) : Event → Prop
  | .move x => ∀ w ∈ c.window, ∀ y, c.bufOwed y = true → Within (putLast c.free x) w.1 w.2 y
  | .read x => c.bDirt x = false
  | .other => True

def ClearRun : Config → Config → Prop := Relation.ReflTransGen fun c c' => ∃ e, Clear c e ∧ Step c e c'

/-! ## The invariant -/

/-- Nothing is owed of the inodes. -/
def Config.NoInodes (c : Config) : Prop := ∀ i, c.inodeOwed i = false

/-- What a sync knows where it is. Only the last two passes matter. -/
def PcOk (c : Config) : Pc → Prop
  | .next todo => todo = syncDev ∨ todo = sysSync ∨ (todo = [.buffers] ∧ c.NoInodes) ∨ (todo = [] ∧ Complete c)
  | .visit left bh todo => todo = sysSync ∨
      (todo = [] ∧ c.NoInodes ∧ ∀ y, c.bufOwed y = true → Within c.free bh left y)
  | .write left bh todo => todo = sysSync ∨
      (todo = [] ∧ c.NoInodes ∧ ∀ y, c.bufOwed y = true → Within c.free bh (left + 1) y)
  | .leave left bh todo => todo = sysSync ∨
      (todo = [] ∧ c.NoInodes ∧ ∀ y, c.bufOwed y = true → y ≠ bh ∧ Within c.free bh (left + 1) y)
  | .inode i todo => todo = [.buffers] ∧ ∀ j, c.inodeOwed j = true → i ≤ j
  | .writeInode i todo => todo = [.buffers] ∧ ∀ j, c.inodeOwed j = true → i ≤ j

structure Inv (c : Config) : Prop where
  nodup : c.free.Nodup
  buf : ∀ x, c.bufOwed x = true → x ∈ c.free ∧ c.bDirt x = true
  inode : ∀ i, c.inodeOwed i = true → i < NR_INODE ∧ c.iDirt i = true ∧ c.iPipe i = false
  pc : PcOk c c.pc

/-- Less is owed. -/
theorem PcOk.mono {c c' : Config} {pc : Pc} (h : PcOk c pc) (hfree : c'.free = c.free)
    (hinode : ∀ i, c'.inodeOwed i = true → c.inodeOwed i = true)
    (hbuf : c.NoInodes → ∀ y, c'.bufOwed y = true → c.bufOwed y = true) : PcOk c' pc := by
  have hno : c.NoInodes → c'.NoInodes := by
    intro hn i
    by_contra hi
    have := hinode i (by simpa using hi)
    rw [hn i] at this
    cases this
  cases pc with
  | next todo =>
      rcases h with h | h | ⟨h, hn⟩ | ⟨h, hb, hn⟩
      · exact .inl h
      · exact .inr (.inl h)
      · exact .inr (.inr (.inl ⟨h, hno hn⟩))
      · refine .inr (.inr (.inr ⟨h, fun y => ?_, hno hn⟩))
        by_contra hy
        have := hbuf hn y (by simpa using hy)
        rw [hb y] at this
        cases this
  | visit left bh todo =>
      refine h.imp id fun ⟨ht, hn, hw⟩ => ⟨ht, hno hn, fun y hy => ?_⟩
      rw [hfree]
      exact hw y (hbuf hn y hy)
  | write left bh todo =>
      refine h.imp id fun ⟨ht, hn, hw⟩ => ⟨ht, hno hn, fun y hy => ?_⟩
      rw [hfree]
      exact hw y (hbuf hn y hy)
  | leave left bh todo =>
      refine h.imp id fun ⟨ht, hn, hw⟩ => ⟨ht, hno hn, fun y hy => ?_⟩
      rw [hfree]
      exact hw y (hbuf hn y hy)
  | inode i todo => exact ⟨h.1, fun j hj => h.2 j (hinode j hj)⟩
  | writeInode i todo => exact ⟨h.1, fun j hj => h.2 j (hinode j hj)⟩

/-- Around a buffer there is one ring. -/
theorem Around.unique {l r r' : List Nat} {x : Nat} (hl : l.Nodup) (h : Around l x r) (h' : Around l x r') :
    r = r' := by
  obtain ⟨b, a, rfl, rfl⟩ := h
  obtain ⟨b', a', he, rfl⟩ := h'
  have hx : x ∉ b ∧ x ∉ a := by
    rw [List.nodup_middle, List.nodup_cons, List.mem_append] at hl
    exact not_or.mp hl.1
  obtain ⟨rfl, -, rfl⟩ := (List.append_cons_inj_of_notMem hx.1 hx.2).mp he
  rfl

/-- From the head of the free list, a pass of `NR_BUFFERS` steps visits every buffer. -/
theorem within_head {l : List Nat} {x y : Nat} (hx : l.head? = some x) (hy : y ∈ l) : Within l x l.length y := by
  obtain ⟨a, rfl⟩ := List.head?_eq_some_iff.mp hx
  refine ⟨a ++ [], ⟨[], a, rfl, rfl⟩, ?_⟩
  rw [List.append_nil, List.take_length]
  exact hy

/-- What is within reach, apart from the buffer the pass is at, is within reach of the next one. -/
theorem Within.next {l : List Nat} {x x' n y : Nat} (hl : l.Nodup) (h : Within l x (n + 1) y) (hne : y ≠ x)
    (hnext : NextFree l x x') : Within l x' n y := by
  obtain ⟨r, hr, hy⟩ := h
  obtain ⟨r', hr', hhead⟩ := hnext
  obtain rfl := hr.unique hl hr'
  rw [List.take_succ_cons, List.mem_cons] at hy
  replace hy := hy.resolve_left hne
  obtain ⟨b, a, rfl, rfl⟩ := hr
  cases a with
  | cons z a =>
      obtain rfl : z = x' := Option.some.inj hhead
      refine ⟨a ++ (b ++ [x]), ⟨b ++ [x], a, by simp, rfl⟩, ?_⟩
      rw [← List.append_assoc]
      rw [List.cons_append] at hy
      cases n with
      | zero => cases hy
      | succ n =>
          rw [List.take_succ_cons, List.mem_cons] at hy ⊢
          refine hy.imp id fun hy => ?_
          rw [List.take_append, List.mem_append]
          exact .inl hy
  | nil =>
      cases b with
      | nil => simp at hy
      | cons z b =>
          obtain rfl : z = x' := Option.some.inj hhead
          refine ⟨b ++ [x], ⟨[], b ++ [x], by simp, by simp⟩, ?_⟩
          rw [List.nil_append] at hy
          cases n with
          | zero => cases hy
          | succ n =>
              rw [List.take_succ_cons, List.mem_cons] at hy ⊢
              refine hy.imp id fun hy => ?_
              rw [List.take_append, List.mem_append]
              exact .inl hy

theorem mem_putLast {l : List Nat} {x y : Nat} (hy : y ∈ l) : y ∈ putLast l x := by
  unfold putLast
  rw [List.mem_append, List.mem_singleton]
  by_cases hyx : y = x
  · exact .inr hyx
  · exact .inl ((List.mem_erase_of_ne hyx).mpr hy)

theorem nodup_putLast {l : List Nat} (x : Nat) (hl : l.Nodup) : (putLast l x).Nodup := by
  refine (hl.erase x).append (List.nodup_singleton x) ?_
  intro y hy hyx
  obtain rfl := List.mem_singleton.mp hyx
  exact hl.not_mem_erase hy

/-! ## Steps -/

section
variable {c : Config} (h : Inv c)
include h

/-- Only where the sync is changes. -/
theorem Inv.setPc {pc : Pc} (hpc : PcOk c pc) : Inv { c with pc := pc } :=
  ⟨h.nodup, h.buf, h.inode, hpc.mono rfl (fun _ => id) fun _ _ => id⟩

/-- Something is handed to the block layer. -/
theorem Inv.hand (x : Nat) : Inv (c.hand x) := by
  have hle : ∀ y, (c.hand x).bufOwed y = true → c.bufOwed y = true ∧ y ≠ x := by
    intro y hy
    unfold Config.hand at hy
    dsimp only at hy
    split at hy
    · cases hy
    · rename_i hne
      exact ⟨hy, hne⟩
  refine ⟨h.nodup, fun y hy => ?_, h.inode, h.pc.mono rfl (fun _ => id) fun _ y hy => (hle y hy).1⟩
  obtain ⟨hy, hne⟩ := hle y hy
  obtain ⟨hmem, hd⟩ := h.buf y hy
  refine ⟨hmem, ?_⟩
  unfold Config.hand
  dsimp only
  rw [if_neg hne]
  exact hd

/-- Somebody writes an inode into its buffer. -/
theorem Inv.writeInode {i bh : Nat} (hbh : bh ∈ c.free) : Inv (c.writeInode i bh) := by
  have hinode : ∀ j, (c.writeInode i bh).inodeOwed j = true → c.inodeOwed j = true ∧ j ≠ i := by
    intro j hj
    unfold Config.writeInode at hj
    dsimp only at hj
    split at hj
    · cases hj
    · rename_i hne
      exact ⟨hj, hne⟩
  refine ⟨h.nodup, fun y hy => ?_, fun j hj => ?_, h.pc.mono rfl (fun j hj => (hinode j hj).1) fun hn y hy => ?_⟩
  · unfold Config.writeInode at hy ⊢
    dsimp only at hy ⊢
    split
    · rename_i hyb
      exact ⟨hyb ▸ hbh, rfl⟩
    · rename_i hyb
      rw [if_neg hyb] at hy
      exact h.buf y hy
  · obtain ⟨hj, hne⟩ := hinode j hj
    obtain ⟨hlt, hd, hpipe⟩ := h.inode j hj
    refine ⟨hlt, ?_, hpipe⟩
    unfold Config.writeInode
    dsimp only
    rw [if_neg hne]
    exact hd
  · unfold Config.writeInode at hy
    dsimp only at hy
    split at hy
    · rename_i hyb
      rw [hn i, Bool.or_false] at hy
      exact hyb ▸ hy
    · exact hy

/-- **One clear step keeps the invariant.** -/
theorem Inv.step {c' : Config} {e : Event} (hclear : Clear c e) (hstep : Step c e c') : Inv c' := by
  have hpcok := h.pc
  cases hstep with
  | buffers hpc hhead =>
      rw [hpc] at hpcok
      refine h.setPc ?_
      rcases hpcok with ht | ht | ⟨ht, hn⟩ | ⟨ht, -⟩
      · obtain rfl := (List.cons.inj ht).2
        exact .inl rfl
      · cases (List.cons.inj ht).1
      · obtain rfl := (List.cons.inj ht).2
        exact .inr ⟨rfl, hn, fun y hy => within_head hhead (h.buf y hy).1⟩
      · cases ht
  | buffersDone hpc =>
      rw [hpc] at hpcok
      refine h.setPc ?_
      rcases hpcok with rfl | ⟨rfl, hn, hw⟩
      · exact .inr (.inl rfl)
      · refine .inr (.inr (.inr ⟨rfl, fun y => ?_, hn⟩))
        by_contra hy
        obtain ⟨r, -, hy⟩ := hw y (by simpa using hy)
        cases hy
  | clean hpc hd =>
      rw [hpc] at hpcok
      refine h.setPc (hpcok.imp id fun ⟨ht, hn, hw⟩ => ⟨ht, hn, fun y hy => ⟨?_, hw y hy⟩⟩)
      rintro rfl
      rw [(h.buf y hy).2] at hd
      cases hd
  | dirty hpc hd =>
      rw [hpc] at hpcok
      exact h.setPc hpcok
  | @hand left bh todo hpc hd =>
      rw [hpc] at hpcok
      have hhand := h.hand bh
      refine hhand.setPc (hpcok.imp id fun ⟨ht, hn, hw⟩ => ⟨ht, hn, fun y hy => ?_⟩)
      unfold Config.hand at hy
      dsimp only at hy
      split at hy
      · cases hy
      · rename_i hne
        exact ⟨hne, hw y hy⟩
  | cleaned hpc hd =>
      rw [hpc] at hpcok
      refine h.setPc (hpcok.imp id fun ⟨ht, hn, hw⟩ => ⟨ht, hn, fun y hy => ⟨?_, hw y hy⟩⟩)
      rintro rfl
      rw [(h.buf y hy).2] at hd
      cases hd
  | advance hpc hnext =>
      rw [hpc] at hpcok
      refine h.setPc (hpcok.imp id fun ⟨ht, hn, hw⟩ => ⟨ht, hn, fun y hy => ?_⟩)
      obtain ⟨hne, hw⟩ := hw y hy
      exact hw.next h.nodup hne hnext
  | inodes hpc =>
      rw [hpc] at hpcok
      refine h.setPc ?_
      rcases hpcok with ht | ht | ⟨ht, -⟩ | ⟨ht, -⟩
      · cases (List.cons.inj ht).1
      · exact ⟨(List.cons.inj ht).2, fun j _ => Nat.zero_le j⟩
      · cases (List.cons.inj ht).1
      · cases ht
  | @inodesDone i todo hpc hi =>
      rw [hpc] at hpcok
      obtain ⟨rfl, hlo⟩ := hpcok
      refine h.setPc (.inr (.inr (.inl ⟨rfl, fun j => ?_⟩)))
      by_contra hj
      replace hj : c.inodeOwed j = true := by simpa using hj
      have := hlo j hj
      have := (h.inode j hj).1
      omega
  | @inodeClean i todo hpc hi hd =>
      rw [hpc] at hpcok
      refine h.setPc ⟨hpcok.1, fun j hj => ?_⟩
      have hij := hpcok.2 j hj
      obtain ⟨-, hd', hpipe⟩ := h.inode j hj
      refine Nat.lt_of_le_of_ne hij ?_
      rintro rfl
      rw [hd', hpipe] at hd
      rcases hd with hd | hd <;> cases hd
  | inodeDirty hpc hi hd hpipe =>
      rw [hpc] at hpcok
      exact h.setPc hpcok
  | @inodeWritten i bh todo hpc hd hbh =>
      rw [hpc] at hpcok
      refine (h.writeInode hbh).setPc ⟨hpcok.1, fun j hj => ?_⟩
      unfold Config.writeInode at hj
      dsimp only at hj
      split at hj
      · cases hj
      · have := hpcok.2 j hj
        omega
  | @inodeCleaned i todo hpc hd =>
      rw [hpc] at hpcok
      refine h.setPc ⟨hpcok.1, fun j hj => ?_⟩
      have hij := hpcok.2 j hj
      refine Nat.lt_of_le_of_ne hij ?_
      rintro rfl
      rw [(h.inode i hj).2.1] at hd
      cases hd
  | @move x hx =>
      refine ⟨nodup_putLast x h.nodup, fun y hy => ⟨mem_putLast (h.buf y hy).1, (h.buf y hy).2⟩, h.inode, ?_⟩
      dsimp only
      unfold Clear Config.window at hclear
      cases hpc : c.pc with
      | next todo =>
          rw [hpc] at hpcok
          exact hpcok
      | visit left bh todo =>
          rw [hpc] at hpcok hclear
          refine hpcok.imp id fun ⟨ht, hn, hw⟩ => ⟨ht, hn, fun y hy => ?_⟩
          subst ht
          exact hclear _ rfl y hy
      | write left bh todo =>
          rw [hpc] at hpcok hclear
          refine hpcok.imp id fun ⟨ht, hn, hw⟩ => ⟨ht, hn, fun y hy => ?_⟩
          subst ht
          exact hclear _ rfl y hy
      | leave left bh todo =>
          rw [hpc] at hpcok hclear
          refine hpcok.imp id fun ⟨ht, hn, hw⟩ => ⟨ht, hn, fun y hy => ⟨(hw y hy).1, ?_⟩⟩
          subst ht
          exact hclear _ rfl y hy
      | inode i todo =>
          rw [hpc] at hpcok
          exact hpcok
      | writeInode i todo =>
          rw [hpc] at hpcok
          exact hpcok
  | @read x hx =>
      refine ⟨h.nodup, fun y hy => ?_, h.inode, hpcok.mono rfl (fun _ => id) fun _ _ => id⟩
      obtain ⟨hmem, hd⟩ := h.buf y hy
      refine ⟨hmem, ?_⟩
      dsimp only
      split
      · rename_i hyx
        -- a read was queued for a clean buffer
        rw [hyx, show c.bDirt x = false from hclear] at hd
        cases hd
      · exact hd
  | otherHands hd => exact h.hand _
  | otherDirties hx =>
      refine ⟨h.nodup, fun y hy => ?_, h.inode, hpcok.mono rfl (fun _ => id) fun _ _ => id⟩
      obtain ⟨hmem, hd⟩ := h.buf y hy
      refine ⟨hmem, ?_⟩
      dsimp only
      split
      · rfl
      · exact hd
  | otherWritesInode hd hbh => exact h.writeInode hbh
  | otherDirtiesInode i =>
      refine ⟨h.nodup, h.buf, fun j hj => ?_, hpcok.mono rfl (fun _ => id) fun _ _ => id⟩
      obtain ⟨hlt, hd, hpipe⟩ := h.inode j hj
      refine ⟨hlt, ?_, hpipe⟩
      dsimp only
      split
      · rfl
      · exact hd

end

theorem Start.inv {c : Config} (h : Start c) : Inv c where
  nodup := h.nodup
  buf := h.buf
  inode := h.inode
  pc := by
    rcases h.pc with hpc | hpc
    · rw [hpc]
      exact .inr (.inl rfl)
    · rw [hpc]
      exact .inl rfl

/-- Any number of steps, clear or not. -/
def Run : Config → Config → Prop := Relation.ReflTransGen fun c c' => ∃ e, Step c e c'

theorem ClearRun.run {c c' : Config} (h : ClearRun c c') : Run c c' := by
  induction h with
  | refl => exact .refl
  | tail _ hstep ih =>
      obtain ⟨e, -, hstep⟩ := hstep
      exact ih.tail ⟨e, hstep⟩

end Sync
end Fs
end Linux095
