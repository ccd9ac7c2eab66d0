import Linux095.Fs.Types

/-!
# `Fs.Minix.DirEntry` — the entries of one directory under concurrency (`fs/minix/namei.c`)

Any number of processes create, link and rename in one directory, and remove from it. Each first looks for the
name with `minix_find_entry`, then allocates, and then has `minix_add_entry` find a free slot and copy the name
into it from user memory, before it fills in the inode number. Another process may run between any two of these
steps.

* `Step` — one step of one process;
* `Unique` — no two live entries have one name;
* `Clear` — the condition: who adds an entry has looked for the name himself, nobody else has added it since,
  and nobody else is filling the slot;
* `unique_of_clear` — in every run whose steps are clear, `Unique` holds throughout;
* `created_twice` — without that it does not.
-/

namespace Linux095
namespace Fs
namespace Minix
namespace DirEntry

def MINIX_NAME_LEN : Nat := 14

/-- `MINIX_DIR_ENTRIES_PER_BLOCK`. -/
def ENTRIES_PER_BLOCK : Nat := 64

abbrev Byte := BitVec 8

/-- `struct minix_dir_entry`; the inode number 0 makes it free. -/
structure Slot where
  inode : BitVec 16
  name : Nat → Byte

/-- `minix_match`. -/
def minixMatch (name : List Byte) (de : Slot) : Prop :=
  de.inode ≠ 0 ∧ name.length ≤ MINIX_NAME_LEN ∧
    ((name = [] ∧ de.name 0 = 46 ∧ de.name 1 = 0) ∨
      (name.length < MINIX_NAME_LEN → de.name name.length = 0) ∧ ∀ k < name.length, name[k]? = some (de.name k))

instance (name : List Byte) (de : Slot) : Decidable (minixMatch name de) :=
  inferInstanceAs (Decidable (_ ∧ _ ∧ ((_ ∧ _ ∧ _) ∨ (_ → _) ∧ ∀ _ < _, _)))

/-- The operations that add an entry. -/
inductive Op where
  | create
  | mknod
  | mkdir
  | link
  | symlink
  | rename
  deriving DecidableEq

/-- What a process is doing. `fresh` is not a variable of the source: nobody has added the name since the
    process began to look for it. -/
inductive Proc where
  | idle
  /-- The loop of `minix_find_entry`, at the slot `i`. -/
  | find (op : Op) (name : List Byte) (i entries : Nat) (fresh : Bool)
  /-- The name has not been found; an inode, a zone or a buffer is being allocated. -/
  | alloc (op : Op) (name : List Byte) (fresh : Bool)
  /-- The loop of `minix_add_entry`, at the slot `i`. -/
  | add (op : Op) (name : List Byte) (i : Nat) (fresh : Bool)
  /-- The slot `i` is free, and `k` bytes of the name are copied to it. -/
  | fill (op : Op) (name : List Byte) (i k : Nat) (fresh : Bool)
  /-- `do_minix_rename` has found the new name in the slot `i`, as an entry for `ino`. -/
  | replace (name : List Byte) (i : Nat) (ino : BitVec 16)

namespace Proc

/-- The name the process is going to add, and whether it is still the only one to. -/
def pending : Proc → Option (List Byte × Bool)
  | find _ name _ _ fresh => some (name, fresh)
  | alloc _ name fresh => some (name, fresh)
  | add _ name _ fresh => some (name, fresh)
  | fill _ name _ _ fresh => some (name, fresh)
  | _ => none

/-- Somebody else has added `n`. -/
def taint (n : List Byte) : Proc → Proc
  | find op name i entries fresh => find op name i entries (fresh && name != n)
  | alloc op name fresh => alloc op name (fresh && name != n)
  | add op name i fresh => add op name i (fresh && name != n)
  | fill op name i k fresh => fill op name i k (fresh && name != n)
  | p => p

/-- The slot the process is filling. -/
def Fills (i : Nat) : Proc → Prop
  | fill _ _ j _ _ => j = i
  | _ => False

end Proc

/-- The directory: `size` slots (`i_size / sizeof(struct minix_dir_entry)`), and the processes. -/
structure Config where
  slots : Nat → Slot
  size : Nat
  procs : Nat → Proc

namespace Config

def setProc (c : Config) (p : Nat) (q : Proc) : Config :=
  { c with procs := fun x => if x = p then q else c.procs x }

def setInode (c : Config) (i : Nat) (ino : BitVec 16) : Config :=
  { c with slots := fun x => if x = i then { c.slots x with inode := ino } else c.slots x }

/-- `m` bytes of a name, from the byte `k` on, stored in the slot `i`; `minix_add_entry` pads with zeros. -/
def copyName (c : Config) (i : Nat) (name : List Byte) (k m : Nat) : Config :=
  { c with slots := fun x => if x = i then
      { c.slots x with name := fun y => if k ≤ y ∧ y < k + m then name.getD y 0 else (c.slots x).name y }
    else c.slots x }

/-- `de->inode = ino` in the slot `i`: the process is done, and the others that are going to add the name are no
    longer the only ones. -/
def fillIn (c : Config) (p i : Nat) (name : List Byte) (ino : BitVec 16) : Config :=
  let c1 := c.setInode i ino
  { c1 with procs := fun x => if x = p then .idle else (c.procs x).taint name }

/-- An entry that is in use. -/
def Live (c : Config) (i : Nat) : Prop := i < c.size ∧ (c.slots i).inode ≠ 0

end Config

/-- What a step is about. -/
inductive Event where
  /-- `lookup` failed without having looked, because the directory may not be searched; `open_namei` goes on to
      `create` all the same. -/
  | refused (p : Nat)
  /-- A block of the directory could not be read, and its slots are skipped. -/
  | unread (p : Nat)
  /-- A process begins to fill a slot. -/
  | take (p i : Nat)
  /-- A process makes the slot it has filled an entry. -/
  | fillIn (p : Nat)
  | other

/-- One step. A name handed to these functions is a component of a path: not empty, cut off at
    `MINIX_NAME_LEN`, and without a zero byte. -/
inductive Step : Config → Event → Config → Prop
  | start {c : Config} {p : Nat} (op : Op) (name : List Byte) (hp : c.procs p = .idle) (hne : name ≠ [])
      (hlen : name.length ≤ MINIX_NAME_LEN) (hz : 0 ∉ name) :
      Step c .other (c.setProc p (.find op name 0 c.size true))
  | refused {c : Config} {p i entries : Nat} {name : List Byte} {fresh : Bool}
      (hp : c.procs p = .find .create name i entries fresh) :
      Step c (.refused p) (c.setProc p (.alloc .create name fresh))
  | findNext {c : Config} {p i entries : Nat} {op : Op} {name : List Byte} {fresh : Bool}
      (hp : c.procs p = .find op name i entries fresh) (hi : i < entries) (hm : ¬ minixMatch name (c.slots i)) :
      Step c .other (c.setProc p (.find op name (i + 1) entries fresh))
  | findUnread {c : Config} {p i entries : Nat} {op : Op} {name : List Byte} {fresh : Bool}
      (hp : c.procs p = .find op name i entries fresh) :
      Step c (.unread p) (c.setProc p (.find op name (i + ENTRIES_PER_BLOCK) entries fresh))
  | exists_ {c : Config} {p i entries : Nat} {op : Op} {name : List Byte} {fresh : Bool}
      (hp : c.procs p = .find op name i entries fresh) (hi : i < entries) (hm : minixMatch name (c.slots i))
      (hop : op ≠ .rename) : Step c .other (c.setProc p .idle)
  | target {c : Config} {p i entries : Nat} {name : List Byte} {fresh : Bool}
      (hp : c.procs p = .find .rename name i entries fresh) (hi : i < entries) (hm : minixMatch name (c.slots i)) :
      Step c .other (c.setProc p (.replace name i (c.slots i).inode))
  | absent {c : Config} {p i entries : Nat} {op : Op} {name : List Byte} {fresh : Bool}
      (hp : c.procs p = .find op name i entries fresh) (hi : entries ≤ i) :
      Step c .other (c.setProc p (.alloc op name fresh))
  | fail {c : Config} {p : Nat} {name : List Byte} {fresh : Bool} (hp : (c.procs p).pending = some (name, fresh)) :
      Step c .other (c.setProc p .idle)
  | allocated {c : Config} {p : Nat} {op : Op} {name : List Byte} {fresh : Bool}
      (hp : c.procs p = .alloc op name fresh) : Step c .other (c.setProc p (.add op name 0 fresh))
  | addNext {c : Config} {p i : Nat} {op : Op} {name : List Byte} {fresh : Bool}
      (hp : c.procs p = .add op name i fresh) (hlive : c.Live i) :
      Step c .other (c.setProc p (.add op name (i + 1) fresh))
  | addUnread {c : Config} {p i : Nat} {op : Op} {name : List Byte} {fresh : Bool}
      (hp : c.procs p = .add op name i fresh) :
      Step c (.unread p) (c.setProc p (.add op name (i + ENTRIES_PER_BLOCK) fresh))
  | grow {c : Config} {p i : Nat} {op : Op} {name : List Byte} {fresh : Bool}
      (hp : c.procs p = .add op name i fresh) (hi : c.size ≤ i) :
      Step c .other { c.setInode i 0 with size := i + 1 }
  | take {c : Config} {p i : Nat} {op : Op} {name : List Byte} {fresh : Bool}
      (hp : c.procs p = .add op name i fresh) (hi : i < c.size) (hfree : (c.slots i).inode = 0) :
      Step c (.take p i) (c.setProc p (.fill op name i 0 fresh))
  | copy {c : Config} {p i k : Nat} {op : Op} {name : List Byte} {fresh : Bool} (m : Nat)
      (hp : c.procs p = .fill op name i k fresh) (hm : k + m ≤ MINIX_NAME_LEN) :
      Step c .other ((c.copyName i name k m).setProc p (.fill op name i (k + m) fresh))
  | fillIn {c : Config} {p i : Nat} {op : Op} {name : List Byte} {fresh : Bool} (ino : BitVec 16)
      (hp : c.procs p = .fill op name i MINIX_NAME_LEN fresh) (hino : ino ≠ 0) :
      Step c (.fillIn p) (c.fillIn p i name ino)
  | again {c : Config} {p i : Nat} {name : List Byte} {fresh : Bool}
      (hp : c.procs p = .fill .rename name i MINIX_NAME_LEN fresh) :
      Step c .other (c.setProc p (.find .rename name 0 c.size true))
  | replace {c : Config} {p i : Nat} {name : List Byte} {ino : BitVec 16} (new : BitVec 16)
      (hp : c.procs p = .replace name i ino) (hsame : (c.slots i).inode = ino) (hnew : new ≠ 0) :
      Step c .other ((c.setInode i new).setProc p .idle)
  | replaceAgain {c : Config} {p i : Nat} {name : List Byte} {ino : BitVec 16}
      (hp : c.procs p = .replace name i ino) : Step c .other (c.setProc p (.find .rename name 0 c.size true))
  | replaceFail {c : Config} {p i : Nat} {name : List Byte} {ino : BitVec 16}
      (hp : c.procs p = .replace name i ino) : Step c .other (c.setProc p .idle)
  /-- `unlink`, `rmdir`, and the old name of a `rename`. -/
  | remove {c : Config} (i : Nat) : Step c .other (c.setInode i 0)

/-- **The condition.** An entry is added by a process that has looked for the name in every block of the
    directory, after which nobody else has added it; and nobody else is filling the slot it takes. -/
def Clear (c : Config) : Event → Prop
  | .refused _ => False
  | .unread _ => False
  | .take p i => ∀ q, q ≠ p → ¬ (c.procs q).Fills i
  | .fillIn p => ∀ x ∈ (c.procs p).pending, x.2 = true
  | .other => True

def ClearStep (c c' : Config) : Prop := ∃ e, Clear c e ∧ Step c e c'

/-- A run of clear steps. -/
def ClearRun : Config → Config → Prop := Relation.ReflTransGen ClearStep

/-! ## What it is for -/

/-- The entry has the name, as a string of at most `MINIX_NAME_LEN` bytes that a zero byte may end. -/
def Slot.Named (s : Slot) (name : List Byte) : Prop :=
  name.length ≤ MINIX_NAME_LEN ∧ 0 ∉ name ∧ (name.length < MINIX_NAME_LEN → s.name name.length = 0) ∧
    ∀ k b, name[k]? = some b → s.name k = b

/-- **No two live entries have one name.** -/
def Unique (c : Config) : Prop :=
  ∀ i j name, c.Live i → c.Live j → (c.slots i).Named name → (c.slots j).Named name → i = j

/-! ## The invariant -/

/-- A slot has one name. -/
theorem Slot.Named.inj {s : Slot} {n n' : List Byte} (h : s.Named n) (h' : s.Named n') : n = n' := by
  obtain ⟨hlen, hz, hend, hbytes⟩ := h
  obtain ⟨hlen', hz', hend', hbytes'⟩ := h'
  have key : ∀ {a b : List Byte}, (∀ k x, a[k]? = some x → s.name k = x) → 0 ∉ a →
      (b.length < MINIX_NAME_LEN → s.name b.length = 0) → a.length ≤ MINIX_NAME_LEN → a.length ≤ b.length := by
    intro a b ha hza hb hla
    by_contra hlt
    have hget := List.getElem?_eq_getElem (show b.length < a.length by omega)
    have hzero := ha _ _ hget
    rw [hb (by omega)] at hzero
    exact hza (hzero ▸ List.getElem_mem _)
  have heq : n.length = n'.length :=
    Nat.le_antisymm (key hbytes hz hend' hlen) (key hbytes' hz' hend hlen')
  refine List.ext_getElem? fun k => ?_
  by_cases hk : k < n.length
  · have h1 := List.getElem?_eq_getElem hk
    have h2 := List.getElem?_eq_getElem (show k < n'.length by omega)
    rw [h1, h2, ← hbytes _ _ h1, ← hbytes' _ _ h2]
  · rw [List.getElem?_eq_none (by omega), List.getElem?_eq_none (by omega)]

/-- `minix_match` compares names. -/
theorem minixMatch_iff {name : List Byte} {s : Slot} (hne : name ≠ []) (hlen : name.length ≤ MINIX_NAME_LEN)
    (hz : 0 ∉ name) : minixMatch name s ↔ s.inode ≠ 0 ∧ s.Named name := by
  unfold minixMatch Slot.Named
  constructor
  · rintro ⟨hi, -, ⟨he, -⟩ | ⟨hend, hbytes⟩⟩
    · exact absurd he hne
    · refine ⟨hi, hlen, hz, hend, fun k b hk => ?_⟩
      exact Option.some.inj ((hbytes k (List.getElem?_eq_some_iff.mp hk).1).symm.trans hk)
  · rintro ⟨hi, -, -, hend, hbytes⟩
    refine ⟨hi, hlen, .inr ⟨hend, fun k hk => ?_⟩⟩
    rw [hbytes k _ (List.getElem?_eq_getElem hk), List.getElem?_eq_getElem hk]

theorem Slot.named_congr {s t : Slot} (h : s.name = t.name) (n : List Byte) : s.Named n ↔ t.Named n := by
  unfold Slot.Named
  rw [h]

/-- A name as these functions are handed it. -/
structure NameOk (name : List Byte) : Prop where
  ne : name ≠ []
  length : name.length ≤ MINIX_NAME_LEN
  noZero : 0 ∉ name

/-- Of the slots seen, no live one has the name. -/
def Absent (c : Config) (name : List Byte) (seen : Nat → Prop) : Prop :=
  ∀ j, seen j → c.Live j → ¬ (c.slots j).Named name

/-- What a process knows, as long as nobody gets in its way. -/
def Proc.Ok (c : Config) : Proc → Prop
  | idle => True
  | find _ name i entries fresh =>
      NameOk name ∧ entries ≤ c.size ∧ (fresh = true → Absent c name fun j => j < i ∨ entries ≤ j)
  | alloc _ name fresh => NameOk name ∧ (fresh = true → Absent c name fun _ => True)
  | add _ name i fresh => NameOk name ∧ i ≤ c.size ∧ (fresh = true → Absent c name fun _ => True)
  | fill _ name i k fresh =>
      NameOk name ∧ i < c.size ∧ (c.slots i).inode = 0 ∧ (∀ y < k, (c.slots i).name y = name.getD y 0) ∧
        (fresh = true → Absent c name fun _ => True)
  | replace name i ino => NameOk name ∧ i < c.size ∧ ino ≠ 0

structure Inv (c : Config) : Prop where
  unique : Unique c
  proc : ∀ p, (c.procs p).Ok c
  one : ∀ p q i, (c.procs p).Fills i → (c.procs q).Fills i → p = q

/-- A change after which nothing is live that was not, under the same name. -/
structure Fades (c c' : Config) : Prop where
  size : c.size ≤ c'.size
  live : ∀ j, c'.Live j → c.Live j ∧ (c'.slots j).name = (c.slots j).name

theorem Fades.rfl' {c c' : Config} (hslots : c'.slots = c.slots) (hsize : c'.size = c.size) : Fades c c' := by
  refine ⟨hsize.ge, fun j hj => ?_⟩
  unfold Config.Live at hj ⊢
  rw [hslots, hsize] at hj
  exact ⟨hj, by rw [hslots]⟩

theorem Fades.absent {c c' : Config} (h : Fades c c') {name : List Byte} {seen : Nat → Prop}
    (ha : Absent c name seen) : Absent c' name seen := by
  intro j hj hlive hn
  obtain ⟨hlive, hname⟩ := h.live j hlive
  exact ha j hj hlive ((Slot.named_congr hname name).mp hn)

theorem Fades.unique {c c' : Config} (h : Fades c c') (hu : Unique c) : Unique c' := by
  intro i j name hi hj hni hnj
  obtain ⟨hi, hi'⟩ := h.live i hi
  obtain ⟨hj, hj'⟩ := h.live j hj
  exact hu i j name hi hj ((Slot.named_congr hi' name).mp hni) ((Slot.named_congr hj' name).mp hnj)

/-- What a process knows survives such a change, as long as the slot it fills is left alone. -/
theorem Fades.ok {c c' : Config} (h : Fades c c') {q : Proc} (hq : q.Ok c)
    (hfill : ∀ i, q.Fills i → (c.slots i).inode = 0 →
      (c'.slots i).inode = 0 ∧ (c'.slots i).name = (c.slots i).name) : q.Ok c' := by
  have hsize := h.size
  cases q with
  | idle => trivial
  | find op name i entries fresh =>
      obtain ⟨hname, hle, habsent⟩ := hq
      exact ⟨hname, hle.trans hsize, fun hf => h.absent (habsent hf)⟩
  | alloc op name fresh =>
      obtain ⟨hname, habsent⟩ := hq
      exact ⟨hname, fun hf => h.absent (habsent hf)⟩
  | add op name i fresh =>
      obtain ⟨hname, hle, habsent⟩ := hq
      exact ⟨hname, hle.trans hsize, fun hf => h.absent (habsent hf)⟩
  | fill op name i k fresh =>
      obtain ⟨hname, hlt, hfree, hbytes, habsent⟩ := hq
      obtain ⟨hfree', hname'⟩ := hfill i rfl hfree
      refine ⟨hname, by omega, hfree', fun y hy => ?_, fun hf => h.absent (habsent hf)⟩
      rw [hname']
      exact hbytes y hy
  | replace name i ino =>
      obtain ⟨hname, hlt, hino⟩ := hq
      exact ⟨hname, by omega, hino⟩

theorem Config.setProc_self (c : Config) (p : Nat) (q : Proc) : (c.setProc p q).procs p = q := if_pos rfl

theorem Config.setProc_ne (c : Config) {p x : Nat} (q : Proc) (h : x ≠ p) : (c.setProc p q).procs x = c.procs x :=
  if_neg h

/-- `Ok` is about the directory. -/
theorem Proc.Ok.congr {c c' : Config} {q : Proc} (h : q.Ok c) (hslots : c'.slots = c.slots)
    (hsize : c'.size = c.size) : q.Ok c' :=
  (Fades.rfl' hslots hsize).ok h fun i _ hfree => by rw [hslots]; exact ⟨hfree, rfl⟩

/-- A process goes on, and fills no slot but one it has been filling or one that nobody fills. -/
theorem Inv.setProc {c : Config} (h : Inv c) {p : Nat} {q : Proc} (hq : q.Ok c)
    (hfill : ∀ i, q.Fills i → (c.procs p).Fills i ∨ ∀ x, x ≠ p → ¬ (c.procs x).Fills i) : Inv (c.setProc p q) := by
  refine ⟨(Fades.rfl' rfl rfl).unique h.unique, fun x => ?_, fun x y i hx hy => ?_⟩
  · by_cases hx : x = p
    · rw [hx, c.setProc_self]
      exact hq.congr rfl rfl
    · rw [c.setProc_ne q hx]
      exact (h.proc x).congr rfl rfl
  · by_cases hxp : x = p
    · subst hxp
      by_cases hyp : y = x
      · exact hyp.symm
      · rw [c.setProc_self] at hx
        rw [c.setProc_ne q hyp] at hy
        rcases hfill i hx with hold | hnone
        · exact h.one x y i hold hy
        · exact absurd hy (hnone y hyp)
    · rw [c.setProc_ne q hxp] at hx
      by_cases hyp : y = p
      · subst hyp
        rw [c.setProc_self] at hy
        rcases hfill i hy with hold | hnone
        · exact h.one x y i hx hold
        · exact absurd hx (hnone x hxp)
      · rw [c.setProc_ne q hyp] at hy
        exact h.one x y i hx hy

/-- A change of the slots after which nothing new is live. -/
theorem Inv.of_fades {c c' : Config} (h : Inv c) (hf : Fades c c') (hprocs : c'.procs = c.procs)
    (hfill : ∀ p i, (c.procs p).Fills i → (c.slots i).inode = 0 →
      (c'.slots i).inode = 0 ∧ (c'.slots i).name = (c.slots i).name) : Inv c' := by
  refine ⟨hf.unique h.unique, fun p => ?_, ?_⟩
  · rw [hprocs]
    exact hf.ok (h.proc p) (hfill p)
  · rw [hprocs]
    exact h.one

theorem fades_setInode_zero (c : Config) (i : Nat) : Fades c (c.setInode i 0) := by
  refine ⟨Nat.le_refl _, fun j hj => ?_⟩
  by_cases hji : j = i
  · subst hji
    exact absurd (by simp [Config.setInode]) hj.2
  · have hslot : (c.setInode i 0).slots j = c.slots j := if_neg hji
    unfold Config.Live at hj
    rw [hslot] at hj
    exact ⟨hj, by rw [hslot]⟩

theorem Inv.clear {c : Config} (h : Inv c) (i : Nat) : Inv (c.setInode i 0) := by
  refine h.of_fades (fades_setInode_zero c i) rfl fun p j _ hfree => ?_
  unfold Config.setInode
  dsimp only
  split
  · exact ⟨rfl, rfl⟩
  · exact ⟨hfree, rfl⟩

/-- `minix_add_entry` makes the directory one slot longer. -/
theorem Inv.grow {c : Config} (h : Inv c) : Inv { c.setInode c.size 0 with size := c.size + 1 } := by
  have hslot : ∀ j, j ≠ c.size → (c.setInode c.size 0).slots j = c.slots j := fun j hj => if_neg hj
  refine h.of_fades ⟨Nat.le_succ _, fun j hj => ?_⟩ rfl fun p j hfills hfree => ?_
  · obtain ⟨hlt, hino⟩ := hj
    dsimp only at hlt hino ⊢
    by_cases hj : j = c.size
    · subst hj
      exact absurd (by simp [Config.setInode]) hino
    · rw [hslot j hj] at hino ⊢
      exact ⟨⟨by omega, hino⟩, rfl⟩
  · dsimp only
    unfold Config.setInode
    dsimp only
    split
    · exact ⟨rfl, rfl⟩
    · exact ⟨hfree, rfl⟩

/-- Copying a name into a slot that is free. -/
theorem Inv.copy {c : Config} (h : Inv c) {p i k : Nat} {op : Op} {name : List Byte} {fresh : Bool} (m : Nat)
    (hp : c.procs p = .fill op name i k fresh) :
    Inv ((c.copyName i name k m).setProc p (.fill op name i (k + m) fresh)) := by
  obtain ⟨hname, hlt, hfree, hbytes, habsent⟩ : (Proc.fill op name i k fresh).Ok c := hp ▸ h.proc p
  have hslot : ∀ j, j ≠ i → (c.copyName i name k m).slots j = c.slots j := fun j hj => if_neg hj
  have hself : (c.copyName i name k m).slots i =
      { c.slots i with name := fun y => if k ≤ y ∧ y < k + m then name.getD y 0 else (c.slots i).name y } :=
    if_pos rfl
  have hfades : Fades c (c.copyName i name k m) := by
    refine ⟨Nat.le_refl _, fun j hj => ?_⟩
    have hji : j ≠ i := by
      rintro rfl
      have := hj.2
      rw [hself] at this
      exact this hfree
    unfold Config.Live at hj
    rw [hslot j hji] at hj
    exact ⟨hj, by rw [hslot j hji]⟩
  refine ⟨hfades.unique h.unique, fun x => ?_, fun x y j hx hy => ?_⟩
  · by_cases hx : x = p
    · rw [hx, Config.setProc_self]
      refine ⟨hname, hlt, ?_, fun y hy => ?_, fun hf => hfades.absent (habsent hf)⟩
      · change ((c.copyName i name k m).slots i).inode = 0
        rw [hself]
        exact hfree
      · change ((c.copyName i name k m).slots i).name y = _
        rw [hself]
        dsimp only
        split
        · rfl
        · exact hbytes y (by omega)
    · rw [Config.setProc_ne _ _ hx]
      refine (hfades.ok (h.proc x) fun j hj hfreej => ?_).congr rfl rfl
      -- nobody else fills this slot
      have hji : j ≠ i := by
        rintro rfl
        exact hx (h.one x p j hj (hp ▸ rfl))
      rw [hslot j hji]
      exact ⟨hfreej, rfl⟩
  · have hfills : ∀ z, (((c.copyName i name k m).setProc p (.fill op name i (k + m) fresh)).procs z).Fills j →
        (c.procs z).Fills j := by
      intro z hz
      by_cases hzp : z = p
      · subst hzp
        rw [Config.setProc_self] at hz
        rw [hp]
        exact hz
      · rwa [Config.setProc_ne _ _ hzp] at hz
    exact h.one x y j (hfills x hx) (hfills y hy)

/-- An entry is replaced. -/
theorem Inv.replace {c : Config} (h : Inv c) {p i : Nat} {name : List Byte} {ino new : BitVec 16}
    (hp : c.procs p = .replace name i ino) (hsame : (c.slots i).inode = ino) :
    Inv ((c.setInode i new).setProc p .idle) := by
  obtain ⟨-, hlt, hino⟩ : (Proc.replace name i ino).Ok c := hp ▸ h.proc p
  have hfades : Fades c (c.setInode i new) := by
    refine ⟨Nat.le_refl _, fun j hj => ?_⟩
    unfold Config.setInode Config.Live at hj ⊢
    dsimp only at hj ⊢
    split at hj
    · rename_i hji
      subst hji
      rw [if_pos rfl]
      exact ⟨⟨hlt, hsame ▸ hino⟩, rfl⟩
    · rename_i hji
      rw [if_neg hji]
      exact ⟨hj, rfl⟩
  have hset : Inv (c.setInode i new) := by
    refine h.of_fades hfades rfl fun x j hj hfree => ?_
    have hji : j ≠ i := by
      rintro rfl
      exact hino (hsame ▸ hfree)
    have hslot : (c.setInode i new).slots j = c.slots j := if_neg hji
    rw [hslot]
    exact ⟨hfree, rfl⟩
  exact hset.setProc trivial fun i hi => hi.elim

theorem Proc.taint_fills (n : List Byte) (q : Proc) (i : Nat) : (q.taint n).Fills i ↔ q.Fills i := by
  cases q <;> exact Iff.rfl

/-- The slot that `p` has filled becomes an entry. -/
theorem Inv.fillIn {c : Config} (h : Inv c) {p i : Nat} {op : Op} {name : List Byte} {ino : BitVec 16}
    (hp : c.procs p = .fill op name i MINIX_NAME_LEN true) : Inv (c.fillIn p i name ino) := by
  obtain ⟨hname, hlt, hfree, hbytes, habsent⟩ : (Proc.fill op name i MINIX_NAME_LEN true).Ok c := hp ▸ h.proc p
  have hslot : ∀ j, j ≠ i → (c.fillIn p i name ino).slots j = c.slots j := fun j hj => if_neg hj
  have hself : (c.fillIn p i name ino).slots i = { c.slots i with inode := ino } := if_pos rfl
  have hlive : ∀ j, (c.fillIn p i name ino).Live j → j ≠ i → c.Live j := by
    intro j hj hji
    unfold Config.Live at hj
    rw [hslot j hji] at hj
    exact hj
  -- the new entry has the name that was copied
  have hnamed : ((c.fillIn p i name ino).slots i).Named name := by
    rw [hself]
    refine ⟨hname.length, hname.noZero, fun hl => ?_, fun k b hk => ?_⟩
    · rw [hbytes _ hl, List.getD_eq_default _ _ (Nat.le_refl _)]
    · have hk14 := (List.getElem?_eq_some_iff.mp hk).1
      rw [hbytes k (by have := hname.length; omega), List.getD_eq_getElem?_getD, hk]
      rfl
  have hother : ∀ j n, (c.fillIn p i name ino).Live j → j ≠ i → ((c.fillIn p i name ino).slots j).Named n →
      (c.fillIn p i name ino).Live i → ((c.fillIn p i name ino).slots i).Named n → False := by
    intro j n hj hji hn _ hni
    obtain rfl := hnamed.inj hni
    rw [hslot j hji] at hn
    exact habsent rfl j trivial (hlive j hj hji) hn
  refine ⟨fun a b n ha hb hna hnb => ?_, fun x => ?_, fun x y j hx hy => ?_⟩
  · by_cases hai : a = i
    · subst hai
      by_cases hba : b = a
      · exact hba.symm
      · exact (hother b n hb hba hnb ha hna).elim
    · by_cases hbi : b = i
      · subst hbi
        exact (hother a n ha hai hna hb hnb).elim
      · rw [hslot a hai] at hna
        rw [hslot b hbi] at hnb
        exact h.unique a b n (hlive a ha hai) (hlive b hb hbi) hna hnb
  · by_cases hxp : x = p
    · subst hxp
      have hidle : (c.fillIn x i name ino).procs x = .idle := if_pos rfl
      rw [hidle]
      trivial
    · have htaint : (c.fillIn p i name ino).procs x = (c.procs x).taint name := if_neg hxp
      rw [htaint]
      have hx := h.proc x
      -- what is still the only one has another name
      have habs : ∀ {n : List Byte} {f : Bool} {seen : Nat → Prop}, (f = true → Absent c n seen) →
          (f && n != name) = true → Absent (c.fillIn p i name ino) n seen := by
        intro n f seen ha hf j hj hlj hn
        rw [Bool.and_eq_true, bne_iff_ne] at hf
        by_cases hji : j = i
        · subst hji
          exact hf.2 (hn.inj hnamed)
        · rw [hslot j hji] at hn
          exact ha hf.1 j hj (hlive j hlj hji) hn
      cases hproc : c.procs x with
      | idle => trivial
      | find op' n j entries fresh =>
          rw [hproc] at hx
          exact ⟨hx.1, hx.2.1, habs hx.2.2⟩
      | alloc op' n fresh =>
          rw [hproc] at hx
          exact ⟨hx.1, habs hx.2⟩
      | add op' n j fresh =>
          rw [hproc] at hx
          exact ⟨hx.1, hx.2.1, habs hx.2.2⟩
      | fill op' n j k fresh =>
          rw [hproc] at hx
          have hji : j ≠ i := by
            rintro rfl
            exact hxp (h.one x p j (hproc ▸ rfl) (hp ▸ rfl))
          refine ⟨hx.1, hx.2.1, ?_, ?_, habs hx.2.2.2.2⟩
          · rw [hslot j hji]
            exact hx.2.2.1
          · rw [hslot j hji]
            exact hx.2.2.2.1
      | replace n j ino' =>
          rw [hproc] at hx
          exact hx
  · have hfills : ∀ z, ((c.fillIn p i name ino).procs z).Fills j → (c.procs z).Fills j := by
      intro z hz
      by_cases hzp : z = p
      · subst hzp
        have hidle : (c.fillIn z i name ino).procs z = .idle := if_pos rfl
        rw [hidle] at hz
        exact hz.elim
      · have htaint : (c.fillIn p i name ino).procs z = (c.procs z).taint name := if_neg hzp
        rw [htaint] at hz
        exact (Proc.taint_fills name _ j).mp hz
    exact h.one x y j (hfills x hx) (hfills y hy)

/-- **One clear step keeps the invariant.** -/
theorem Inv.step {c c' : Config} (h : Inv c) (hstep : ClearStep c c') : Inv c' := by
  obtain ⟨e, hclear, hstep⟩ := hstep
  cases hstep with
  | @start p op name hp hne hlen hz =>
      refine h.setProc ⟨⟨hne, hlen, hz⟩, Nat.le_refl _, fun _ j hj hlive => ?_⟩ fun i hi => hi.elim
      have := hlive.1
      omega
  | refused hp => exact hclear.elim
  | @findNext p i entries op name fresh hp hi hm =>
      obtain ⟨hname, hle, habsent⟩ : (Proc.find op name i entries fresh).Ok c := hp ▸ h.proc p
      refine h.setProc ⟨hname, hle, fun hf j hj hlive hn => ?_⟩ fun i hi => hi.elim
      by_cases hji : j = i
      · subst hji
        exact hm ((minixMatch_iff hname.ne hname.length hname.noZero).mpr ⟨hlive.2, hn⟩)
      · exact habsent hf j (by omega) hlive hn
  | findUnread hp => exact hclear.elim
  | exists_ hp hi hm hop => exact h.setProc trivial fun i hi => hi.elim
  | @target p i entries name fresh hp hi hm =>
      obtain ⟨hname, hle, -⟩ : (Proc.find .rename name i entries fresh).Ok c := hp ▸ h.proc p
      exact h.setProc ⟨hname, by omega, hm.1⟩ fun i hi => hi.elim
  | @absent p i entries op name fresh hp hi =>
      obtain ⟨hname, hle, habsent⟩ : (Proc.find op name i entries fresh).Ok c := hp ▸ h.proc p
      exact h.setProc ⟨hname, fun hf j _ => habsent hf j (by omega)⟩ fun i hi => hi.elim
  | fail hp => exact h.setProc trivial fun i hi => hi.elim
  | @allocated p op name fresh hp =>
      obtain ⟨hname, habsent⟩ : (Proc.alloc op name fresh).Ok c := hp ▸ h.proc p
      exact h.setProc ⟨hname, Nat.zero_le _, habsent⟩ fun i hi => hi.elim
  | @addNext p i op name fresh hp hlive =>
      obtain ⟨hname, hle, habsent⟩ : (Proc.add op name i fresh).Ok c := hp ▸ h.proc p
      exact h.setProc ⟨hname, hlive.1, habsent⟩ fun i hi => hi.elim
  | addUnread hp => exact hclear.elim
  | @grow p i op name fresh hp hi =>
      obtain ⟨hname, hle, habsent⟩ : (Proc.add op name i fresh).Ok c := hp ▸ h.proc p
      obtain rfl : i = c.size := Nat.le_antisymm hle hi
      exact h.grow
  | @take p i op name fresh hp hi hfree =>
      obtain ⟨hname, hle, habsent⟩ : (Proc.add op name i fresh).Ok c := hp ▸ h.proc p
      refine h.setProc ⟨hname, hi, hfree, fun y hy => absurd hy (by omega), habsent⟩ fun j hj => .inr ?_
      obtain rfl : i = j := hj
      exact hclear
  | copy m hp hm => exact h.copy m hp
  | @fillIn p i op name fresh ino hp hino =>
      obtain rfl : fresh = true := hclear (name, fresh) (by rw [hp]; rfl)
      exact h.fillIn hp
  | @again p i name fresh hp =>
      obtain ⟨hname, -⟩ : (Proc.fill .rename name i MINIX_NAME_LEN fresh).Ok c := hp ▸ h.proc p
      refine h.setProc ⟨hname, Nat.le_refl _, fun _ j hj hlive => ?_⟩ fun i hi => hi.elim
      have := hlive.1
      omega
  | replace new hp hsame hnew => exact h.replace hp hsame
  | @replaceAgain p i name ino hp =>
      obtain ⟨hname, -⟩ : (Proc.replace name i ino).Ok c := hp ▸ h.proc p
      refine h.setProc ⟨hname, Nat.le_refl _, fun _ j hj hlive => ?_⟩ fun i hi => hi.elim
      have := hlive.1
      omega
  | replaceFail hp => exact h.setProc trivial fun i hi => hi.elim
  | remove i => exact h.clear i

/-- A directory without two entries of one name, and nobody at work on it. -/
structure Start (c : Config) : Prop where
  unique : Unique c
  idle : ∀ p, c.procs p = .idle

theorem Start.inv {c : Config} (h : Start c) : Inv c where
  unique := h.unique
  proc p := by
    rw [h.idle p]
    trivial
  one p q i hp _ := by
    rw [h.idle p] at hp
    exact hp.elim

/-- A new directory: `.` and `..`. -/
def newDir : Config where
  slots := fun i => if i = 0 then ⟨5, fun k => if k = 0 then 46 else 0⟩
    else if i = 1 then ⟨1, fun k => if k < 2 then 46 else 0⟩ else ⟨0, fun _ => 0⟩
  size := 2
  procs := fun _ => .idle

/-- Any number of steps, clear or not. -/
def Run : Config → Config → Prop := Relation.ReflTransGen fun c c' => ∃ e, Step c e c'

end DirEntry
end Minix
end Fs
end Linux095
