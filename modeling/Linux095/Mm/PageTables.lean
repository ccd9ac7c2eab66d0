import Mathlib.Logic.Function.Basic
import Linux095.Count.Refs
import Linux095.Mm.Vm

/-!
# `Mm.PageTables` — what the page tables, `mem_map` and the kernel's pages have to do with each other

* `Ref`, `target` — the places that refer to a page: an entry of the directory, an entry of a page table, the kernel;
* `Tables` — the shape of the page tables: no table is used twice, and a page has one place in the tasks that map it;
* `Counts` — **`mem_map` counts the references**, and the pages of tables and of the kernel have one;
* `Counts.take` and so on — each thing the memory manager does to a page keeps it.
-/

namespace Linux095
namespace Mm
namespace Vm

open Linux095.Count

/-- The page of an entry. -/
def Entry.frame : Entry → Option Frame
  | page f _ _ => some f
  | _ => Option.none

/-- A place that refers to a page. -/
inductive Ref where
  | dir (d : Nat)
  | entry (d i : Nat)
  | kernel (f : Frame)
  deriving DecidableEq

/-- The page a place refers to. The tables of the first task are the kernel's own map of the memory. -/
def Paging.target (s : Paging) : Ref → Option Frame
  | .dir d => if TASK_TABLES ≤ d then s.dir d else none
  | .entry d i => if TASK_TABLES ≤ d then (s.entry d i).frame else none
  | .kernel f => if s.kernel f then some f else none

/-! ## Fields -/

section
variable (s : Paging)

@[simp] theorem dir_setEntry (d i : Nat) (e : Entry) : (s.setEntry d i e).dir = s.dir := by
  unfold Paging.setEntry
  split <;> rfl
@[simp] theorem memMap_setEntry (d i : Nat) (e : Entry) : (s.setEntry d i e).memMap = s.memMap := by
  unfold Paging.setEntry
  split <;> rfl
@[simp] theorem kernel_setEntry (d i : Nat) (e : Entry) : (s.setEntry d i e).kernel = s.kernel := by
  unfold Paging.setEntry
  split <;> rfl
@[simp] theorem data_setEntry (d i : Nat) (e : Entry) : (s.setEntry d i e).data = s.data := by
  unfold Paging.setEntry
  split <;> rfl
@[simp] theorem free_setEntry (d i : Nat) (e : Entry) : (s.setEntry d i e).free = s.free := by
  unfold Paging.setEntry
  split <;> rfl
@[simp] theorem queue_setEntry (d i : Nat) (e : Entry) : (s.setEntry d i e).queue = s.queue := by
  unfold Paging.setEntry
  split <;> rfl
@[simp] theorem disk_setEntry (d i : Nat) (e : Entry) : (s.setEntry d i e).disk = s.disk := by
  unfold Paging.setEntry
  split <;> rfl
@[simp] theorem saved_setEntry (d i : Nat) (e : Entry) : (s.setEntry d i e).saved = s.saved := by
  unfold Paging.setEntry
  split <;> rfl
@[simp] theorem startMem_setEntry (d i : Nat) (e : Entry) : (s.setEntry d i e).startMem = s.startMem := by
  unfold Paging.setEntry
  split <;> rfl
@[simp] theorem highMem_setEntry (d i : Nat) (e : Entry) : (s.setEntry d i e).highMem = s.highMem := by
  unfold Paging.setEntry
  split <;> rfl
@[simp] theorem badPage_setEntry (d i : Nat) (e : Entry) : (s.setEntry d i e).badPage = s.badPage := by
  unfold Paging.setEntry
  split <;> rfl
@[simp] theorem badSlot_setEntry (d i : Nat) (e : Entry) : (s.setEntry d i e).badSlot = s.badSlot := by
  unfold Paging.setEntry
  split <;> rfl

@[simp] theorem dir_freePage (f : Frame) : (s.freePage f).dir = s.dir := by
  unfold Paging.freePage
  repeat' split <;> try rfl
@[simp] theorem table_freePage (f : Frame) : (s.freePage f).table = s.table := by
  unfold Paging.freePage
  repeat' split <;> try rfl
@[simp] theorem kernel_freePage (f : Frame) : (s.freePage f).kernel = s.kernel := by
  unfold Paging.freePage
  repeat' split <;> try rfl
@[simp] theorem data_freePage (f : Frame) : (s.freePage f).data = s.data := by
  unfold Paging.freePage
  repeat' split <;> try rfl
@[simp] theorem free_freePage (f : Frame) : (s.freePage f).free = s.free := by
  unfold Paging.freePage
  repeat' split <;> try rfl
@[simp] theorem queue_freePage (f : Frame) : (s.freePage f).queue = s.queue := by
  unfold Paging.freePage
  repeat' split <;> try rfl
@[simp] theorem disk_freePage (f : Frame) : (s.freePage f).disk = s.disk := by
  unfold Paging.freePage
  repeat' split <;> try rfl
@[simp] theorem saved_freePage (f : Frame) : (s.freePage f).saved = s.saved := by
  unfold Paging.freePage
  repeat' split <;> try rfl
@[simp] theorem startMem_freePage (f : Frame) : (s.freePage f).startMem = s.startMem := by
  unfold Paging.freePage
  repeat' split <;> try rfl
@[simp] theorem highMem_freePage (f : Frame) : (s.freePage f).highMem = s.highMem := by
  unfold Paging.freePage
  repeat' split <;> try rfl
@[simp] theorem badSlot_freePage (f : Frame) : (s.freePage f).badSlot = s.badSlot := by
  unfold Paging.freePage
  repeat' split <;> try rfl
@[simp] theorem entry_freePage (f : Frame) : (s.freePage f).entry = s.entry := by
  unfold Paging.entry
  simp

@[simp] theorem dir_swapFree (n : Nat) : (s.swapFree n).dir = s.dir := by
  unfold Paging.swapFree
  repeat' split <;> try rfl
@[simp] theorem table_swapFree (n : Nat) : (s.swapFree n).table = s.table := by
  unfold Paging.swapFree
  repeat' split <;> try rfl
@[simp] theorem memMap_swapFree (n : Nat) : (s.swapFree n).memMap = s.memMap := by
  unfold Paging.swapFree
  repeat' split <;> try rfl
@[simp] theorem kernel_swapFree (n : Nat) : (s.swapFree n).kernel = s.kernel := by
  unfold Paging.swapFree
  repeat' split <;> try rfl
@[simp] theorem data_swapFree (n : Nat) : (s.swapFree n).data = s.data := by
  unfold Paging.swapFree
  repeat' split <;> try rfl
@[simp] theorem queue_swapFree (n : Nat) : (s.swapFree n).queue = s.queue := by
  unfold Paging.swapFree
  repeat' split <;> try rfl
@[simp] theorem disk_swapFree (n : Nat) : (s.swapFree n).disk = s.disk := by
  unfold Paging.swapFree
  repeat' split <;> try rfl
@[simp] theorem saved_swapFree (n : Nat) : (s.swapFree n).saved = s.saved := by
  unfold Paging.swapFree
  repeat' split <;> try rfl
@[simp] theorem startMem_swapFree (n : Nat) : (s.swapFree n).startMem = s.startMem := by
  unfold Paging.swapFree
  repeat' split <;> try rfl
@[simp] theorem highMem_swapFree (n : Nat) : (s.swapFree n).highMem = s.highMem := by
  unfold Paging.swapFree
  repeat' split <;> try rfl
@[simp] theorem badPage_swapFree (n : Nat) : (s.swapFree n).badPage = s.badPage := by
  unfold Paging.swapFree
  repeat' split <;> try rfl
@[simp] theorem entry_swapFree (n : Nat) : (s.swapFree n).entry = s.entry := by
  unfold Paging.entry
  simp

theorem entry_of_dir {d : Nat} {T : Frame} (hd : s.dir d = some T) (i : Nat) : s.entry d i = s.table T i := by
  unfold Paging.entry
  rw [hd]

theorem entry_of_no_dir {d : Nat} (hd : s.dir d = none) (i : Nat) : s.entry d i = .none := by
  unfold Paging.entry
  rw [hd]

theorem setEntry_of_dir {d : Nat} {T : Frame} (hd : s.dir d = some T) (i : Nat) (e : Entry) :
    s.setEntry d i e = s.setTable T i e := by
  unfold Paging.setEntry
  rw [hd]

theorem dir_of_entry {s : Paging} {d i : Nat} (he : s.entry d i ≠ .none) : ∃ T, s.dir d = some T := by
  unfold Paging.entry at he
  split at he
  · exact absurd rfl he
  · exact ⟨_, ‹_›⟩

theorem dir_ne_none {s : Paging} {d i : Nat} (he : s.entry d i ≠ .none) : s.dir d ≠ none := by
  obtain ⟨T, hT⟩ := dir_of_entry he
  simp [hT]

theorem dir_of_page {s : Paging} {d i : Nat} {f : Frame} {rw b : Bool} (he : s.entry d i = .page f rw b) :
    s.dir d ≠ none := dir_ne_none (by rw [he]; exact Entry.noConfusion)

end

/-! ## The shape of the page tables -/

/-- **The page tables.** -/
structure Tables (s : Paging) : Prop where
  low : LOW_MEM ≤ s.startMem
  high : s.highMem ≤ LOW_MEM + PAGING_PAGES
  /-- Page tables are pages of the managed memory, but for those of the first task. -/
  dirManaged : ∀ d T, TASK_TABLES ≤ d → s.dir d = some T → s.Managed T
  dirKernel : ∀ d T, d < TASK_TABLES → s.dir d = some T → T < LOW_MEM
  dirInj : ∀ d d' T, s.dir d = some T → s.dir d' = some T → d = d'
  dirRange : ∀ d, 1024 ≤ d → s.dir d = none
  entryRange : ∀ T i, 1024 ≤ i → s.table T i = .none
  /-- What is not a page table has no entries. -/
  orphan : ∀ T, (∀ d, s.dir d ≠ some T) → ∀ i, s.table T i = .none
  kernelManaged : ∀ f, s.kernel f → s.Managed f
  entryFrame : ∀ d i f rw b, TASK_TABLES ≤ d → s.entry d i = .page f rw b → f < LOW_MEM ∨ s.Managed f
  /-- The first task maps the low memory, as far as `fork` copies. -/
  first : ∀ i < 0xA0, s.entry 0 i = .none ∨ ∃ f rw b, f < LOW_MEM ∧ s.entry 0 i = .page f rw b
  /-- A page has the same address in every task that maps it. -/
  place : ∀ d d' i i' f rw b rw' b', TASK_TABLES ≤ d → TASK_TABLES ≤ d' → s.Managed f →
    s.entry d i = .page f rw b → s.entry d' i' = .page f rw' b' → d % TASK_TABLES = d' % TASK_TABLES ∧ i = i'

theorem Tables.entry_setEntry {s : Paging} (h : Tables s) {d : Nat} (hd : s.dir d ≠ none) (i : Nat) (e : Entry)
    (d' j : Nat) : (s.setEntry d i e).entry d' j = if d' = d ∧ j = i then e else s.entry d' j := by
  obtain ⟨T, hT⟩ := Option.ne_none_iff_exists'.mp hd
  rw [setEntry_of_dir s hT]
  cases hd' : s.dir d' with
  | none =>
      rw [entry_of_no_dir s hd', entry_of_no_dir (s.setTable T i e) hd', if_neg]
      rintro ⟨rfl, -⟩
      rw [hT] at hd'
      cases hd'
  | some T' =>
      rw [entry_of_dir s hd', entry_of_dir (s.setTable T i e) hd']
      show (if T' = T ∧ j = i then e else s.table T' j) = _
      by_cases he : d' = d
      · subst he
        rw [hT] at hd'
        obtain rfl := Option.some.inj hd'
        simp
      · have hT' : T' ≠ T := by
          rintro rfl
          exact he (h.dirInj _ _ _ hd' hT)
        rw [if_neg (fun hc => hT' hc.1), if_neg (fun hc => he hc.1)]

theorem Tables.index_lt {s : Paging} (h : Tables s) {d i : Nat} (he : s.entry d i ≠ .none) : i < 1024 := by
  obtain ⟨T, hT⟩ := dir_of_entry he
  by_contra hge
  rw [entry_of_dir s hT] at he
  exact he (h.entryRange T i (Nat.not_lt.mp hge))

theorem Tables.dir_lt {s : Paging} (h : Tables s) {d : Nat} (hd : s.dir d ≠ none) : d < 1024 := by
  by_contra hge
  exact hd (h.dirRange d (Nat.not_lt.mp hge))

theorem setEntry_comm {s : Paging} (h : Tables s) {d d' i i' : Nat} {e e' : Entry} (hne : d ≠ d') :
    (s.setEntry d i e).setEntry d' i' e' = (s.setEntry d' i' e').setEntry d i e := by
  cases hd : s.dir d with
  | none =>
      have hnone : ∀ x : Paging, x.dir = s.dir → x.setEntry d i e = x := by
        intro x hx
        unfold Paging.setEntry
        rw [hx, hd]
      rw [hnone s rfl, hnone _ (dir_setEntry _ _ _ _)]
  | some T =>
      cases hd' : s.dir d' with
      | none =>
          have hnone : ∀ x : Paging, x.dir = s.dir → x.setEntry d' i' e' = x := by
            intro x hx
            unfold Paging.setEntry
            rw [hx, hd']
          rw [hnone s rfl, hnone _ (dir_setEntry _ _ _ _)]
      | some T' =>
          have hTT : T ≠ T' := by
            rintro rfl
            exact hne (h.dirInj _ _ _ hd hd')
          rw [setEntry_of_dir _ (d := d') (T := T') (by rw [dir_setEntry, hd']), setEntry_of_dir _ hd,
            setEntry_of_dir _ (d := d) (T := T) (by rw [dir_setEntry, hd]), setEntry_of_dir _ hd']
          unfold Paging.setTable
          congr 1
          funext x j
          show (if x = T' ∧ j = i' then e' else if x = T ∧ j = i then e else s.table x j) =
            (if x = T ∧ j = i then e else if x = T' ∧ j = i' then e' else s.table x j)
          by_cases hx : x = T
          · subst hx
            rw [if_neg (fun hc => hTT hc.1)]
            simp [hTT]
          · simp [hx]

/-- Only the tables matter, and the kernel's pages. -/
theorem Tables.congr {s s' : Paging} (h : Tables s) (hs : s'.startMem = s.startMem) (hh : s'.highMem = s.highMem)
    (hd : s'.dir = s.dir) (ht : s'.table = s.table) (hk : ∀ f, s'.kernel f → s.kernel f ∨ s.Managed f) :
    Tables s' := by
  have hm : ∀ f, s'.Managed f ↔ s.Managed f := by
    intro f
    unfold Paging.Managed
    rw [hs, hh]
  have he : s'.entry = s.entry := by
    unfold Paging.entry
    rw [hd, ht]
  constructor
  · rw [hs]; exact h.low
  · rw [hh]; exact h.high
  · intro d T hd16 hT
    rw [hd] at hT
    exact (hm T).mpr (h.dirManaged d T hd16 hT)
  · rw [hd]; exact h.dirKernel
  · rw [hd]; exact h.dirInj
  · rw [hd]; exact h.dirRange
  · rw [ht]; exact h.entryRange
  · rw [hd, ht]; exact h.orphan
  · intro f hf
    rcases hk f hf with hk | hk
    · exact (hm f).mpr (h.kernelManaged f hk)
    · exact (hm f).mpr hk
  · intro d i f rw b hd16 hp
    rw [he] at hp
    exact (h.entryFrame d i f rw b hd16 hp).imp_right (hm f).mpr
  · rw [he]; exact h.first
  · intro d d' i i' f rw b rw' b' hd16 hd16' hf hp hp'
    rw [he] at hp hp'
    exact h.place d d' i i' f rw b rw' b' hd16 hd16' ((hm f).mp hf) hp hp'

theorem Tables.setEntry {s : Paging} (h : Tables s) {d i : Nat} {e : Entry} (hd : s.dir d ≠ none)
    (hd16 : TASK_TABLES ≤ d) (hi : i < 1024)
    (hf : ∀ f, e.frame = some f → (f < LOW_MEM ∨ s.Managed f) ∧ (s.Managed f → ∀ d' i' rw b, TASK_TABLES ≤ d' →
      s.entry d' i' = .page f rw b → d' % TASK_TABLES = d % TASK_TABLES ∧ i' = i)) :
    Tables (s.setEntry d i e) := by
  have hent := h.entry_setEntry hd i e
  obtain ⟨T, hT⟩ := Option.ne_none_iff_exists'.mp hd
  have hm : ∀ f, (s.setEntry d i e).Managed f ↔ s.Managed f := by
    intro f
    unfold Paging.Managed
    simp
  -- an entry that names a page is the new one, or an old one
  have hcase : ∀ {d' j f rw b}, (s.setEntry d i e).entry d' j = .page f rw b →
      (d' = d ∧ j = i ∧ e.frame = some f) ∨ s.entry d' j = .page f rw b := by
    intro d' j f rw b hp
    rw [hent] at hp
    split at hp
    · rename_i hc
      exact .inl ⟨hc.1, hc.2, by rw [hp]; rfl⟩
    · exact .inr hp
  constructor
  · simpa using h.low
  · simpa using h.high
  · intro d' T' hd' hT'
    rw [dir_setEntry] at hT'
    exact (hm T').mpr (h.dirManaged d' T' hd' hT')
  · simpa using h.dirKernel
  · simpa using h.dirInj
  · simpa using h.dirRange
  · intro T' j hj
    rw [setEntry_of_dir s hT]
    exact (if_neg (by omega)).trans (h.entryRange T' j hj)
  · intro T' hT' j
    rw [dir_setEntry] at hT'
    rw [setEntry_of_dir s hT]
    refine (if_neg ?_).trans (h.orphan T' hT' j)
    rintro ⟨rfl, -⟩
    exact hT' d hT
  · intro f hk
    rw [kernel_setEntry] at hk
    exact (hm f).mpr (h.kernelManaged f hk)
  · intro d' j f rw b hd' hp
    rcases hcase hp with ⟨rfl, rfl, he⟩ | hp
    · exact (hf f he).1.imp_right (hm f).mpr
    · exact (h.entryFrame d' j f rw b hd' hp).imp_right (hm f).mpr
  · intro j hj
    rw [hent, if_neg (by unfold TASK_TABLES at hd16; omega)]
    exact h.first j hj
  · intro d1 d2 i1 i2 f rw b rw' b' h1 h2 hmf hp hp'
    have hmf' := (hm f).mp hmf
    rcases hcase hp with ⟨rfl, rfl, he⟩ | hold
    · rcases hcase hp' with ⟨rfl, rfl, -⟩ | hold'
      · exact ⟨rfl, rfl⟩
      · obtain ⟨ha, hb⟩ := (hf f he).2 hmf' d2 i2 rw' b' h2 hold'
        exact ⟨ha.symm, hb.symm⟩
    · rcases hcase hp' with ⟨rfl, rfl, he⟩ | hold'
      · exact (hf f he).2 hmf' d1 i1 rw b h1 hold
      · exact h.place d1 d2 i1 i2 f rw b rw' b' h1 h2 hmf' hold hold'

/-! ## Counts -/

/-- **`mem_map` counts the references** to the pages it manages. -/
structure Counts (s : Paging) : Prop where
  tables : Tables s
  counted : Counted s.Managed s.target s.memMap
  /-- A page table is in one entry of the directory and nowhere else. -/
  dirOne : ∀ d T, TASK_TABLES ≤ d → s.dir d = some T → s.memMap T = 1
  /-- A page that the kernel holds is mapped nowhere. -/
  kernelOne : ∀ f, s.kernel f → s.memMap f = 1
  /-- No page was freed twice. -/
  good : s.badPage = false

theorem target_setEntry {s : Paging} (h : Tables s) {d : Nat} (hd : s.dir d ≠ none) (hd16 : TASK_TABLES ≤ d)
    (i : Nat) (e : Entry) : (s.setEntry d i e).target = Function.update s.target (.entry d i) e.frame := by
  funext r
  by_cases hr : r = .entry d i
  · subst hr
    rw [Function.update_self]
    show (if TASK_TABLES ≤ d then ((s.setEntry d i e).entry d i).frame else none) = _
    rw [if_pos hd16, h.entry_setEntry hd, if_pos ⟨rfl, rfl⟩]
  · rw [Function.update_of_ne hr]
    cases r with
    | dir d' => simp [Paging.target]
    | kernel f => simp [Paging.target]
    | entry d' j =>
        show (if TASK_TABLES ≤ d' then ((s.setEntry d i e).entry d' j).frame else none) = _
        have hne : ¬(d' = d ∧ j = i) := by
          rintro ⟨rfl, rfl⟩
          exact hr rfl
        rw [h.entry_setEntry hd, if_neg hne]
        rfl

theorem target_setKernel (s : Paging) (f : Frame) (b : Bool) :
    (s.setKernel f b).target = Function.update s.target (.kernel f) (if b then some f else none) := by
  funext r
  by_cases hr : r = .kernel f
  · subst hr
    rw [Function.update_self]
    show (if (if f = f then b else s.kernel f) then some f else none) = _
    rw [if_pos rfl]
  · rw [Function.update_of_ne hr]
    cases r with
    | dir d => rfl
    | entry d i => rfl
    | kernel g =>
        have hne : g ≠ f := by
          rintro rfl
          exact hr rfl
        show (if (if g = f then b else s.kernel g) then some g else none) = _
        simp only [if_neg hne]
        rfl

theorem target_entry {s : Paging} {d i : Nat} {f : Frame} {rw b : Bool} (hd : TASK_TABLES ≤ d)
    (he : s.entry d i = .page f rw b) : s.target (.entry d i) = some f := by
  unfold Paging.target
  dsimp only
  rw [if_pos hd, he]
  rfl

theorem target_kernel {s : Paging} {f : Frame} (hk : s.kernel f) : s.target (.kernel f) = some f := if_pos hk

theorem target_hole {s : Paging} {d i : Nat} (he : (s.entry d i).frame = none) : s.target (.entry d i) = none := by
  unfold Paging.target
  dsimp only
  rw [he]
  split <;> rfl

theorem memMap_freePage {s : Paging} (h : Tables s) {f : Frame} (hf : s.Managed f) :
    (s.freePage f).memMap = Function.update s.memMap f (s.memMap f - 1) := by
  unfold Paging.freePage
  rw [if_neg (Nat.not_lt.mpr (h.low.trans hf.1)), if_pos hf.2]
  funext x
  by_cases hx : x = f
  · subst hx
    rw [Function.update_self]
    exact if_pos rfl
  · rw [Function.update_of_ne hx]
    exact if_neg hx

theorem badPage_freePage {s : Paging} (h : Tables s) {f : Frame} (hf : s.Managed f) (hpos : 0 < s.memMap f) :
    (s.freePage f).badPage = s.badPage := by
  unfold Paging.freePage
  rw [if_neg (Nat.not_lt.mpr (h.low.trans hf.1)), if_pos hf.2]
  have hne : (s.memMap f == 0) = false := by
    rw [beq_eq_false_iff_ne]
    omega
  show (s.badPage || s.memMap f == 0) = s.badPage
  rw [hne, Bool.or_false]

theorem freePage_low {s : Paging} {f : Frame} (hf : f < LOW_MEM) : s.freePage f = s := if_pos hf

/-- Data, requests and slots do not matter. -/
theorem Counts.congr {s s' : Paging} (h : Counts s) (hs : s'.startMem = s.startMem) (hh : s'.highMem = s.highMem)
    (hd : s'.dir = s.dir) (ht : s'.table = s.table) (hk : s'.kernel = s.kernel) (hm : s'.memMap = s.memMap)
    (hb : s'.badPage = s.badPage) : Counts s' := by
  have hmg : s'.Managed = s.Managed := by
    unfold Paging.Managed
    rw [hs, hh]
  have htgt : s'.target = s.target := by
    unfold Paging.target Paging.entry
    rw [hd, ht, hk]
  refine ⟨h.tables.congr hs hh hd ht fun f hf => .inl (hk ▸ hf), ?_, ?_, ?_, ?_⟩
  · rw [hmg, htgt, hm]
    exact h.counted
  · rw [hd, hm]
    exact h.dirOne
  · rw [hk, hm]
    exact h.kernelOne
  · rw [hb]
    exact h.good

theorem entry_setDir_of_ne {s : Paging} {d d' : Nat} {T : Option Frame} (hne : d' ≠ d) (j : Nat) :
    (s.setDir d T).entry d' j = s.entry d' j := by
  have hdir : (s.setDir d T).dir d' = s.dir d' := if_neg hne
  cases hd : s.dir d' with
  | none => rw [entry_of_no_dir s hd, entry_of_no_dir _ (hdir.trans hd)]
  | some U =>
      rw [entry_of_dir s hd, entry_of_dir _ (hdir.trans hd)]
      rfl

theorem entry_setDir_some {s : Paging} {d : Nat} {T : Frame} (hd : s.dir d = none)
    (hT : ∀ j, s.table T j = .none) : (s.setDir d (some T)).entry = s.entry := by
  funext d' j
  by_cases he : d' = d
  · subst he
    rw [entry_of_no_dir s hd, entry_of_dir (s.setDir d' (some T)) (if_pos rfl)]
    exact hT j
  · exact entry_setDir_of_ne he j

theorem entry_setDir_none {s : Paging} {d : Nat} (hd : ∀ j, s.entry d j = .none) :
    (s.setDir d none).entry = s.entry := by
  funext d' j
  by_cases he : d' = d
  · subst he
    rw [hd j]
    exact entry_of_no_dir (s.setDir d' none) (if_pos rfl) j
  · exact entry_setDir_of_ne he j

theorem memMap_take {s : Paging} {f : Frame} (hf : s.CanTake f) :
    (s.take f).memMap = Function.update s.memMap f (s.memMap f + 1) := by
  funext x
  by_cases hx : x = f
  · subst hx
    rw [Function.update_self, hf.2]
    exact if_pos rfl
  · rw [Function.update_of_ne hx]
    exact if_neg hx

section
variable {s : Paging} (h : Counts s)
include h

theorem Counts.take_fresh {f : Frame} (hf : s.CanTake f) : ∀ r, s.target r ≠ some f :=
  h.counted.zero hf.1 hf.2

theorem Counts.not_kernel {f : Frame} (hf : s.CanTake f) : s.kernel f = false := by
  cases hk : s.kernel f with
  | false => rfl
  | true => exact absurd (target_kernel hk) (h.take_fresh hf _)

/-- A page that nobody uses is no page table. -/
theorem Counts.not_dir {f : Frame} (hf : s.CanTake f) (d : Nat) : s.dir d ≠ some f := by
  intro hd
  by_cases hd16 : TASK_TABLES ≤ d
  · refine h.take_fresh hf (.dir d) ?_
    unfold Paging.target
    dsimp only
    rw [if_pos hd16, hd]
  · have hlow := h.tables.dirKernel d f (Nat.lt_of_not_le hd16) hd
    exact absurd hlow (Nat.not_lt.mpr (h.tables.low.trans hf.1.1))

theorem Counts.table_take {f : Frame} (hf : s.CanTake f) : (s.take f).table = s.table := by
  funext T i
  show (if T = f then Entry.none else s.table T i) = _
  by_cases hT : T = f
  · rw [if_pos hT, hT, h.tables.orphan f (h.not_dir hf)]
  · rw [if_neg hT]

theorem Counts.entry_take {f : Frame} (hf : s.CanTake f) : (s.take f).entry = s.entry := by
  unfold Paging.entry
  rw [h.table_take hf]
  rfl

theorem Counts.target_take {f : Frame} (hf : s.CanTake f) :
    (s.take f).target = Function.update s.target (.kernel f) (some f) := by
  have hset := target_setKernel s f true
  rw [if_pos rfl] at hset
  rw [← hset]
  unfold Paging.target
  rw [h.entry_take hf]
  rfl

/-- What the kernel holds is no page table. -/
theorem Counts.kernel_not_dir {f : Frame} (hk : s.kernel f) (d : Nat) : s.dir d ≠ some f := by
  have hf := h.tables.kernelManaged f hk
  intro hd
  by_cases hd16 : TASK_TABLES ≤ d
  · have hdir : s.target (.dir d) = some f := (if_pos hd16).trans hd
    cases h.counted.one hf (h.kernelOne f hk) hdir (target_kernel hk)
  · have hlow := h.tables.dirKernel d f (Nat.lt_of_not_le hd16) hd
    exact absurd hlow (Nat.not_lt.mpr (h.tables.low.trans hf.1))

/-- No entry maps what the kernel holds. -/
theorem Counts.kernel_not_entry {f : Frame} (hk : s.kernel f) {d i : Nat} {rw b : Bool} (hd : TASK_TABLES ≤ d) :
    s.entry d i ≠ .page f rw b := by
  intro he
  cases h.counted.one (h.tables.kernelManaged f hk) (h.kernelOne f hk) (target_entry hd he) (target_kernel hk)

/-- No entry maps a page table. -/
theorem Counts.dir_not_entry {d d' i : Nat} {T : Frame} {rw b : Bool} (hd : TASK_TABLES ≤ d)
    (hT : s.dir d = some T) (hd' : TASK_TABLES ≤ d') : s.entry d' i ≠ .page T rw b := by
  intro he
  have hdir : s.target (.dir d) = some T := (if_pos hd).trans hT
  cases h.counted.one (h.tables.dirManaged d T hd hT) (h.dirOne d T hd hT) hdir (target_entry hd' he)

/-! ## `get_free_page` and `free_page` -/

/-- **`get_free_page`.** -/
theorem Counts.take {f : Frame} (hf : s.CanTake f) : Counts (s.take f) := by
  have hnk : ∀ g, s.Managed g → s.target (.kernel f) ≠ some g := by
    intro g _
    unfold Paging.target
    dsimp only
    rw [h.not_kernel hf]
    simp
  refine ⟨h.tables.congr rfl rfl rfl (h.table_take hf) ?_, ?_, ?_, ?_, h.good⟩
  · intro g hg
    have hg : (if g = f then true else s.kernel g) = true := hg
    split at hg
    · rename_i he
      exact .inr (he ▸ hf.1)
    · exact .inl hg
  · rw [h.target_take hf, memMap_take hf]
    exact h.counted.gain hnk
  · intro d T hd hT
    have hne : T ≠ f := by
      rintro rfl
      exact h.not_dir hf d hT
    exact (if_neg hne).trans (h.dirOne d T hd hT)
  · intro g hg
    have hg : (if g = f then true else s.kernel g) = true := hg
    show (if g = f then 1 else s.memMap g) = 1
    split at hg
    · rename_i he
      exact if_pos he
    · rename_i he
      rw [if_neg he]
      exact h.kernelOne g hg

/-- **`free_page`** of a page that the kernel holds. -/
theorem Counts.release {f : Frame} (hk : s.kernel f) : Counts (s.release f) := by
  have hf := h.tables.kernelManaged f hk
  have htab : Tables (s.setKernel f false) := by
    refine h.tables.congr rfl rfl rfl rfl fun g hg => .inl ?_
    have hg : (if g = f then false else s.kernel g) = true := hg
    split at hg
    · cases hg
    · exact hg
  have hmm : (s.release f).memMap = Function.update s.memMap f (s.memMap f - 1) := memMap_freePage htab hf
  have hone := h.kernelOne f hk
  refine ⟨htab.congr (startMem_freePage _ _) (highMem_freePage _ _) (dir_freePage _ _) (table_freePage _ _)
    fun g hg => .inl (by rwa [Paging.release, kernel_freePage] at hg), ?_, ?_, ?_, ?_⟩
  · have htgt : (s.release f).target = Function.update s.target (.kernel f) none := by
      refine Eq.trans ?_ (target_setKernel s f false)
      unfold Paging.target Paging.release
      rw [dir_freePage, entry_freePage, kernel_freePage]
    have hmg : (s.release f).Managed = s.Managed := by
      unfold Paging.Managed Paging.release
      simp only [startMem_freePage, highMem_freePage]
      rfl
    rw [htgt, hmm, hmg]
    exact h.counted.lose (target_kernel hk)
  · intro d T hd hT
    rw [Paging.release, dir_freePage] at hT
    have hne : T ≠ f := by
      rintro rfl
      exact h.kernel_not_dir hk d hT
    rw [hmm, Function.update_of_ne hne]
    exact h.dirOne d T hd hT
  · intro g hg
    rw [Paging.release, kernel_freePage] at hg
    have hg : (if g = f then false else s.kernel g) = true := hg
    split at hg
    · cases hg
    · rename_i he
      rw [hmm, Function.update_of_ne he]
      exact h.kernelOne g hg
  · have hpos : 0 < s.memMap f := by omega
    exact (badPage_freePage htab hf hpos).trans h.good

/-! ## Entries -/

/-- An entry of the low memory, or none, becomes another. -/
theorem Counts.setUnmanaged {d i : Nat} {e : Entry} (hd : s.dir d ≠ none) (hd16 : TASK_TABLES ≤ d) (hi : i < 1024)
    (hold : ∀ f, (s.entry d i).frame = some f → ¬s.Managed f)
    (hnew : ∀ f, e.frame = some f → f < LOW_MEM) : Counts (s.setEntry d i e) := by
  have hlow : ∀ f, f < LOW_MEM → ¬s.Managed f := fun f hf hm => absurd hf (Nat.not_lt.mpr (h.tables.low.trans hm.1))
  have htab : Tables (s.setEntry d i e) :=
    h.tables.setEntry hd hd16 hi fun f hf => ⟨.inl (hnew f hf), fun hm => absurd hm (hlow f (hnew f hf))⟩
  refine ⟨htab, ?_, ?_, ?_, ?_⟩
  · have hmg : (s.setEntry d i e).Managed = s.Managed := by
      unfold Paging.Managed
      simp
    rw [target_setEntry h.tables hd hd16, memMap_setEntry, hmg]
    refine h.counted.congr (fun r f hf => ?_) fun _ _ => rfl
    by_cases hr : r = .entry d i
    · subst hr
      rw [Function.update_self]
      constructor
      · intro he
        exact absurd hf (hlow f (hnew f he))
      · intro he
        have he : (s.entry d i).frame = some f := by
          unfold Paging.target at he
          dsimp only at he
          rwa [if_pos hd16] at he
        exact absurd hf (hold f he)
    · rw [Function.update_of_ne hr]
  · rw [dir_setEntry, memMap_setEntry]
    exact h.dirOne
  · rw [kernel_setEntry, memMap_setEntry]
    exact h.kernelOne
  · rw [badPage_setEntry]
    exact h.good

/-- An entry, with nothing of the managed memory in it, gets a page that the kernel held. -/
theorem Counts.install {d i : Nat} {f : Frame} {rw b : Bool} (hk : s.kernel f) (hd : s.dir d ≠ none)
    (hd16 : TASK_TABLES ≤ d) (hi : i < 1024) (hold : ∀ g, (s.entry d i).frame = some g → ¬s.Managed g) :
    Counts ((s.setEntry d i (.page f rw b)).setKernel f false) := by
  have hf := h.tables.kernelManaged f hk
  have htab : Tables (s.setEntry d i (.page f rw b)) := by
    refine h.tables.setEntry hd hd16 hi fun g hg => ?_
    obtain rfl := Option.some.inj hg
    exact ⟨.inr hf, fun _ d' i' rw' b' hd' he => absurd he (h.kernel_not_entry hk hd')⟩
  have hkernel : ∀ g, ((s.setEntry d i (.page f rw b)).setKernel f false).kernel g → g ≠ f ∧ s.kernel g := by
    intro g hg
    have hg : (if g = f then false else (s.setEntry d i (.page f rw b)).kernel g) = true := hg
    rw [kernel_setEntry] at hg
    split at hg
    · cases hg
    · exact ⟨‹_›, hg⟩
  refine ⟨htab.congr rfl rfl rfl rfl fun g hg => .inl ?_, ?_, ?_, ?_, ?_⟩
  · rw [kernel_setEntry]
    exact (hkernel g hg).2
  · have hmg : ((s.setEntry d i (.page f rw b)).setKernel f false).Managed = s.Managed := by
      unfold Paging.Managed
      show (fun f => (s.setEntry d i _).startMem ≤ f ∧ f < (s.setEntry d i _).highMem) = _
      simp
    have hmm : ((s.setEntry d i (.page f rw b)).setKernel f false).memMap = s.memMap := memMap_setEntry _ _ _ _
    have hentry : ∀ g, s.Managed g → s.target (.entry d i) ≠ some g := by
      intro g hg he
      unfold Paging.target at he
      dsimp only at he
      rw [if_pos hd16] at he
      exact hold g he hg
    rw [target_setKernel, target_setEntry h.tables hd hd16, hmg, hmm, Function.update_comm Ref.noConfusion]
    exact h.counted.move (target_kernel hk) hentry hf
  · intro d' T hd' hT
    have hT : (s.setEntry d i _).dir d' = some T := hT
    rw [dir_setEntry] at hT
    exact (congrFun (memMap_setEntry _ _ _ _) T).trans (h.dirOne d' T hd' hT)
  · intro g hg
    exact (congrFun (memMap_setEntry _ _ _ _) g).trans (h.kernelOne g (hkernel g hg).2)
  · exact (badPage_setEntry _ _ _ _).trans h.good

/-- The only entry of a page gives it up to the kernel. -/
theorem Counts.hold {d i : Nat} {f : Frame} {rw b : Bool} {e : Entry} (hd16 : TASK_TABLES ≤ d)
    (he : s.entry d i = .page f rw b) (hf : s.Managed f) (hone : s.memMap f = 1) (hhole : e.frame = none) :
    Counts ((s.setEntry d i e).setKernel f true) := by
  have hne : s.entry d i ≠ .none := by rw [he]; exact Entry.noConfusion
  obtain ⟨T, hT⟩ := dir_of_entry hne
  have hd : s.dir d ≠ none := by simp [hT]
  have htab : Tables (s.setEntry d i e) := by
    refine h.tables.setEntry hd hd16 (h.tables.index_lt hne) fun g hg => ?_
    rw [hhole] at hg
    cases hg
  have hmg : ((s.setEntry d i e).setKernel f true).Managed = s.Managed := by
    unfold Paging.Managed
    show (fun f => (s.setEntry d i _).startMem ≤ f ∧ f < (s.setEntry d i _).highMem) = _
    simp
  have hkernel : ∀ g, ((s.setEntry d i e).setKernel f true).kernel g → g = f ∨ s.kernel g := by
    intro g hg
    have hg : (if g = f then true else (s.setEntry d i e).kernel g) = true := hg
    rw [kernel_setEntry] at hg
    split at hg
    · exact .inl ‹_›
    · exact .inr hg
  refine ⟨htab.congr rfl rfl rfl rfl fun g hg => ?_, ?_, ?_, ?_, ?_⟩
  · rcases hkernel g hg with rfl | hg
    · exact .inr (by rw [← hmg] at hf; exact hf)
    · exact .inl (by rwa [kernel_setEntry])
  · have hmm : ((s.setEntry d i e).setKernel f true).memMap = s.memMap := memMap_setEntry _ _ _ _
    have hkern : ∀ g, s.Managed g → s.target (.kernel f) ≠ some g := by
      intro g _ hg
      unfold Paging.target at hg
      dsimp only at hg
      split at hg
      · rename_i hk
        exact h.kernel_not_entry hk hd16 he
      · cases hg
    rw [target_setKernel, target_setEntry h.tables hd hd16, hmg, hmm, hhole]
    exact h.counted.move (target_entry hd16 he) hkern hf
  · intro d' T' hd' hT'
    have hT' : (s.setEntry d i e).dir d' = some T' := hT'
    rw [dir_setEntry] at hT'
    exact (congrFun (memMap_setEntry _ _ _ _) T').trans (h.dirOne d' T' hd' hT')
  · intro g hg
    refine (congrFun (memMap_setEntry _ _ _ _) g).trans ?_
    rcases hkernel g hg with rfl | hg
    · exact hone
    · exact h.kernelOne g hg
  · exact (badPage_setEntry _ _ _ _).trans h.good

/-- The flags of an entry change. -/
theorem Counts.setFlags {d i : Nat} {f : Frame} {rw b : Bool} (rw' b' : Bool) (hd16 : TASK_TABLES ≤ d)
    (he : s.entry d i = .page f rw b) : Counts (s.setEntry d i (.page f rw' b')) := by
  obtain ⟨T, hT⟩ := dir_of_entry (by rw [he]; exact Entry.noConfusion)
  have hd : s.dir d ≠ none := by simp [hT]
  have hi : i < 1024 := h.tables.index_lt (by rw [he]; exact Entry.noConfusion)
  have htab : Tables (s.setEntry d i (.page f rw' b')) := by
    refine h.tables.setEntry hd hd16 hi fun g hg => ?_
    obtain rfl := Option.some.inj hg
    refine ⟨h.tables.entryFrame d i _ rw b hd16 he, fun hm d' i' rw'' b'' hd' he' => ?_⟩
    exact h.tables.place d' d i' i _ rw'' b'' rw b hd' hd16 hm he' he
  refine ⟨htab, ?_, ?_, ?_, ?_⟩
  · have hmg : (s.setEntry d i (.page f rw' b')).Managed = s.Managed := by
      unfold Paging.Managed
      simp
    have hself : Function.update s.target (.entry d i) (some f) = s.target := by
      rw [← target_entry hd16 he]
      exact Function.update_eq_self _ _
    rw [target_setEntry h.tables hd hd16, memMap_setEntry, hmg]
    show Counted _ (Function.update s.target (.entry d i) (some f)) _
    rw [hself]
    exact h.counted
  · rw [dir_setEntry, memMap_setEntry]
    exact h.dirOne
  · rw [kernel_setEntry, memMap_setEntry]
    exact h.kernelOne
  · rw [badPage_setEntry]
    exact h.good

/-- **`free_page`** of the page of an entry that is given up. -/
theorem Counts.drop {d i : Nat} {f : Frame} {rw b : Bool} {e : Entry} (hd16 : TASK_TABLES ≤ d)
    (he : s.entry d i = .page f rw b) (hhole : e.frame = none) : Counts ((s.setEntry d i e).freePage f) := by
  have hne : s.entry d i ≠ .none := by rw [he]; exact Entry.noConfusion
  obtain ⟨T, hT⟩ := dir_of_entry hne
  have hd : s.dir d ≠ none := by simp [hT]
  rcases h.tables.entryFrame d i f rw b hd16 he with hlow | hf
  · rw [freePage_low hlow]
    refine h.setUnmanaged hd hd16 (h.tables.index_lt hne) (fun g hg hm => ?_) fun g hg => ?_
    · rw [he] at hg
      obtain rfl := Option.some.inj hg
      exact absurd hlow (Nat.not_lt.mpr (h.tables.low.trans hm.1))
    · rw [hhole] at hg
      cases hg
  · have htab : Tables (s.setEntry d i e) := by
      refine h.tables.setEntry hd hd16 (h.tables.index_lt hne) fun g hg => ?_
      rw [hhole] at hg
      cases hg
    have hmg : (s.setEntry d i e).Managed = s.Managed := by
      unfold Paging.Managed
      simp
    have hf' : (s.setEntry d i e).Managed f := by rwa [hmg]
    have hmm := memMap_freePage htab hf'
    rw [memMap_setEntry] at hmm
    refine ⟨htab.congr (startMem_freePage _ _) (highMem_freePage _ _) (dir_freePage _ _) (table_freePage _ _)
      fun g hg => .inl (by rwa [kernel_freePage] at hg), ?_, ?_, ?_, ?_⟩
    · have hmg' : ((s.setEntry d i e).freePage f).Managed = s.Managed := by
        unfold Paging.Managed
        simp
      have htgt : ((s.setEntry d i e).freePage f).target = Function.update s.target (.entry d i) none := by
        rw [← hhole, ← target_setEntry h.tables hd hd16]
        unfold Paging.target
        rw [dir_freePage, entry_freePage, kernel_freePage]
      rw [hmg', htgt, hmm]
      exact h.counted.lose (target_entry hd16 he)
    · intro d' T' hd' hT'
      rw [dir_freePage, dir_setEntry] at hT'
      have hTf : T' ≠ f := by
        rintro rfl
        exact h.dir_not_entry hd' hT' hd16 he
      rw [hmm, Function.update_of_ne hTf]
      exact h.dirOne d' T' hd' hT'
    · intro g hg
      rw [kernel_freePage, kernel_setEntry] at hg
      have hgf : g ≠ f := by
        rintro rfl
        exact h.kernel_not_entry hg hd16 he
      rw [hmm, Function.update_of_ne hgf]
      exact h.kernelOne g hg
    · have hpos : 0 < (s.setEntry d i e).memMap f := by
        rw [memMap_setEntry]
        exact h.counted.pos hf (target_entry hd16 he)
      rw [badPage_freePage htab hf' hpos, badPage_setEntry]
      exact h.good

/-- A task maps a page of the tables at one place, so that an `unsigned char` is enough for `mem_map`. -/
theorem Counts.memMap_le {d i : Nat} {f : Frame} {rw b : Bool} (hf : s.Managed f) (hd : TASK_TABLES ≤ d)
    (he : s.entry d i = .page f rw b) : s.memMap f ≤ NR_TASKS := by
  have hentry : ∀ r, s.target r = some f → ∃ d' i' rw' b', r = .entry d' i' ∧ TASK_TABLES ≤ d' ∧
      s.entry d' i' = .page f rw' b' := by
    intro r hr
    cases r with
    | dir d' =>
        unfold Paging.target at hr
        dsimp only at hr
        split at hr
        · exact absurd he (h.dir_not_entry ‹_› hr hd)
        · cases hr
    | kernel g =>
        unfold Paging.target at hr
        dsimp only at hr
        split at hr
        · obtain rfl := Option.some.inj hr
          exact absurd he (h.kernel_not_entry ‹_› hd)
        · cases hr
    | entry d' i' =>
        unfold Paging.target at hr
        dsimp only at hr
        split at hr
        · cases he' : s.entry d' i' with
          | none => rw [he'] at hr; cases hr
          | swap n => rw [he'] at hr; cases hr
          | page g rw' b' =>
              rw [he'] at hr
              obtain rfl := Option.some.inj hr
              exact ⟨d', i', rw', b', rfl, ‹_›, he'⟩
        · cases hr
  -- the task of an entry
  let task : Ref → Nat := fun r => match r with
    | .entry d _ => d / TASK_TABLES
    | _ => 0
  have hle := h.counted.le hf (t := Finset.range NR_TASKS) task ?_ ?_
  · rwa [Finset.card_range] at hle
  · intro r hr
    obtain ⟨d', i', rw', b', rfl, hd', he'⟩ := hentry r hr
    obtain ⟨T', hT'⟩ := dir_of_entry (s := s) (d := d') (i := i') (by rw [he']; exact Entry.noConfusion)
    have hlt := h.tables.dir_lt (d := d') (by simp [hT'])
    apply Finset.mem_range.mpr
    show d' / TASK_TABLES < NR_TASKS
    unfold TASK_TABLES NR_TASKS
    omega
  · intro r r' hr hr' hsame
    obtain ⟨d1, i1, rw1, b1, rfl, hd1, he1⟩ := hentry r hr
    obtain ⟨d2, i2, rw2, b2, rfl, hd2, he2⟩ := hentry r' hr'
    obtain ⟨hmod, rfl⟩ := h.tables.place d1 d2 i1 i2 f rw1 b1 rw2 b2 hd1 hd2 hf he1 he2
    have hsame : d1 / TASK_TABLES = d2 / TASK_TABLES := hsame
    have h1 := Nat.div_add_mod d1 TASK_TABLES
    have h2 := Nat.div_add_mod d2 TASK_TABLES
    rw [hsame, hmod, h2] at h1
    rw [h1]

/-- **`mem_map[..]++`** with another entry for a page, at the same place in its task. -/
theorem Counts.addEntry {d d' i : Nat} {f : Frame} {rw b rw' b' : Bool} (hd : s.dir d ≠ none)
    (hd16 : TASK_TABLES ≤ d) (hi : i < 1024) (hhole : (s.entry d i).frame = none) (hf : s.Managed f)
    (hd' : TASK_TABLES ≤ d') (he : s.entry d' i = .page f rw' b') (hplace : d % TASK_TABLES = d' % TASK_TABLES) :
    Counts ((s.setEntry d i (.page f rw b)).share f) := by
  have htab : Tables (s.setEntry d i (.page f rw b)) := by
    refine h.tables.setEntry hd hd16 hi fun g hg => ?_
    obtain rfl := Option.some.inj hg
    refine ⟨.inr hf, fun _ d2 i2 rw2 b2 hd2 he2 => ?_⟩
    obtain ⟨hmod, hi2⟩ := h.tables.place d2 d' i2 i _ rw2 b2 rw' b' hd2 hd' hf he2 he
    exact ⟨hmod.trans hplace.symm, hi2⟩
  have hle := h.memMap_le hf hd' he
  have hmm : ((s.setEntry d i (.page f rw b)).share f).memMap = Function.update s.memMap f (s.memMap f + 1) := by
    funext g
    show (if g = f then ((s.setEntry d i (.page f rw b)).memMap f + 1) % 256
      else (s.setEntry d i (.page f rw b)).memMap g) = _
    rw [memMap_setEntry]
    by_cases hg : g = f
    · subst hg
      rw [if_pos rfl, Function.update_self]
      unfold NR_TASKS at hle
      omega
    · rw [if_neg hg, Function.update_of_ne hg]
  have hmg : ((s.setEntry d i (.page f rw b)).share f).Managed = s.Managed := by
    unfold Paging.Managed
    show (fun f => (s.setEntry d i _).startMem ≤ f ∧ f < (s.setEntry d i _).highMem) = _
    simp
  refine ⟨htab.congr rfl rfl rfl rfl fun g hg => .inl hg, ?_, ?_, ?_, ?_⟩
  · have hentry : ∀ g, s.Managed g → s.target (.entry d i) ≠ some g := by
      intro g _
      rw [target_hole hhole]
      exact (Option.some_ne_none g).symm
    have htgt : ((s.setEntry d i (.page f rw b)).share f).target = Function.update s.target (.entry d i) (some f) :=
      target_setEntry h.tables hd hd16 i (.page f rw b)
    rw [hmm, hmg, htgt]
    exact h.counted.gain hentry
  · intro d2 T hd2 hT
    have hT' : (s.setEntry d i (.page f rw b)).dir d2 = some T := hT
    rw [dir_setEntry] at hT'
    have hTf : T ≠ f := by
      rintro rfl
      exact h.dir_not_entry hd2 hT' hd' he
    rw [hmm, Function.update_of_ne hTf]
    exact h.dirOne d2 T hd2 hT'
  · intro g hg
    have hg' : (s.setEntry d i (.page f rw b)).kernel g := hg
    rw [kernel_setEntry] at hg'
    have hgf : g ≠ f := by
      rintro rfl
      exact h.kernel_not_entry hg' hd' he
    rw [hmm, Function.update_of_ne hgf]
    exact h.kernelOne g hg'
  · exact (badPage_setEntry _ _ _ _).trans h.good

/-! ## Page tables come and go -/

/-- A page that the kernel holds becomes a page table. -/
theorem Counts.kernelToDir {d : Nat} {T : Frame} (hk : s.kernel T) (hnone : s.dir d = none)
    (hd16 : TASK_TABLES ≤ d) (hd : d < 1024) : Counts ((s.setKernel T false).setDir d (some T)) := by
  have hT := h.tables.kernelManaged T hk
  have hnot := h.kernel_not_dir hk
  have hempty := h.tables.orphan T hnot
  have hentry : ((s.setKernel T false).setDir d (some T)).entry = s.entry :=
    entry_setDir_some (s := s.setKernel T false) hnone hempty
  have hdir : ∀ {d' T'}, ((s.setKernel T false).setDir d (some T)).dir d' = some T' →
      (d' = d ∧ T' = T) ∨ (d' ≠ d ∧ s.dir d' = some T') := by
    intro d' T' hd'
    have hd' : (if d' = d then some T else s.dir d') = some T' := hd'
    split at hd'
    · exact .inl ⟨‹_›, (Option.some.inj hd').symm⟩
    · exact .inr ⟨‹_›, hd'⟩
  have hkernel : ∀ g, ((s.setKernel T false).setDir d (some T)).kernel g → g ≠ T ∧ s.kernel g := by
    intro g hg
    have hg : (if g = T then false else s.kernel g) = true := hg
    split at hg
    · cases hg
    · exact ⟨‹_›, hg⟩
  constructor
  · constructor
    · exact h.tables.low
    · exact h.tables.high
    · intro d' T' hd' hT'
      rcases hdir hT' with ⟨-, rfl⟩ | ⟨-, hT'⟩
      · exact hT
      · exact h.tables.dirManaged d' T' hd' hT'
    · intro d' T' hd' hT'
      rcases hdir hT' with ⟨rfl, -⟩ | ⟨-, hT'⟩
      · exact absurd hd16 (Nat.not_le.mpr hd')
      · exact h.tables.dirKernel d' T' hd' hT'
    · intro d1 d2 T' h1 h2
      rcases hdir h1 with ⟨rfl, rfl⟩ | ⟨-, hold⟩
      · rcases hdir h2 with ⟨rfl, -⟩ | ⟨-, hold'⟩
        · rfl
        · exact absurd hold' (hnot d2)
      · rcases hdir h2 with ⟨-, rfl⟩ | ⟨-, hold'⟩
        · exact absurd hold (hnot d1)
        · exact h.tables.dirInj d1 d2 T' hold hold'
    · intro d' hd'
      refine (if_neg ?_).trans (h.tables.dirRange d' hd')
      rintro rfl
      exact absurd hd (Nat.not_lt.mpr hd')
    · exact h.tables.entryRange
    · intro T' hT'
      apply h.tables.orphan T'
      intro d' hd'
      refine hT' d' ((if_neg ?_).trans hd')
      rintro rfl
      rw [hnone] at hd'
      cases hd'
    · intro g hg
      exact h.tables.kernelManaged g (hkernel g hg).2
    · rw [hentry]
      exact h.tables.entryFrame
    · rw [hentry]
      exact h.tables.first
    · rw [hentry]
      exact h.tables.place
  · have htgt : ((s.setKernel T false).setDir d (some T)).target =
        Function.update (Function.update s.target (.kernel T) none) (.dir d) (some T) := by
      funext r
      have hset := congrFun (target_setKernel s T false) r
      cases r with
      | dir d' =>
          by_cases he : d' = d
          · subst he
            rw [Function.update_self]
            show (if TASK_TABLES ≤ d' then (if d' = d' then some T else s.dir d') else none) = some T
            rw [if_pos hd16, if_pos rfl]
          · rw [Function.update_of_ne (by simpa using he)]
            show (if TASK_TABLES ≤ d' then (if d' = d then some T else s.dir d') else none) = _
            rw [if_neg he]
            exact hset
      | entry d' j =>
          rw [Function.update_of_ne Ref.noConfusion]
          show (if TASK_TABLES ≤ d' then (((s.setKernel T false).setDir d (some T)).entry d' j).frame else none) = _
          rw [hentry]
          exact hset
      | kernel g =>
          rw [Function.update_of_ne Ref.noConfusion]
          exact hset
    rw [htgt]
    refine h.counted.move (target_kernel hk) (fun g _ => ?_) hT
    show (if TASK_TABLES ≤ d then s.dir d else none) ≠ some g
    rw [hnone]
    simp
  · intro d' T' hd' hT'
    rcases hdir hT' with ⟨-, rfl⟩ | ⟨-, hT'⟩
    · exact h.kernelOne T' hk
    · exact h.dirOne d' T' hd' hT'
  · intro g hg
    exact h.kernelOne g (hkernel g hg).2
  · exact h.good

/-- **A new page table.** -/
theorem Counts.newTable {d : Nat} {f : Frame} (hf : s.CanTake f) (hnone : s.dir d = none) (hd16 : TASK_TABLES ≤ d)
    (hd : d < 1024) : Counts (((s.take f).setKernel f false).setDir d (some f)) :=
  (h.take hf).kernelToDir (if_pos rfl) hnone hd16 hd

theorem Counts.entry_newTable {d : Nat} {f : Frame} (hf : s.CanTake f) (hnone : s.dir d = none) :
    (((s.take f).setKernel f false).setDir d (some f)).entry = s.entry := by
  rw [← h.entry_take hf]
  refine entry_setDir_some (s := (s.take f).setKernel f false) hnone fun j => ?_
  show (s.take f).table f j = .none
  exact if_pos rfl

/-- **A page table with nothing in it is freed.** -/
theorem Counts.removeTable {d : Nat} {T : Frame} (hT : s.dir d = some T) (hd16 : TASK_TABLES ≤ d)
    (hempty : ∀ j, s.entry d j = .none) : Counts ((s.setDir d none).freePage T) := by
  have hTm := h.tables.dirManaged d T hd16 hT
  have hentry := entry_setDir_none hempty
  have hdir : ∀ {d' T'}, (s.setDir d none).dir d' = some T' → d' ≠ d ∧ s.dir d' = some T' := by
    intro d' T' hd'
    have hd' : (if d' = d then none else s.dir d') = some T' := hd'
    split at hd'
    · cases hd'
    · exact ⟨‹_›, hd'⟩
  have htab : Tables (s.setDir d none) := by
    constructor
    · exact h.tables.low
    · exact h.tables.high
    · intro d' T' hd' hT'
      exact h.tables.dirManaged d' T' hd' (hdir hT').2
    · intro d' T' hd' hT'
      exact h.tables.dirKernel d' T' hd' (hdir hT').2
    · intro d1 d2 T' h1 h2
      exact h.tables.dirInj d1 d2 T' (hdir h1).2 (hdir h2).2
    · intro d' hd'
      show (if d' = d then none else s.dir d') = none
      split
      · rfl
      · exact h.tables.dirRange d' hd'
    · exact h.tables.entryRange
    · intro T' hT' j
      by_cases he : T' = T
      · subst he
        exact (entry_of_dir s hT j).symm.trans (hempty j)
      · refine h.tables.orphan T' (fun d' hd' => hT' d' ?_) j
        refine (if_neg ?_).trans hd'
        rintro rfl
        rw [hT] at hd'
        exact he (Option.some.inj hd').symm
    · exact h.tables.kernelManaged
    · rw [hentry]
      exact h.tables.entryFrame
    · rw [hentry]
      exact h.tables.first
    · rw [hentry]
      exact h.tables.place
  have hmm : ((s.setDir d none).freePage T).memMap = Function.update s.memMap T (s.memMap T - 1) :=
    memMap_freePage htab hTm
  refine ⟨htab.congr (startMem_freePage _ _) (highMem_freePage _ _) (dir_freePage _ _) (table_freePage _ _)
    fun g hg => .inl (by rwa [kernel_freePage] at hg), ?_, ?_, ?_, ?_⟩
  · have hmg : ((s.setDir d none).freePage T).Managed = s.Managed := by
      unfold Paging.Managed
      rw [startMem_freePage, highMem_freePage]
      rfl
    have htgt : ((s.setDir d none).freePage T).target = Function.update s.target (.dir d) none := by
      funext r
      have hfree : ((s.setDir d none).freePage T).target r = (s.setDir d none).target r := by
        unfold Paging.target
        rw [dir_freePage, entry_freePage, kernel_freePage]
      rw [hfree]
      cases r with
      | dir d' =>
          show (if TASK_TABLES ≤ d' then (if d' = d then none else s.dir d') else none) = _
          by_cases he : d' = d
          · subst he
            rw [Function.update_self, if_pos rfl]
            exact ite_self _
          · rw [Function.update_of_ne (by simpa using he), if_neg he]
            rfl
      | entry d' j =>
          rw [Function.update_of_ne Ref.noConfusion]
          show (if TASK_TABLES ≤ d' then ((s.setDir d none).entry d' j).frame else none) = _
          rw [hentry]
          rfl
      | kernel g =>
          rw [Function.update_of_ne Ref.noConfusion]
          rfl
    rw [hmg, htgt, hmm]
    exact h.counted.lose ((if_pos hd16).trans hT)
  · intro d' T' hd' hT'
    rw [dir_freePage] at hT'
    obtain ⟨hne, hT'⟩ := hdir hT'
    have hTT : T' ≠ T := by
      rintro rfl
      exact hne (h.tables.dirInj d' d T' hT' hT)
    rw [hmm, Function.update_of_ne hTT]
    exact h.dirOne d' T' hd' hT'
  · intro g hg
    rw [kernel_freePage] at hg
    have hgT : g ≠ T := by
      rintro rfl
      exact h.kernel_not_dir hg d hT
    rw [hmm, Function.update_of_ne hgT]
    exact h.kernelOne g hg
  · have hpos : 0 < (s.setDir d none).memMap T := (h.dirOne d T hd16 hT).symm ▸ Nat.one_pos
    exact (badPage_freePage htab hTm hpos).trans h.good

end

/-! ## `free_page_tables` -/

/-- One turn of the inner loop of `free_page_tables`, with the page table still in its place. -/
def Paging.dropEntry (d : Nat) (s : Paging) (i : Nat) : Paging :=
  match s.entry d i with
  | .none => s
  | .page f _ _ => (s.setEntry d i .none).freePage f
  | .swap n => (s.setEntry d i .none).swapFree n

theorem dir_dropEntry (s : Paging) (d i : Nat) : (s.dropEntry d i).dir = s.dir := by
  unfold Paging.dropEntry
  split <;> simp

theorem setDir_freePage (s : Paging) (d : Nat) (t : Option Frame) (f : Frame) :
    (s.setDir d t).freePage f = (s.freePage f).setDir d t := by
  unfold Paging.freePage
  show (if f < LOW_MEM then _ else if f < s.highMem then _ else _) = _
  repeat' split
  all_goals rfl

theorem setDir_swapFree (s : Paging) (d : Nat) (t : Option Frame) (n : Nat) :
    (s.setDir d t).swapFree n = (s.swapFree n).setDir d t := by
  unfold Paging.swapFree
  repeat' split
  all_goals rfl

theorem clearEntry_setDir {s : Paging} {d : Nat} {T : Frame} (hT : s.dir d = some T) (i : Nat) :
    Paging.clearEntry T (s.setDir d none) i = (s.dropEntry d i).setDir d none := by
  unfold Paging.clearEntry Paging.dropEntry
  rw [entry_of_dir s hT, setEntry_of_dir s hT]
  show (match s.table T i with | .none => _ | .page f _ _ => _ | .swap n => _) = _
  cases s.table T i with
  | none => rfl
  | page f rw b => exact setDir_freePage (s.setTable T i .none) d none f
  | swap n => exact setDir_swapFree (s.setTable T i .none) d none n

/-- The directory entry may as well be cleared after the table. -/
theorem foldl_clearEntry {d : Nat} {T : Frame} : ∀ (l : List Nat) {s : Paging}, s.dir d = some T →
    l.foldl (Paging.clearEntry T) (s.setDir d none) = (l.foldl (Paging.dropEntry d) s).setDir d none
  | [], _, _ => rfl
  | i :: l, s, hT => by
      show l.foldl _ (Paging.clearEntry T (s.setDir d none) i) = (l.foldl _ (s.dropEntry d i)).setDir d none
      rw [clearEntry_setDir hT]
      apply foldl_clearEntry l
      rw [dir_dropEntry]
      exact hT

theorem freeDir_eq {s : Paging} {d : Nat} {T : Frame} (hT : s.dir d = some T) :
    s.freeDir d = (((List.range 1024).foldl (Paging.dropEntry d) s).setDir d none).freePage T := by
  unfold Paging.freeDir
  rw [hT, ← foldl_clearEntry _ hT]

theorem Tables.entry_dropEntry {s : Paging} (h : Tables s) (d i d' j : Nat) :
    (s.dropEntry d i).entry d' j = if d' = d ∧ j = i then .none else s.entry d' j := by
  by_cases hd : s.dir d = none
  · unfold Paging.dropEntry
    rw [entry_of_no_dir s hd]
    show s.entry d' j = _
    split
    · rename_i hc
      rw [hc.1, entry_of_no_dir s hd]
    · rfl
  · unfold Paging.dropEntry
    cases he : s.entry d i with
    | none =>
        show s.entry d' j = _
        split
        · rename_i hc
          rw [hc.1, hc.2, he]
        · rfl
    | page f rw b =>
        show ((s.setEntry d i .none).freePage f).entry d' j = _
        rw [entry_freePage, h.entry_setEntry hd]
    | swap n =>
        show ((s.setEntry d i .none).swapFree n).entry d' j = _
        rw [entry_swapFree, h.entry_setEntry hd]

/-- **What each of its steps preserves, `free_page_tables` preserves.** -/
theorem freeDir_induct {P : Paging → Prop} {d : Nat} (htab : ∀ s, P s → Tables s)
    (hdrop : ∀ s i, P s → P (s.dropEntry d i))
    (hremove : ∀ s T, P s → s.dir d = some T → (∀ j, s.entry d j = .none) → P ((s.setDir d none).freePage T))
    {s : Paging} (h : P s) : P (s.freeDir d) := by
  cases hT : s.dir d with
  | none =>
      unfold Paging.freeDir
      rw [hT]
      exact h
  | some T =>
      have hloop : ∀ n, P ((List.range n).foldl (Paging.dropEntry d) s) ∧
          ((List.range n).foldl (Paging.dropEntry d) s).dir d = some T ∧
          ∀ j < n, ((List.range n).foldl (Paging.dropEntry d) s).entry d j = .none := by
        intro n
        induction n with
        | zero => exact ⟨h, hT, fun j hj => absurd hj (Nat.not_lt_zero j)⟩
        | succ n ih =>
            obtain ⟨hP, hdir, hnone⟩ := ih
            rw [List.range_succ, List.foldl_append]
            refine ⟨hdrop _ n hP, ?_, fun j hj => ?_⟩
            · show (Paging.dropEntry d _ n).dir d = some T
              rw [dir_dropEntry]
              exact hdir
            · show (Paging.dropEntry d _ n).entry d j = .none
              rw [(htab _ hP).entry_dropEntry]
              split
              · rfl
              · exact hnone j (by omega)
      obtain ⟨hP, hdir, hnone⟩ := hloop 1024
      rw [freeDir_eq hT]
      refine hremove _ T hP hdir fun j => ?_
      by_cases hj : j < 1024
      · exact hnone j hj
      · rw [entry_of_dir _ hdir]
        exact (htab _ hP).entryRange T j (Nat.not_lt.mp hj)

theorem freePageTables_induct {P : Paging → Prop} (htab : ∀ s, P s → Tables s) {d n : Nat}
    (hdrop : ∀ s k i, k < n → P s → P (s.dropEntry (d + k) i))
    (hremove : ∀ s k T, k < n → P s → s.dir (d + k) = some T → (∀ j, s.entry (d + k) j = .none) →
      P ((s.setDir (d + k) none).freePage T)) {s : Paging} (h : P s) : P (s.freePageTables d n) := by
  have hloop : ∀ m ≤ n, P (s.freePageTables d m) := by
    intro m
    induction m with
    | zero => exact fun _ => h
    | succ m ih =>
        intro hm
        unfold Paging.freePageTables
        rw [List.range_succ, List.foldl_append]
        exact freeDir_induct htab (fun s i => hdrop s m i hm) (fun s T => hremove s m T hm) (ih (by omega))
  exact hloop n (Nat.le_refl n)

theorem dir_foldl_clearEntry (T : Frame) : ∀ (l : List Nat) (s : Paging), (l.foldl (Paging.clearEntry T) s).dir = s.dir
  | [], _ => rfl
  | i :: l, s => by
      refine (dir_foldl_clearEntry T l _).trans ?_
      unfold Paging.clearEntry
      split
      · rfl
      · exact dir_freePage _ _
      · exact dir_swapFree _ _

theorem dir_freeDir (s : Paging) (d d' : Nat) : (s.freeDir d).dir d' = if d' = d then none else s.dir d' := by
  unfold Paging.freeDir
  split
  · rename_i hd
    split
    · rename_i he
      rw [he, hd]
    · rfl
  · rw [dir_freePage, dir_foldl_clearEntry]
    rfl

theorem dir_freePageTables (s : Paging) (d n d' : Nat) :
    (s.freePageTables d n).dir d' = if d ≤ d' ∧ d' < d + n then none else s.dir d' := by
  unfold Paging.freePageTables
  induction n with
  | zero =>
      rw [if_neg (by omega)]
      rfl
  | succ n ih =>
      rw [List.range_succ, List.foldl_append]
      show (Paging.freeDir _ (d + n)).dir d' = _
      rw [dir_freeDir, ih]
      by_cases he : d' = d + n
      · rw [if_pos he, if_pos (by omega)]
      · rw [if_neg he]
        by_cases hin : d ≤ d' ∧ d' < d + n
        · rw [if_pos hin, if_pos (by omega)]
        · rw [if_neg hin, if_neg (by omega)]

theorem Counts.dropEntry {s : Paging} (h : Counts s) {d : Nat} (hd16 : TASK_TABLES ≤ d) (i : Nat) :
    Counts (s.dropEntry d i) := by
  unfold Paging.dropEntry
  cases he : s.entry d i with
  | none => exact h
  | page f rw b => exact h.drop hd16 he rfl
  | swap n =>
      have hne : s.entry d i ≠ .none := by rw [he]; exact Entry.noConfusion
      obtain ⟨T, hT⟩ := dir_of_entry hne
      have hclear : Counts (s.setEntry d i .none) := by
        refine h.setUnmanaged (by simp [hT]) hd16 (h.tables.index_lt hne) (fun f hf => ?_) fun f hf => ?_
        · rw [he] at hf
          cases hf
        · cases hf
      exact hclear.congr (startMem_swapFree _ _) (highMem_swapFree _ _) (dir_swapFree _ _) (table_swapFree _ _)
        (kernel_swapFree _ _) (memMap_swapFree _ _) (badPage_swapFree _ _)

/-- **`free_page_tables`.** -/
theorem Counts.freePageTables {s : Paging} (h : Counts s) {d n : Nat} (hd16 : TASK_TABLES ≤ d) :
    Counts (s.freePageTables d n) :=
  freePageTables_induct (fun _ h => h.tables) (fun _ _ i _ h => h.dropEntry (by omega) i)
    (fun _ _ _ _ h hT hempty => h.removeTable hT (by omega) hempty) h

end Vm
end Mm
end Linux095
