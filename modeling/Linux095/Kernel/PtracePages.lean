import Linux095.Kernel.PtraceSegments

/-!
# `Kernel.PtracePages` — the pages of a traced task (`kernel/ptrace.c`)

* `Prepared` — what a preparation of the first page leaves alone;
* `prepareGet_cases`, `preparePut_cases` — what `get_long` and `put_long` have done before the access;
* `writeByte_own`, `putFsLong_own` — a store in pages of the child's own is not seen by the other tasks;
* `peek_poke_iff` — **when the accesses stay in the child**.
-/

namespace Linux095
namespace Kernel
namespace PtraceMemory

open Mm.Vm

/-! ## The other tasks -/

section
variable {s s' : Paging} {t : Nat}

/-- A page that a task has is in use. -/
theorem not_free (h : Counts s) {u v : Nat} {f : Frame} {rw b : Bool} (hv : v < pages u)
    (he : s.at u v = .page f rw b) : ¬s.CanTake f := by
  intro hf
  by_cases hu : u = 0
  · subst hu
    have hlow := h.tables.first_low hv he
    exact absurd hlow (Nat.not_lt.mpr (h.tables.low.trans hf.1.1))
  · have hpos := h.counted.pos hf.1 (target_entry (dirOf_ge hu) he)
    exact absurd hf.2 (Nat.ne_of_gt hpos)

/-- A page that belongs to one task is not in another one. -/
theorem not_shared (h : Counts s) {u v d i : Nat} {f g : Frame} {rw b rw' b' : Bool} (hd : TASK_TABLES ≤ d)
    (hpriv : Private s d i) (he : s.entry d i = .page f rw b) (hu : u ≠ d / TASK_TABLES) (hv : v < pages u)
    (hg : s.at u v = .page g rw' b') : g ≠ f := by
  rintro rfl
  obtain ⟨hlow, hone⟩ := hpriv g rw b he
  by_cases hu0 : u = 0
  · subst hu0
    exact absurd (h.tables.first_low hv hg) (Nat.not_lt.mpr hlow)
  · have hsole := h.sole (dirOf_ge hu0) hd (h.tables.managed hd he hlow) hone hg he
    have hv : v < 1024 * TASK_TABLES := by
      rw [pages, if_neg hu0] at hv
      exact hv
    exact hu (by rw [← hsole.1, dirOf_div hv])

theorem Same.refl (t : Nat) (s : Paging) : Same t s s :=
  ⟨fun _ _ _ _ => rfl, fun _ _ _ _ _ _ _ _ => rfl, rfl⟩

theorem Same.trans {s'' : Paging} (h : Same t s s') (h' : Same t s' s'') : Same t s s'' := by
  refine ⟨fun u v hu hv => ?_, fun u v f rw b hu hv he => ?_, h'.disk.trans h.disk⟩
  · rw [h'.entry u v hu hv, h.entry u v hu hv]
  · rw [h'.data u v f rw b hu hv (by rw [h.entry u v hu hv, he]), h.data u v f rw b hu hv he]

/-! ## Preparation -/

/-- What a preparation of the first page of task `t` can do. -/
structure Prepared (t : Nat) (s s' : Paging) : Prop where
  changes : Relation.ReflTransGen (Change (· = t) (fun _ => True) fun _ _ _ => False) s s'
  other : ∀ d i, ¬(d = dirOf t 0 ∧ i = 0) → s'.entry d i = s.entry d i
  data : ∀ f, ¬s.CanTake f → s'.data f = s.data f
  disk : s'.disk = s.disk
  count : ∀ v f rw b, v < 1024 * TASK_TABLES → v ≠ 0 → s.at t v = .page f rw b → LOW_MEM ≤ f →
    s'.memMap f = s.memMap f

theorem Prepared.refl (t : Nat) (s : Paging) : Prepared t s s :=
  ⟨.refl, fun _ _ _ => rfl, fun _ _ => rfl, rfl, fun _ _ _ _ _ _ _ _ => rfl⟩

theorem Prepared.same (h : Prepared t s s') (hc : Counts s) : Same t s s' := by
  refine ⟨fun u v hu hv => h.other _ _ ?_, fun u v f rw b hu hv he => h.data f (not_free hc hv he), h.disk⟩
  rintro ⟨hd, -⟩
  have hv : v < 1024 * TASK_TABLES := by
    rw [pages] at hv
    split at hv
    · exact hv.trans (by decide)
    · exact hv
  exact hu (by rw [← dirOf_div (t := u) hv, hd, dirOf_div (t := t) (v := 0) (by decide)])

/-- The other pages of the child are as they were. -/
theorem Prepared.at_eq (h : Prepared t s s') {v : Nat} (hv : v ≠ 0) : s'.at t v = s.at t v := by
  refine h.other _ _ ?_
  rintro ⟨hd, hi⟩
  exact hv (place_inj (t := t) hd hi)

theorem Prepared.private_iff (h : Prepared t s s') {v : Nat} (hv : v ≠ 0) (hlt : v < 1024 * TASK_TABLES) :
    Private s' (dirOf t v) (v % 1024) ↔ Private s (dirOf t v) (v % 1024) := by
  have hat : s'.entry (dirOf t v) (v % 1024) = s.entry (dirOf t v) (v % 1024) := h.at_eq hv
  unfold Private
  rw [hat]
  refine forall_congr' fun f => forall_congr' fun rw => forall_congr' fun b => forall_congr' fun he => ?_
  refine and_congr_right fun hlow => ?_
  rw [h.count v f rw b hlt hv he hlow]

theorem Prepared.trans {s'' : Paging} (h : Prepared t s s') (h' : Prepared t s' s'')
    (hfree : ∀ f, s'.CanTake f → s.CanTake f) : Prepared t s s'' := by
  refine ⟨h.changes.trans h'.changes, fun d i hne => ?_, fun f hf => ?_, h'.disk.trans h.disk, ?_⟩
  · rw [h'.other d i hne, h.other d i hne]
  · rw [h'.data f (mt (hfree f) hf), h.data f hf]
  · intro v f rw b hv hv0 he hlow
    rw [h'.count v f rw b hv hv0 (by rw [h.at_eq hv0, he]) hlow, h.count v f rw b hv hv0 he hlow]

/-! ## The first page is loaded -/

/-- The first page, loaded. -/
def withPage (t : Nat) (f : Frame) (pg : Page) (s : Paging) : Paging :=
  (((s.take f).setData f pg).setAt t 0 (.page f true false)).setKernel f false

section
variable (hc : Counts s) {a : Addr} {g f : Frame} (ht : t ≠ 0) (ht' : t < NR_TASKS)
include hc ht

/-- A page that is mapped is another one than a free one. -/
theorem mapped_ne {v : Nat} {x : Frame} {rw b : Bool} (hv : v < 1024 * TASK_TABLES) (he : s.at t v = .page x rw b)
    (hg : s.CanTake g) : x ≠ g := by
  rintro rfl
  refine not_free hc (u := t) (v := v) ?_ he hg
  rw [pages, if_neg ht]
  exact hv

include ht' in
/-- The page table was free. -/
theorem prepared_newTable (ha : dirIndex a = dirOf t 0) (hd : s.dir (dirOf t 0) = none) (hg : s.CanTake g) :
    Prepared t s (newTable a g s) ∧ ∀ x, (newTable a g s).CanTake x → s.CanTake x := by
  rw [newTable, ha]
  refine ⟨⟨.single ?_, ?_, ?_, rfl, ?_⟩, ?_⟩
  · exact .table hg hd (dirOf_ge ht) (dirOf_lt ht' (by decide)) (dirOf_div (by decide))
  · intro d i _
    rw [hc.entry_newTable hg hd]
  · intro x hx
    have hne : x ≠ g := by
      rintro rfl
      exact hx hg
    exact if_neg hne
  · intro v x rw b hv _ he _
    exact if_neg (mapped_ne hc ht hv he hg)
  · rintro x ⟨hm, hzero⟩
    have hzero : (if x = g then 1 else s.memMap x) = 0 := hzero
    split at hzero
    · cases hzero
    · exact ⟨hm, hzero⟩

/-- The page was free. -/
theorem prepared_withPage (hd : s.dir (dirOf t 0) ≠ none) (he : s.at t 0 = .none) (hf : s.CanTake f) (pg : Page) :
    Prepared t s (withPage t f pg s) ∧ (withPage t f pg s).at t 0 = .page f true false := by
  have hentry : ((s.take f).setData f pg).entry = s.entry := hc.entry_take hf
  have hset := ((hc.take hf).setData f pg).tables.entry_setEntry (d := dirOf t 0) hd 0 (.page f true false)
  have hafter : ∀ d i, (withPage t f pg s).entry d i =
      if d = dirOf t 0 ∧ i = 0 then .page f true false else s.entry d i := by
    intro d i
    rw [← hentry]
    exact hset d i
  refine ⟨⟨?_, ?_, ?_, ?_, ?_⟩, ?_⟩
  · have htake : Change (· = t) (fun _ => True) (fun _ _ _ => False) s (s.take f) := .take hf
    have hfill : Change (· = t) (fun _ => True) (fun _ _ _ => False) (s.take f) ((s.take f).setData f pg) :=
      .fill pg (if_pos rfl) trivial
    have hmap : Change (· = t) (fun _ => True) (fun _ _ _ => False) ((s.take f).setData f pg) (withPage t f pg s) := by
      refine .map (i := 0) true false (if_pos rfl) trivial hd (dirOf_ge ht) (by decide) ?_ (dirOf_div (by decide))
      rw [hentry]
      exact he
    exact ((Relation.ReflTransGen.single htake).tail hfill).tail hmap
  · intro d i hne
    rw [hafter, if_neg hne]
  · intro x hx
    have hne : x ≠ f := by
      rintro rfl
      exact hx hf
    have hdata : (withPage t f pg s).data = ((s.take f).setData f pg).data := data_setEntry _ _ _ _
    rw [hdata]
    exact (if_neg hne).trans (if_neg hne)
  · exact disk_setEntry _ _ _ _
  · intro v x rw b hv _ hx _
    have hmap : (withPage t f pg s).memMap = ((s.take f).setData f pg).memMap := memMap_setEntry _ _ _ _
    rw [hmap]
    exact if_neg (mapped_ne hc ht hv hx hf)
  · exact (hafter _ _).trans (if_pos ⟨rfl, rfl⟩)

end

theorem take_zero (s : Paging) (f : Frame) : (s.take f).setData f (fun _ => 0) = s.take f := by
  have hdata : (fun x => if x = f then fun _ => 0 else (s.take f).data x) = (s.take f).data := by
    funext x
    split
    · exact (if_pos ‹x = f›).symm
    · rfl
  unfold Paging.setData
  rw [hdata]

end

/-! ## The first page becomes writable -/

section
variable (hc : Counts s) {f g : Frame} {b : Bool} (ht : t ≠ 0) (he : s.at t 0 = .page f false b)
include hc ht he

/-- A page of the child's own may be written. -/
theorem prepared_alone (hlow : LOW_MEM ≤ f) (hone : s.memMap f = 1) :
    Prepared t s (s.setAt t 0 (.page f true b)) ∧ Private (s.setAt t 0 (.page f true b)) (dirOf t 0) 0 ∧
      IsPage ((s.setAt t 0 (.page f true b)).at t 0) := by
  have hset := hc.tables.entry_setEntry (dir_of_page he) 0 (.page f true b)
  have hself : (s.setAt t 0 (.page f true b)).entry (dirOf t 0) 0 = .page f true b :=
    (hset _ _).trans (if_pos ⟨rfl, rfl⟩)
  refine ⟨⟨.single (.flags true b (dirOf_ge ht) he fun _ => ⟨hlow, hone⟩), ?_, ?_, ?_, ?_⟩, ?_, f, true, b, hself⟩
  · intro d i hne
    exact (hset d i).trans (if_neg hne)
  · intro x _
    exact congrFun (data_setEntry _ _ _ _) x
  · exact disk_setEntry _ _ _ _
  · intro v x rw b' _ _ _ _
    exact congrFun (memMap_setEntry _ _ _ _) x
  · intro x rw b' hx
    rw [hself] at hx
    obtain ⟨rfl, -, -⟩ := Entry.page.inj hx
    exact ⟨hlow, (congrFun (memMap_setEntry _ _ _ _) f).trans hone⟩

/-- The first page, copied. -/
def withCopy (t : Nat) (f g : Frame) (b : Bool) (s : Paging) : Paging :=
  ((((s.take g).setData g ((s.take g).data f)).setAt t 0 (.page g true b)).setKernel g false).freePage f

/-- A copy belongs to the child. -/
theorem prepared_copy (hg : s.CanTake g) :
    Prepared t s (withCopy t f g b s) ∧ Private (withCopy t f g b s) (dirOf t 0) 0 ∧
      IsPage ((withCopy t f g b s).at t 0) := by
  have hne : f ≠ g := mapped_ne hc ht (v := 0) (by decide) he hg
  have hct := hc.take hg
  have hentry : (s.take g).entry = s.entry := hc.entry_take hg
  have het : (s.take g).entry (dirOf t 0) 0 = .page f false b := by
    rw [hentry]
    exact he
  have hset := (hct.setData g ((s.take g).data f)).tables.entry_setEntry (dir_of_page het) 0 (.page g true b)
  have hafter : ∀ d i, (withCopy t f g b s).entry d i =
      if d = dirOf t 0 ∧ i = 0 then .page g true b else s.entry d i := by
    intro d i
    rw [withCopy, entry_freePage, ← hentry]
    exact hset d i
  have hmap : ∀ x, x ≠ f → (withCopy t f g b s).memMap x = (s.take g).memMap x := by
    intro x hx
    rw [withCopy, memMap_freePage_ne _ hx]
    exact congrFun (memMap_setEntry _ _ _ _) x
  have hself : (withCopy t f g b s).entry (dirOf t 0) 0 = .page g true b := (hafter _ _).trans (if_pos ⟨rfl, rfl⟩)
  refine ⟨⟨?_, ?_, ?_, ?_, ?_⟩, ?_, g, true, b, hself⟩
  · have htake : Change (· = t) (fun _ => True) (fun _ _ _ => False) s (s.take g) := .take hg
    have hcopy : Change (· = t) (fun _ => True) (fun _ _ _ => False) (s.take g) (withCopy t f g b s) :=
      .copy (if_pos rfl) trivial (dirOf_ge ht) het
    exact (Relation.ReflTransGen.single htake).tail hcopy
  · intro d i hd
    rw [hafter, if_neg hd]
  · intro x hx
    have hxg : x ≠ g := by
      rintro rfl
      exact hx hg
    rw [withCopy, data_freePage]
    refine (congrFun (data_setEntry _ _ _ _) x).trans ?_
    exact (if_neg hxg).trans (if_neg hxg)
  · rw [withCopy, disk_freePage]
    exact disk_setEntry _ _ _ _
  · intro v x rw b' hv hv0 hx hlow
    -- the old page is at no other address of the child
    have hxf : x ≠ f := by
      rintro rfl
      have hplace := hc.tables.place _ _ _ _ x _ _ _ _ (dirOf_ge ht) (dirOf_ge ht)
        (hc.tables.managed (dirOf_ge ht) hx hlow) hx he
      rw [dirOf_mod, dirOf_mod] at hplace
      simp only [TASK_TABLES] at hv hplace
      omega
    rw [hmap x hxf]
    exact if_neg (mapped_ne hc ht hv hx hg)
  · intro x rw b' hx
    rw [hself] at hx
    obtain ⟨rfl, -, -⟩ := Entry.page.inj hx
    refine ⟨hc.tables.low.trans hg.1.1, ?_⟩
    rw [hmap g hne.symm]
    exact if_pos rfl

end

section
variable {getFreePage : Paging → Option Frame} {W : Programs} {p : Tracee} {t : Nat} {s : Paging} (h : Placed p t)
  (hfree : ∀ s f, getFreePage s = some f → s.CanTake f)
include h hfree

/-- `do_no_page`, with the page table there. -/
theorem loadPage_cases (hc : Counts s) (hd : s.dir (dirOf t 0) ≠ none) :
    getFreePage s = none ∧ loadPage getFreePage W p p.ldt.address s = none ∨
      ∃ f pg, getFreePage s = some f ∧ loadPage getFreePage W p p.ldt.address s = some (withPage t f pg s) := by
  cases hf : getFreePage s with
  | none =>
      left
      refine ⟨rfl, ?_⟩
      unfold loadPage
      rw [hf]
  | some f =>
      right
      have htake := hfree s f hf
      obtain ⟨T, hT⟩ := Option.ne_none_iff_exists'.mp hd
      have hput : ∀ pg, putPage getFreePage f p.startCode ((s.take f).setData f pg) = some (withPage t f pg s) := by
        intro pg
        have hrange : ¬(f < LOW_MEM ∨ ((s.take f).setData f pg).highMem ≤ f) := by
          rintro (hlt | hge)
          · exact absurd hlt (Nat.not_lt.mpr (hc.tables.low.trans htake.1.1))
          · exact absurd htake.1.2 (Nat.not_lt.mpr hge)
        have hone : ((s.take f).setData f pg).memMap f = 1 := if_pos rfl
        have hdir : ((s.take f).setData f pg).dir (dirOf t 0) = some T := hT
        rw [putPage, if_neg hrange, if_neg (not_not.mpr hone), h.start_first.1, hdir]
        simp only [h.start_first.2]
        rfl
      unfold loadPage
      rw [hf, h.page_start]
      dsimp only
      split
      · refine ⟨f, fun _ => 0, rfl, ?_⟩
        rw [← hput, take_zero]
      · exact ⟨f, _, rfl, hput _⟩

/-- `do_no_page`, without a page table. -/
theorem doNoPage_cases (hc : Counts s) (hd : s.dir (dirOf t 0) = none) :
    (∀ a, OutOfMemory getFreePage p t s a) ∧ doNoPage getFreePage W p p.ldt.address s = none ∨
      (∀ a, ¬OutOfMemory getFreePage p t s a) ∧ ∃ g f pg, s.CanTake g ∧ (newTable p.ldt.address g s).CanTake f ∧
        doNoPage getFreePage W p p.ldt.address s = some (withPage t f pg (newTable p.ldt.address g s)) := by
  have hnone : getFreePage s = none → doNoPage getFreePage W p p.ldt.address s = none := by
    intro hg
    simp only [doNoPage, h.offset_lt, if_false, h.first.1, hd, hg]
  have hsome : ∀ g, getFreePage s = some g → doNoPage getFreePage W p p.ldt.address s =
      loadPage getFreePage W p p.ldt.address (newTable p.ldt.address g s) := by
    intro g hg
    simp only [doNoPage, h.offset_lt, if_false, h.first.1, hd, hg]
  have hshort : ∀ a, OutOfMemory getFreePage p t s a ↔ getFreePage s = none ∨
      ∃ g, getFreePage s = some g ∧ getFreePage (newTable p.ldt.address g s) = none := by
    intro a
    simp only [OutOfMemory, hd]
  simp only [hshort]
  cases hg : getFreePage s with
  | none => exact .inl ⟨fun _ => .inl rfl, hnone hg⟩
  | some g =>
      rw [hsome g hg]
      have htable : Counts (newTable p.ldt.address g s) := by
        rw [newTable, h.first.1]
        exact hc.newTable (hfree s g hg) hd (dirOf_ge h.pos) (dirOf_lt h.lt (by decide))
      have hdir : (newTable p.ldt.address g s).dir (dirOf t 0) ≠ none := by
        rw [newTable, h.first.1]
        show (if dirOf t 0 = dirOf t 0 then some g else _) ≠ none
        rw [if_pos rfl]
        exact Option.some_ne_none g
      rcases loadPage_cases h hfree (W := W) htable hdir with ⟨hnone, heq⟩ | ⟨f, pg, hf, heq⟩
      · exact .inl ⟨fun _ => .inr ⟨g, rfl, hnone⟩, heq⟩
      · refine .inr ⟨fun _ => ?_, g, f, pg, hfree s g hg, hfree _ f hf, heq⟩
        rintro (hnone | ⟨g', hg', hnone⟩)
        · cases hnone
        · obtain rfl := Option.some.inj hg'
          rw [hf] at hnone
          cases hnone

omit hfree in
/-- What `do_no_page` has loaded. -/
theorem prepared_loaded (hc : Counts s) (hd : s.dir (dirOf t 0) = none) {g f : Frame} (hg : s.CanTake g)
    (hf : (newTable p.ldt.address g s).CanTake f) (pg : Page) :
    Prepared t s (withPage t f pg (newTable p.ldt.address g s)) ∧
      (withPage t f pg (newTable p.ldt.address g s)).at t 0 = .page f true false := by
  obtain ⟨htable, htaken⟩ := prepared_newTable hc h.pos h.lt h.first.1 hd hg
  have hdir : (newTable p.ldt.address g s).dir (dirOf t 0) ≠ none := by
    rw [newTable, h.first.1]
    show (if dirOf t 0 = dirOf t 0 then some g else _) ≠ none
    rw [if_pos rfl]
    exact Option.some_ne_none g
  have hnone : (newTable p.ldt.address g s).at t 0 = .none := by
    rw [newTable, h.first.1]
    exact (congrFun (congrFun (hc.entry_newTable hg hd) _) _).trans (entry_of_no_dir s hd _)
  obtain ⟨hpage, hat⟩ := prepared_withPage (Changes.counts htable.changes hc) h.pos hdir hnone hf pg
  exact ⟨htable.trans hpage htaken, hat⟩

/-- `un_wp_page` of the first page. -/
theorem unWpPage_cases (hc : Counts s) {f : Frame} {b : Bool} (he : s.at t 0 = .page f false b) :
    (getFreePage s = none ∧ ¬(LOW_MEM ≤ f ∧ s.memMap f = 1)) ∧ unWpPage getFreePage p.ldt.address s = none ∨
      ¬(getFreePage s = none ∧ ¬(LOW_MEM ≤ f ∧ s.memMap f = 1)) ∧
        ∃ s', unWpPage getFreePage p.ldt.address s = some s' ∧ Prepared t s s' ∧ Private s' (dirOf t 0) 0 ∧
          IsPage (s'.at t 0) := by
  have hhigh : ¬s.highMem ≤ f := by
    obtain ⟨T, hT⟩ := Option.ne_none_iff_exists'.mp (dir_of_page he)
    -- the page table is above the low memory
    have hT := hc.tables.dirManaged _ T (dirOf_ge h.pos) hT
    rcases hc.tables.entryFrame _ _ f _ _ (dirOf_ge h.pos) he with hf | hf
    · exact Nat.not_le.mpr (hf.trans (hc.tables.low.trans_lt (hT.1.trans_lt hT.2)))
    · exact Nat.not_le.mpr hf.2
  by_cases halone : LOW_MEM ≤ f ∧ s.memMap f = 1
  · right
    refine ⟨fun hshort => hshort.2 halone, _, ?_, prepared_alone hc h.pos he halone.1 halone.2⟩
    rw [unWpPage, h.first.2.1, he]
    simp only [hhigh, if_false, halone, and_self, if_true, h.first.2.2]
  · cases hg : getFreePage s with
    | none =>
        left
        refine ⟨⟨rfl, halone⟩, ?_⟩
        rw [unWpPage, h.first.2.1, he]
        simp only [hhigh, if_false, halone, hg]
    | some g =>
        right
        have htake := hfree s g hg
        have hct : (s.take g).at t 0 = .page f false b := by
          rw [← he]
          exact congrFun (congrFun (hc.entry_take htake) _) _
        have hne : f ≠ g := mapped_ne hc h.pos (v := 0) (by decide) he htake
        have halone' : ¬(LOW_MEM ≤ f ∧ (s.take g).memMap f = 1) := by
          have hmap : (s.take g).memMap f = s.memMap f := if_neg hne
          rwa [hmap]
        have hhigh' : ¬(s.take g).highMem ≤ f := hhigh
        refine ⟨fun hshort => Option.some_ne_none g hshort.1, _, ?_, prepared_copy hc h.pos he htake⟩
        rw [unWpPage, h.first.2.1, he]
        simp only [hhigh, if_false, halone, hg]
        rw [unWpRepeat, h.first.2.1, hct]
        simp only [hhigh', if_false, halone', h.first.2.2]
        rfl

/-- `write_verify` of the first page. -/
theorem writeVerify_cases (hc : Counts s) (hw : Writable s) (hd : s.dir (dirOf t 0) ≠ none) (data : BitVec 32) :
    OutOfMemory getFreePage p t s (.put data) ∧ writeVerify getFreePage p.ldt.address s = none ∨
      ¬OutOfMemory getFreePage p t s (.put data) ∧ ∃ s', writeVerify getFreePage p.ldt.address s = some s' ∧
        Prepared t s s' ∧ Private s' (dirOf t 0) 0 ∧ (IsPage (s'.at t 0) ↔ IsPage (s.at t 0)) := by
  obtain ⟨T, hT⟩ := Option.ne_none_iff_exists'.mp hd
  have hshort : OutOfMemory getFreePage p t s (.put data) ↔
      getFreePage s = none ∧ ∃ f b, s.at t 0 = .page f false b ∧ ¬(LOW_MEM ≤ f ∧ s.memMap f = 1) := by
    simp only [OutOfMemory, hT]
  rw [hshort]
  by_cases hro : ∃ f b, s.at t 0 = .page f false b
  · obtain ⟨f, b, he⟩ := hro
    have hcond : (getFreePage s = none ∧ ∃ f b, s.at t 0 = .page f false b ∧ ¬(LOW_MEM ≤ f ∧ s.memMap f = 1)) ↔
        getFreePage s = none ∧ ¬(LOW_MEM ≤ f ∧ s.memMap f = 1) := by
      refine and_congr_right fun _ => ⟨?_, fun hf => ⟨f, b, he, hf⟩⟩
      rintro ⟨f', b', he', hf'⟩
      obtain ⟨rfl, -, -⟩ := Entry.page.inj (he.symm.trans he')
      exact hf'
    have heq : writeVerify getFreePage p.ldt.address s = unWpPage getFreePage p.ldt.address s := by
      simp only [writeVerify, h.first.1, hT, h.first.2.1, he]
    rw [hcond, heq]
    rcases unWpPage_cases h hfree hc he with hnone | ⟨hmem, s', hs', hprep, hpriv, hpage⟩
    · exact .inl hnone
    · exact .inr ⟨hmem, s', hs', hprep, hpriv, iff_of_true hpage ⟨f, false, b, he⟩⟩
  · -- a page that may be written belongs to the child
    right
    have heq : writeVerify getFreePage p.ldt.address s = some s := by
      simp only [writeVerify, h.first.1, hT, h.first.2.1]
      split
      · rename_i f b he
        exact absurd ⟨f, b, he⟩ hro
      · rfl
    refine ⟨?_, s, heq, .refl t s, fun f rw b he => ?_, Iff.rfl⟩
    · rintro ⟨-, f, b, he, -⟩
      exact hro ⟨f, b, he⟩
    · cases rw with
      | false => exact absurd ⟨f, b, he⟩ hro
      | true => exact hw _ _ f b (dirOf_ge h.pos) he

/-- What `get_long` does before the access. -/
theorem prepareGet_cases (hc : Counts s) {addr : Addr} (hacc : ¬p.ldt.limit.sle (addr + 4)) :
    OutOfMemory getFreePage p t s .get ∧ prepareGet getFreePage W p addr s = .error .exit ∨
      ¬OutOfMemory getFreePage p t s .get ∧ ∃ s', prepareGet getFreePage W p addr s = .ok s' ∧ Prepared t s s' ∧
        (IsPage (s'.at t 0) ↔ s.dir (dirOf t 0) = none ∨ IsPage (s.at t 0)) := by
  cases hd : s.dir (dirOf t 0) with
  | some T =>
      right
      refine ⟨?_, s, ?_, .refl t s, ?_⟩
      · simp only [OutOfMemory, hd, not_false_eq_true]
      · rw [prepareGet, if_neg hacc, h.first.1, hd]
      · simp
  | none =>
      rcases doNoPage_cases h hfree (W := W) hc hd with ⟨hshort, heq⟩ | ⟨hmem, g, f, pg, hg, hf, heq⟩
      · refine .inl ⟨hshort _, ?_⟩
        rw [prepareGet, if_neg hacc, h.first.1, hd, heq]
      · obtain ⟨hprep, hpage⟩ := prepared_loaded h hc hd hg hf pg
        refine .inr ⟨hmem _, _, ?_, hprep, iff_of_true ⟨f, true, false, hpage⟩ (.inl rfl)⟩
        rw [prepareGet, if_neg hacc, h.first.1, hd, heq]

/-- What `put_long` does before the access. -/
theorem preparePut_cases (hc : Counts s) (hw : Writable s) {addr : Addr} (hacc : ¬p.ldt.limit.sle (addr + 4))
    (data : BitVec 32) :
    OutOfMemory getFreePage p t s (.put data) ∧ preparePut getFreePage W p addr s = .error .exit ∨
      ¬OutOfMemory getFreePage p t s (.put data) ∧ ∃ s', preparePut getFreePage W p addr s = .ok s' ∧
        Prepared t s s' ∧ Private s' (dirOf t 0) 0 ∧
        (IsPage (s'.at t 0) ↔ s.dir (dirOf t 0) = none ∨ IsPage (s.at t 0)) := by
  cases hd : s.dir (dirOf t 0) with
  | some T =>
      rcases writeVerify_cases h hfree hc hw (by simp [hd]) data with
        ⟨hshort, heq⟩ | ⟨hmem, s', heq, hprep, hpriv, hpage⟩
      · refine .inl ⟨hshort, ?_⟩
        simp only [preparePut, hacc, if_false, h.first.1, hd, heq, Bool.false_eq_true]
      · refine .inr ⟨hmem, s', ?_, hprep, hpriv, ?_⟩
        · simp only [preparePut, hacc, if_false, h.first.1, hd, heq, Bool.false_eq_true]
        · simpa using hpage
  | none =>
      rcases doNoPage_cases h hfree (W := W) hc hd with ⟨hshort, heq⟩ | ⟨hmem, g, f, pg, hg, hf, heq⟩
      · refine .inl ⟨hshort _, ?_⟩
        rw [preparePut, if_neg hacc, h.first.1, hd, heq]
      · -- a page that has been loaded may be written
        obtain ⟨hprep, hpage⟩ := prepared_loaded h hc hd hg hf pg
        have hverify : ∀ s', s'.at t 0 = .page f true false → writeVerify getFreePage p.ldt.address s' = some s' := by
          intro s' he
          obtain ⟨T, hT⟩ := Option.ne_none_iff_exists'.mp (dir_of_page he)
          rw [writeVerify, h.first.1, hT, h.first.2.1, he]
        refine .inr ⟨hmem _, _, ?_, hprep, fun x rw b he => ?_, iff_of_true ⟨f, true, false, hpage⟩ (.inl rfl)⟩
        · rw [preparePut, if_neg hacc, h.first.1, hd, heq]
          simp only [hverify _ hpage]
        · have heq := hpage.symm.trans he
          obtain ⟨rfl, rfl, rfl⟩ := Entry.page.inj heq
          exact (hw.changes hc hprep.changes) _ _ f false (dirOf_ge h.pos) hpage

end

/-! ## The accesses -/

section
variable {p : Tracee} {t : Nat} {s : Paging} (h : Placed p t) {addr : Addr} (hin : Inside p.ldt addr)
include h hin

/-- Where byte `k` of the word is. -/
theorem Placed.byte_place {k : Nat} (hk : k < 4) : (addr.toNat + k) / 4096 < 1024 * TASK_TABLES ∧
    dirIndex (byteAddr p.ldt addr k) = dirOf t ((addr.toNat + k) / 4096) ∧
      tableIndex (byteAddr p.ldt addr k) = (addr.toNat + k) / 4096 % 1024 := by
  obtain ⟨hlt, heq⟩ := h.segment.byteAddr_eq h.lt hin hk
  refine ⟨?_, place_eq heq⟩
  simp only [TASK_SIZE, TASK_TABLES] at hlt ⊢
  omega

theorem Placed.present_iff : Present p.ldt addr s ↔ ∀ k < 4, IsPage (s.at t ((addr.toNat + k) / 4096)) := by
  refine forall_congr' fun k => forall_congr' fun hk => ?_
  rw [lookup_eq s (h.segment.byteAddr_eq h.lt hin hk).2]

theorem Placed.own_iff : Own p.ldt addr s ↔
    ∀ k < 4, Private s (dirOf t ((addr.toNat + k) / 4096)) ((addr.toNat + k) / 4096 % 1024) := by
  refine forall_congr' fun k => forall_congr' fun hk => ?_
  rw [(h.byte_place hin hk).2.1, (h.byte_place hin hk).2.2]

/-- A byte is written in a page of the child's own. -/
theorem writeByte_own {k : Nat} (hk : k < 4) (x : Byte) (hc : Counts s) (hpresent : Present p.ldt addr s)
    (hown : Own p.ldt addr s) : ∃ s', writeByte s (byteAddr p.ldt addr k) x = some s' ∧ Counts s' ∧
      Present p.ldt addr s' ∧ Own p.ldt addr s' ∧ Same t s s' := by
  have hge : ∀ k < 4, TASK_TABLES ≤ dirIndex (byteAddr p.ldt addr k) := by
    intro k hk
    rw [(h.byte_place hin hk).2.1]
    exact dirOf_ge h.pos
  have htask : dirIndex (byteAddr p.ldt addr k) / TASK_TABLES = t := by
    rw [(h.byte_place hin hk).2.1, dirOf_div (h.byte_place hin hk).1]
  obtain ⟨f, rw, b, he⟩ := hpresent k hk
  have hwrite : writeByte s (byteAddr p.ldt addr k) x =
      some ((setLookup s (byteAddr p.ldt addr k) (.page f rw true)).setByte f
        ((byteAddr p.ldt addr k).toNat % 4096) x) := by
    rw [writeByte, he]
  have hchange : Change (· = t) (fun _ => True) (fun _ _ _ => False) s
      ((setLookup s (byteAddr p.ldt addr k) (.page f rw true)).setByte f ((byteAddr p.ldt addr k).toNat % 4096) x) :=
    .store _ x (hge k hk) he
  have hset := hc.tables.entry_setEntry (dir_of_page he) (tableIndex (byteAddr p.ldt addr k)) (.page f rw true)
  refine ⟨_, hwrite, hc.change hchange, ?_, ?_, ?_, ?_, disk_setEntry _ _ _ _⟩
  · intro j hj
    have hat := hset (dirIndex (byteAddr p.ldt addr j)) (tableIndex (byteAddr p.ldt addr j))
    split at hat
    · exact ⟨f, rw, true, hat⟩
    · obtain ⟨f', rw', b', he'⟩ := hpresent j hj
      exact ⟨f', rw', b', hat.trans he'⟩
  · intro j hj
    exact (hown j hj).change hc hchange (hge j hj) fun _ => ⟨id, id⟩
  · intro u v hu hv
    refine (hset _ _).trans (if_neg ?_)
    rintro ⟨hd, -⟩
    have hv : v < 1024 * TASK_TABLES := by
      rw [pages] at hv
      split at hv
      · exact hv.trans (by decide)
      · exact hv
    exact hu (by rw [← dirOf_div (t := u) hv, hd, htask])
  · intro u v g rw' b' hu hv hg
    have hne : g ≠ f := not_shared hc (hge k hk) (hown k hk) he (by rwa [htask]) hv hg
    exact (if_neg hne).trans (congrFun (data_setEntry _ _ _ _) g)

/-- **A word is written in pages of the child's own.** -/
theorem putFsLong_own (data : BitVec 32) (hc : Counts s) (hpresent : Present p.ldt addr s) (hown : Own p.ldt addr s) :
    ∃ s', putFsLong p.ldt addr data s = some s' ∧ Same t s s' := by
  have hbytes : ∀ (l : List Nat) (s₁ : Paging), (∀ k ∈ l, k < 4) → Counts s₁ → Present p.ldt addr s₁ →
      Own p.ldt addr s₁ → ∃ s₂,
        l.foldlM (fun s k => writeByte s (byteAddr p.ldt addr k) (data.extractLsb' (8 * k) 8)) s₁ = some s₂ ∧
          Same t s₁ s₂ := by
    intro l
    induction l with
    | nil => exact fun s₁ _ _ _ _ => ⟨s₁, rfl, .refl t s₁⟩
    | cons k l ih =>
        intro s₁ hl hc hpresent hown
        obtain ⟨s₂, hwrite, hc₂, hpresent₂, hown₂, hsame⟩ :=
          writeByte_own h hin (hl k (List.mem_cons_self ..)) (data.extractLsb' (8 * k) 8) hc hpresent hown
        obtain ⟨s₃, hrest, hsame'⟩ := ih s₂ (fun j hj => hl j (List.mem_cons_of_mem k hj)) hc₂ hpresent₂ hown₂
        refine ⟨s₃, ?_, hsame.trans hsame'⟩
        rw [List.foldlM_cons, hwrite]
        exact hrest
  rw [putFsLong, if_pos hin]
  exact hbytes (List.range 4) s (fun k hk => List.mem_range.mp hk) hc hpresent hown

omit h in
/-- A word whose pages are there can be read. -/
theorem getFsLong_present (hpresent : Present p.ldt addr s) : getFsLong p.ldt addr s ≠ none := by
  have hbyte : ∀ k < 4, ∃ x, readByte s (byteAddr p.ldt addr k) = some x := by
    intro k hk
    obtain ⟨f, rw, b, he⟩ := hpresent k hk
    exact ⟨_, by rw [readByte, he]⟩
  obtain ⟨x0, h0⟩ := hbyte 0 (by decide)
  obtain ⟨x1, h1⟩ := hbyte 1 (by decide)
  obtain ⟨x2, h2⟩ := hbyte 2 (by decide)
  obtain ⟨x3, h3⟩ := hbyte 3 (by decide)
  rw [getFsLong, if_pos hin, h0, h1, h2, h3]
  exact Option.some_ne_none _

end

/-! ## When they stay in the child -/

section
variable {getFreePage : Paging → Option Frame} {W : Programs} {p : Tracee} {addr : Addr} {s s' : Paging} {e : Stop}

theorem getLong_error (h : prepareGet getFreePage W p addr s = .error e) :
    getLong getFreePage W p addr s = .error e := by
  rw [getLong, h]
  rfl

theorem getLong_ok (h : prepareGet getFreePage W p addr s = .ok s') :
    getLong getFreePage W p addr s = .ok (getFsLong p.ldt addr s', s') := by
  rw [getLong, h]
  rfl

theorem putLong_error {data : BitVec 32} (h : preparePut getFreePage W p addr s = .error e) :
    putLong getFreePage W p addr data s = .error e := by
  rw [putLong, h]
  rfl

theorem putLong_ok {data : BitVec 32} (h : preparePut getFreePage W p addr s = .ok s') :
    putLong getFreePage W p addr data s = .ok (s', putFsLong p.ldt addr data s') := by
  rw [putLong, h]
  rfl

theorem prepare_refused (h : p.ldt.limit.sle (addr + 4)) :
    prepareGet getFreePage W p addr s = .error .eio ∧ preparePut getFreePage W p addr s = .error .eio := by
  rw [prepareGet, preparePut, if_pos h, if_pos h]
  exact ⟨rfl, rfl⟩

end

section
variable {getFreePage : Paging → Option Frame} {W : Programs} {p : Tracee} {t : Nat} {s s' : Paging}

/-- Which pages are there after the preparation. -/
theorem Prepared.ready_iff (hprep : Prepared t s s')
    (hzero : IsPage (s'.at t 0) ↔ s.dir (dirOf t 0) = none ∨ IsPage (s.at t 0)) (v : Nat) :
    IsPage (s'.at t v) ↔ Ready t s .get v := by
  rw [Ready]
  split
  · rename_i hv
    rw [hv]
    exact hzero
  · rename_i hv
    rw [hprep.at_eq hv]
    simp

/-- Which of them are the child's own. -/
theorem Prepared.ready_own_iff (hprep : Prepared t s s')
    (hzero : IsPage (s'.at t 0) ↔ s.dir (dirOf t 0) = none ∨ IsPage (s.at t 0)) (hpriv : Private s' (dirOf t 0) 0)
    {v : Nat} (hv : v < 1024 * TASK_TABLES) (data : BitVec 32) :
    IsPage (s'.at t v) ∧ Private s' (dirOf t v) (v % 1024) ↔ Ready t s (.put data) v := by
  rw [Ready]
  split
  · rename_i hv0
    rw [hv0]
    exact (and_iff_left hpriv).trans hzero
  · rename_i hv0
    rw [hprep.at_eq hv0, hprep.private_iff hv0 hv]

/-- **When the accesses stay in the child**: an address that is accepted is not negative, and every page of the word is
    the first one, or is there and, to be written, the child's own. -/
theorem peek_poke_iff (h : Placed p t) (hfree : ∀ s f, getFreePage s = some f → s.CanTake f) (hc : Counts s)
    (hw : Writable s) (addr : Addr) (a : Access) :
    Meets getFreePage W p t addr s a ↔ Fine getFreePage p t addr s a := by
  by_cases hrefused : p.ldt.limit.sle (addr + 4)
  · refine iff_of_true ?_ fun hacc => absurd hrefused hacc
    cases a with
    | get => simp only [Meets, getLong_error (prepare_refused hrefused).1]
    | put data => simp only [Meets, putLong_error (prepare_refused hrefused).2]
  · have hinside := h.segment.inside_iff hrefused
    rw [Fine, ← hinside]
    cases a with
    | get =>
        rcases prepareGet_cases h hfree (W := W) hc hrefused with ⟨hshort, heq⟩ | ⟨hmem, s', heq, hprep, hzero⟩
        · simp only [Meets, getLong_error heq]
          exact ⟨fun hin _ => ⟨hin, .inl hshort⟩, fun hfine => (hfine hrefused).1⟩
        · simp only [Meets, getLong_ok heq]
          constructor
          · rintro ⟨hin, hpresent, -⟩ -
            exact ⟨hin, .inr fun k hk => (hprep.ready_iff hzero _).mp ((h.present_iff hin).mp hpresent k hk)⟩
          · intro hfine
            obtain ⟨hin, hshort | hready⟩ := hfine hrefused
            · exact absurd hshort hmem
            · have hpresent := (h.present_iff hin).mpr fun k hk => (hprep.ready_iff hzero _).mpr (hready k hk)
              exact ⟨hin, hpresent, getFsLong_present hin hpresent, hprep.same hc⟩
    | put data =>
        rcases preparePut_cases h hfree (W := W) hc hw hrefused data with
          ⟨hshort, heq⟩ | ⟨hmem, s', heq, hprep, hpriv, hzero⟩
        · simp only [Meets, putLong_error heq]
          exact ⟨fun hin _ => ⟨hin, .inl hshort⟩, fun hfine => (hfine hrefused).1⟩
        · simp only [Meets, putLong_ok heq]
          constructor
          · rintro ⟨hin, hpresent, hown, -⟩ -
            refine ⟨hin, .inr fun k hk => ?_⟩
            exact (hprep.ready_own_iff hzero hpriv (h.byte_place hin hk).1 data).mp
              ⟨(h.present_iff hin).mp hpresent k hk, (h.own_iff hin).mp hown k hk⟩
          · intro hfine
            obtain ⟨hin, hshort | hready⟩ := hfine hrefused
            · exact absurd hshort hmem
            · have hboth : ∀ k < 4, _ := fun k hk =>
                (hprep.ready_own_iff hzero hpriv (h.byte_place hin hk).1 data).mpr (hready k hk)
              have hpresent := (h.present_iff hin).mpr fun k hk => (hboth k hk).1
              have hown := (h.own_iff hin).mpr fun k hk => (hboth k hk).2
              obtain ⟨s'', hwrite, hsame⟩ :=
                putFsLong_own h hin data (Changes.counts hprep.changes hc) hpresent hown
              exact ⟨hin, hpresent, hown, s'', hwrite, (hprep.same hc).trans hsame⟩

end

/-! ## A child that has been loaded -/

/-- The first page that is free. -/
def firstFree (s : Paging) : Option Frame :=
  (List.range s.highMem).find? fun f => decide (s.startMem ≤ f ∧ s.memMap f = 0)

theorem firstFree_canTake (s : Paging) (f : Frame) (hf : firstFree s = some f) : s.CanTake f := by
  unfold firstFree at hf
  have hmem := List.mem_range.mp (List.mem_of_find?_eq_some hf)
  have hcond := List.find?_some hf
  obtain ⟨hstart, hzero⟩ := of_decide_eq_true hcond
  exact ⟨⟨hstart, hmem⟩, hzero⟩

/-- Task 1, after `exec`. -/
def child : Tracee := ⟨⟨0x3fff, 0x04c0f200⟩, 0x04000000, program⟩

theorem child_placed : Placed child 1 :=
  ⟨by decide, by decide, rfl, ⟨by decide, by decide, by decide, by decide, by decide⟩⟩

/-- A word in its first page is written as it should be. -/
theorem peek_poke_iff_loaded : ∃ c, ClearRun zeros boot c ∧ Meets firstFree hello child 1 8 c.mem (.put 5) := by
  obtain ⟨c, h⟩ := loaded
  have hsafe := h.run.safe boot_start
  have hmeets := peek_poke_iff (W := hello) child_placed firstFree_canTake hsafe.swaps.inv.counts hsafe.writable 8 (.put 5)
  refine ⟨c, h.run, hmeets.mpr fun _ => ⟨by decide, .inr fun k hk => ?_⟩⟩
  have hfirst : ((8 : Addr).toNat + k) / 4096 = 0 := by
    have : (8 : Addr).toNat = 8 := rfl
    omega
  rw [hfirst, Ready, if_pos rfl]
  exact .inr ⟨0x101, true, false, h.page⟩

/-- An address that is negative is accepted, and is not in the segment. -/
theorem get_negative : ∃ c, ClearRun zeros boot c ∧ ¬Meets firstFree hello child 1 (-8) c.mem .get := by
  obtain ⟨c, h⟩ := loaded
  refine ⟨c, h.run, fun hmeets => ?_⟩
  have hout : ¬Inside child.ldt (-8) := by decide
  have haccepted : ¬child.ldt.limit.sle (-8 + 4) := by decide
  have hcounts := (h.run.safe boot_start).swaps.inv.counts
  rcases prepareGet_cases child_placed firstFree_canTake (W := hello) hcounts haccepted with
    ⟨-, heq⟩ | ⟨-, s', heq, -⟩
  · simp only [Meets, getLong_error heq] at hmeets
    exact hout hmeets
  · simp only [Meets, getLong_ok heq] at hmeets
    exact hout hmeets.1

end PtraceMemory
end Kernel
end Linux095
