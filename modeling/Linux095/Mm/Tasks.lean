import Mathlib.Logic.Relation
import Linux095.Mm.Change

/-!
# `Mm.Tasks` — the tasks in the memory manager

* `Knows` — what a task that sleeps in the memory manager may rely on when it goes on;
* `Inv` — the counts, the pages that tasks hold, and what they know;
* `Inv.act`, `Inv.env` — a task goes on, or the memory changes on its own;
* `Inv.step` — **every step keeps the invariant**;
* `Step.changes` — what a step does to the memory is made of changes.
-/

namespace Linux095
namespace Mm
namespace Vm

open Relation

/-- The child that a task is making. -/
def Proc.making : Proc → Option Nat
  | fork n _ _ | forkRead n _ _ _ _ => some n
  | _ => Option.none

/-- The tables of a child from table `j` on, with entries in it up to entry `i`. -/
def Blank (s : Paging) (n j : Nat) : Option Nat → Prop
  | none => ∀ j', j ≤ j' → j' < TASK_TABLES → s.dir (TASK_TABLES * n + j') = none
  | some i => s.dir (TASK_TABLES * n + j) ≠ none ∧ (∀ i', i ≤ i' → s.entry (TASK_TABLES * n + j) i' = .none) ∧
      ∀ j', j < j' → j' < TASK_TABLES → s.dir (TASK_TABLES * n + j') = none

/-- **What a task relies on** when it goes on. -/
def Knows (s : Paging) (k : Task) (t : Nat) : Proc → Prop
  | .fault v => t ≠ 0 ∧ v < 1024 * k.tables ∧ (s.at t v).frame = none
  | .noPage v | .load v _ | .put v _ =>
      t ≠ 0 ∧ v < 1024 * k.tables ∧ s.at t v = .none ∧ s.dir (dirOf t v) ≠ none
  | .sharing _ _ _ => False
  | .swapRead v n _ => t ≠ 0 ∧ v < 1024 * k.tables ∧ s.at t v = .swap n
  | .unWp _ _ _ | .oom => t ≠ 0
  | .fork n j none => Blank s n j none
  | .fork n j (some i) => j < k.tables ∧ Blank s n j (some i)
  | .forkRead n j i m _ =>
      t ≠ 0 ∧ j < k.tables ∧ i < copied t ∧ Blank s n j (some i) ∧ s.entry (TASK_TABLES * t + j) i = .swap m
  | .args pages => t ≠ 0 ∧ (pages.map (·.1)).Nodup ∧ ∀ v ∈ pages.map (·.1), v < 1024 * TASK_TABLES
  | .putArgs pages => t ≠ 0 ∧ k.tables = TASK_TABLES ∧ (pages.map (·.1)).Nodup ∧
      ∀ v ∈ pages.map (·.1), v < 1024 * TASK_TABLES ∧ s.at t v = .none
  | _ => True

/-- **The tasks and the memory.** -/
structure Inv (c : Config) : Prop where
  counts : Counts c.mem
  held : ∀ t, ∀ f ∈ (c.procs t).frames, c.mem.kernel f
  nodup : ∀ t, (c.procs t).frames.Nodup
  apart : ∀ t t', ∀ f ∈ (c.procs t).frames, f ∈ (c.procs t').frames → t = t'
  knows : ∀ t, Knows c.mem (c.tasks t) t (c.procs t)
  live : ∀ t, c.procs t ≠ .none → t < NR_TASKS
  /-- The tables of a task are those that its segment covers. -/
  tables : ∀ t, (c.tasks t).tables ≤ TASK_TABLES
  first : (c.tasks 0).tables = 1
  bare : ∀ t ≠ 0, c.procs t = .none → ∀ j < TASK_TABLES, c.mem.dir (TASK_TABLES * t + j) = none
  beyond : ∀ t ≠ 0, ∀ j, (c.tasks t).tables ≤ j → j < TASK_TABLES → c.mem.dir (TASK_TABLES * t + j) = none
  child : ∀ t n, (c.procs t).making = some n → c.procs n = .child ∧ n ≠ 0 ∧ (c.tasks n).tables = (c.tasks t).tables
  once : ∀ t t' n, (c.procs t).making = some n → (c.procs t').making = some n → t = t'

/-- The tasks whose tables a task works on. -/
def Config.touches (c : Config) (t u : Nat) : Prop := u = t ∨ (c.procs t).making = some u

/-- The entries that come to share a page in a step: those of `try_to_share`, and of `fork`. -/
def Config.shares (c : Config) (e : Event) (d d' i : Nat) : Prop :=
  (∃ t v p, e = .shared t v p ∧ v < 1024 * TASK_TABLES ∧ d = dirOf t v ∧ d' = dirOf p v ∧ i = v % 1024) ∨
    ∃ t n, (c.procs t).making = some n ∧ d / TASK_TABLES = n ∧ d' / TASK_TABLES = t

/-- What a task may do to the memory. -/
abbrev Config.Changes (c : Config) (t : Nat) : Paging → Paging → Prop :=
  ReflTransGen (Change (c.touches t) (· ∈ (c.procs t).frames) fun _ _ _ => True)

/-! ## What others know -/

section
variable {U : Nat → Prop} {K : Frame → Prop} {S : Nat → Nat → Nat → Prop} {s s' : Paging}

theorem Changes.counts (hch : ReflTransGen (Change U K S) s s') (h : Counts s) : Counts s' := by
  induction hch with
  | refl => exact h
  | tail _ hlast ih => exact ih.change hlast

theorem Changes.stays (hch : ReflTransGen (Change U K S) s s') (h : Counts s) {u : Nat} (hu : ¬U u) : Stays s s' u := by
  induction hch with
  | refl => exact Stays.refl s u
  | tail hfirst hlast ih => exact ih.trans (hlast.stays (Changes.counts hfirst h) hu)

theorem Changes.kernel (hch : ReflTransGen (Change U K S) s s') (h : Counts s) {f : Frame} (hk : s.kernel f)
    (hK : ¬K f) : s'.kernel f := by
  induction hch with
  | refl => exact hk
  | tail hfirst hlast ih => exact hlast.kernel (Changes.counts hfirst h) ih hK

end

theorem dirOf_div {t v : Nat} (hv : v < 1024 * TASK_TABLES) : dirOf t v / TASK_TABLES = t := by
  unfold dirOf TASK_TABLES at *
  omega

theorem table_div {t j : Nat} (hj : j < TASK_TABLES) : (TASK_TABLES * t + j) / TASK_TABLES = t := by
  unfold TASK_TABLES at *
  omega

theorem dirOf_ge {t v : Nat} (ht : t ≠ 0) : TASK_TABLES ≤ dirOf t v := by
  unfold dirOf TASK_TABLES
  omega

theorem table_ge {t j : Nat} (ht : t ≠ 0) : TASK_TABLES ≤ TASK_TABLES * t + j := by
  unfold TASK_TABLES
  omega

theorem dirOf_mod (t v : Nat) : dirOf t v % TASK_TABLES = v / 1024 % TASK_TABLES := by
  unfold dirOf TASK_TABLES
  omega

theorem dirOf_lt {t v : Nat} (ht : t < NR_TASKS) (hv : v < 1024 * TASK_TABLES) : dirOf t v < 1024 := by
  unfold dirOf TASK_TABLES NR_TASKS at *
  omega

/-- Two pages of a task have different entries. -/
theorem place_inj {t v v' : Nat} (hd : dirOf t v' = dirOf t v) (hi : v' % 1024 = v % 1024) : v' = v := by
  unfold dirOf at hd
  omega

theorem Entry.frame_none {e : Entry} (he : ∀ f rw d, e ≠ .page f rw d) : e.frame = Option.none := by
  cases e with
  | none => rfl
  | page f rw d => exact absurd rfl (he f rw d)
  | swap n => rfl

theorem Stays.at {s s' : Paging} {t v : Nat} (h : Stays s s' t) (hv : v < 1024 * TASK_TABLES)
    (he : (s.at t v).frame = none) : s'.at t v = s.at t v := h.hole _ _ (dirOf_div hv) he

theorem Blank.stays {s s' : Paging} {n j : Nat} {i : Option Nat} (h : Blank s n j i) (hj : i ≠ none → j < TASK_TABLES)
    (hs : Stays s s' n) : Blank s' n j i := by
  cases i with
  | none =>
      intro j' hle hlt
      rw [hs.dir _ (table_div hlt)]
      exact h j' hle hlt
  | some i =>
      obtain ⟨hd, hi, hnext⟩ := h
      refine ⟨?_, fun i' hle => ?_, fun j' hle hlt => ?_⟩
      · rw [hs.dir _ (table_div (hj (Option.some_ne_none i)))]
        exact hd
      · have he := hi i' hle
        rw [hs.hole _ i' (table_div (hj (Option.some_ne_none i))) (by rw [he]; rfl), he]
      · rw [hs.dir _ (table_div hlt)]
        exact hnext j' hle hlt

/-- **What a task relies on, the others leave to it.** -/
theorem Knows.stays {s s' : Paging} {k : Task} {t : Nat} {q : Proc} (h : Knows s k t q) (hk : k.tables ≤ TASK_TABLES)
    (hs : Stays s s' t) (hchild : ∀ n, q.making = some n → Stays s s' n) : Knows s' k t q := by
  have hrange : ∀ {v}, v < 1024 * k.tables → v < 1024 * TASK_TABLES := fun hv => by omega
  have hpresent : ∀ {v}, v < 1024 * k.tables → t ≠ 0 ∧ v < 1024 * k.tables ∧ s.at t v = .none ∧
      s.dir (dirOf t v) ≠ none →
      t ≠ 0 ∧ v < 1024 * k.tables ∧ s'.at t v = .none ∧ s'.dir (dirOf t v) ≠ none := by
    rintro v hv ⟨ht, -, he, hd⟩
    refine ⟨ht, hv, ?_, ?_⟩
    · rw [hs.at (hrange hv) (by rw [he]; rfl), he]
    · rw [hs.dir _ (dirOf_div (hrange hv))]
      exact hd
  cases q with
  | none => trivial
  | user => trivial
  | child => trivial
  | fault v =>
      obtain ⟨ht, hv, he⟩ := h
      refine ⟨ht, hv, ?_⟩
      rw [hs.at (hrange hv) he]
      exact he
  | noPage v => exact hpresent h.2.1 h
  | sharing v p f => exact h.elim
  | load v f => exact hpresent h.2.1 h
  | put v f => exact hpresent h.2.1 h
  | oom => exact h
  | swapRead v n f =>
      obtain ⟨ht, hv, he⟩ := h
      refine ⟨ht, hv, ?_⟩
      rw [hs.at (hrange hv) (by rw [he]; rfl), he]
  | unWp v new ver => exact h
  | fork n j i =>
      have hn := hchild n rfl
      cases i with
      | none =>
          have hb : Blank s n j none := h
          exact hb.stays (fun hc => absurd rfl hc) hn
      | some i =>
          obtain ⟨hj, hb⟩ := h
          exact ⟨hj, hb.stays (fun _ => by omega) hn⟩
  | forkRead n j i m f =>
      obtain ⟨ht, hj, hi, hb, he⟩ := h
      refine ⟨ht, hj, hi, hb.stays (fun _ => by omega) (hchild n rfl), ?_⟩
      rw [hs.hole _ i (table_div (by omega)) (by rw [he]; rfl), he]
  | args pages => exact h
  | putArgs pages =>
      obtain ⟨ht, hk16, hnodup, hpages⟩ := h
      refine ⟨ht, hk16, hnodup, fun v hv => ?_⟩
      obtain ⟨hlt, he⟩ := hpages v hv
      refine ⟨hlt, ?_⟩
      rw [hs.at hlt (by rw [he]; rfl), he]

namespace Inv

variable {c : Config} {S : Nat → Nat → Nat → Prop}

theorem alive (h : Inv c) {t : Nat} (ht : c.procs t ≠ .none) : t < NR_TASKS := h.live t ht

/-- What a task knows survives what another one does. -/
theorem knows_other (h : Inv c) {t u : Nat} {s' : Paging} (hch : c.Changes t c.mem s')
    (hself : c.procs t ≠ .none ∧ c.procs t ≠ .child) (hu : u ≠ t) : Knows s' (c.tasks u) u (c.procs u) := by
  have hnot : ∀ n, (c.procs t).making = some n → c.procs n = .child := fun n hn => (h.child t n hn).1
  by_cases hc : c.procs u = .child
  · rw [hc]
    trivial
  · refine (h.knows u).stays (h.tables u) (Changes.stays hch h.counts ?_) fun n hn => ?_
    · rintro (rfl | hmake)
      · exact hu rfl
      · exact hc (hnot u hmake)
    · refine Changes.stays hch h.counts ?_
      rintro (rfl | hmake)
      · exact hself.2 (h.child u n hn).1
      · exact hu (h.once u t n hn hmake)

/-- **A task goes on.** -/
theorem act (h : Inv c) {t : Nat} {q : Proc} {s' : Paging} (hch : c.Changes t c.mem s')
    (hself : c.procs t ≠ .none ∧ c.procs t ≠ .child)
    (hq : q = .none → ∀ j < TASK_TABLES, s'.dir (TASK_TABLES * t + j) = none) (hmaking : q.making = (c.procs t).making)
    (hframes : ∀ f ∈ q.frames, s'.kernel f ∧ (f ∈ (c.procs t).frames ∨ c.mem.kernel f = false))
    (hnodup : q.frames.Nodup) (hknows : Knows s' (c.tasks t) t q)
    (hbeyond : ∀ u ≠ 0, ∀ j, (c.tasks u).tables ≤ j → j < TASK_TABLES →
      c.mem.dir (TASK_TABLES * u + j) = none → s'.dir (TASK_TABLES * u + j) = none) : Inv (c.goto t q s') := by
  have hother : ∀ {u}, u ≠ t → (c.goto t q s').procs u = c.procs u := fun hu => if_neg hu
  have hhere : (c.goto t q s').procs t = q := if_pos rfl
  have hapart : ∀ {u f}, u ≠ t → f ∈ (c.procs u).frames → f ∉ q.frames := by
    intro u f hu hf hfq
    rcases (hframes f hfq).2 with hold | hnew
    · exact hu (h.apart u t f hf hold)
    · rw [h.held u f hf] at hnew
      cases hnew
  constructor
  · exact Changes.counts hch h.counts
  · intro u f hf
    by_cases hu : u = t
    · subst hu
      rw [hhere] at hf
      exact (hframes f hf).1
    · rw [hother hu] at hf
      exact Changes.kernel hch h.counts (h.held u f hf) fun hc => hu (h.apart u t f hf hc)
  · intro u
    by_cases hu : u = t
    · subst hu
      rw [hhere]
      exact hnodup
    · rw [hother hu]
      exact h.nodup u
  · intro u u' f hf hf'
    by_cases hu : u = t
    · by_cases hu' : u' = t
      · rw [hu, hu']
      · rw [hu, hhere] at hf
        rw [hother hu'] at hf'
        exact absurd hf (hapart hu' hf')
    · rw [hother hu] at hf
      by_cases hu' : u' = t
      · rw [hu', hhere] at hf'
        exact absurd hf' (hapart hu hf)
      · rw [hother hu'] at hf'
        exact h.apart u u' f hf hf'
  · intro u
    by_cases hu : u = t
    · subst hu
      rw [hhere]
      exact hknows
    · rw [hother hu]
      exact h.knows_other hch hself hu
  · intro u hu
    by_cases hut : u = t
    · subst hut
      exact h.live u hself.1
    · rw [hother hut] at hu
      exact h.live u hu
  · exact h.tables
  · exact h.first
  · intro u hu0 hu j hj
    by_cases hut : u = t
    · subst hut
      rw [hhere] at hu
      exact hq hu j hj
    · rw [hother hut] at hu
      have hst : Stays c.mem s' u := by
        refine Changes.stays hch h.counts ?_
        rintro (rfl | hmake)
        · exact hut rfl
        · rw [(h.child t u hmake).1] at hu
          cases hu
      exact (hst.dir _ (table_div hj)).trans (h.bare u hu0 hu j hj)
  · intro u hu0 j hj hlt
    exact hbeyond u hu0 j hj hlt (h.beyond u hu0 j hj hlt)
  · intro u n hn
    have hold : (c.procs u).making = some n := by
      by_cases hu : u = t
      · subst hu
        rw [hhere, hmaking] at hn
        exact hn
      · rwa [hother hu] at hn
    obtain ⟨hc, hrest⟩ := h.child u n hold
    refine ⟨?_, hrest⟩
    rw [hother]
    · exact hc
    · rintro rfl
      exact hself.2 hc
  · have hmk : ∀ u, ((c.goto t q s').procs u).making = (c.procs u).making := by
      intro u
      by_cases hu : u = t
      · subst hu
        rw [hhere, hmaking]
      · rw [hother hu]
    intro u u' n hu hu'
    rw [hmk] at hu hu'
    exact h.once u u' n hu hu'

/-- **The memory changes on its own.** -/
theorem env (h : Inv c) {K : Frame → Prop} {s' : Paging} (hch : Change (fun _ => False) K S c.mem s')
    (hK : ∀ f, K f → ∀ t, f ∉ (c.procs t).frames) : Inv { c with mem := s' } := by
  have hst : ∀ u, Stays c.mem s' u := fun u => hch.stays h.counts id
  constructor
  · exact h.counts.change hch
  · intro t f hf
    exact hch.kernel h.counts (h.held t f hf) fun hc => hK f hc t hf
  · exact h.nodup
  · exact h.apart
  · intro t
    exact (h.knows t).stays (h.tables t) (hst t) fun n _ => hst n
  · exact h.live
  · exact h.tables
  · exact h.first
  · intro t ht hnone j hj
    exact ((hst t).dir _ (table_div hj)).trans (h.bare t ht hnone j hj)
  · intro t ht j hj hlt
    exact ((hst t).dir _ (table_div hlt)).trans (h.beyond t ht j hj hlt)
  · exact h.child
  · exact h.once

/-- A task goes on with the memory as it is. -/
theorem go (h : Inv c) {t : Nat} {q : Proc} (hself : c.procs t ≠ .none ∧ c.procs t ≠ .child) (hq : q ≠ .none)
    (hmaking : q.making = (c.procs t).making) (hframes : ∀ f ∈ q.frames, f ∈ (c.procs t).frames)
    (hnodup : q.frames.Nodup) (hknows : Knows c.mem (c.tasks t) t q) : Inv (c.setProc t q) :=
  h.act .refl hself (fun hc => absurd hc hq) hmaking (fun f hf => ⟨h.held t f (hframes f hf), .inl (hframes f hf)⟩)
    hnodup hknows
    fun _ _ _ _ _ hd => hd

/-- A task goes on with another page. -/
theorem taken (h : Inv c) {t : Nat} {q : Proc} {f : Frame} {s' : Paging} (hf : c.mem.CanTake f)
    (hch : c.Changes t c.mem s') (hdir : s'.dir = c.mem.dir) (hkernel : s'.kernel = (c.mem.take f).kernel)
    (hself : c.procs t ≠ .none ∧ c.procs t ≠ .child) (hq : q ≠ .none) (hmaking : q.making = (c.procs t).making)
    (hframes : q.frames = f :: (c.procs t).frames) (hknows : Knows s' (c.tasks t) t q) : Inv (c.goto t q s') := by
  have hfree := h.counts.not_kernel hf
  refine h.act hch hself (fun hc => absurd hc hq) hmaking (fun g hg => ?_) ?_ hknows
    fun u _ j _ _ hd => (congrFun hdir _).trans hd
  · rw [hkernel]
    rw [hframes, List.mem_cons] at hg
    show (if g = f then true else c.mem.kernel g) = true ∧ _
    rcases hg with rfl | hg
    · exact ⟨if_pos rfl, .inr hfree⟩
    · refine ⟨?_, .inl hg⟩
      rw [h.held t g hg, ite_self]
  · rw [hframes, List.nodup_cons]
    refine ⟨fun hmem => ?_, h.nodup t⟩
    rw [h.held t f hmem] at hfree
    cases hfree

/-- A task goes on with no page, and the directory as it is. -/
theorem given (h : Inv c) {t : Nat} {q : Proc} {s' : Paging} (hch : c.Changes t c.mem s')
    (hdir : s'.dir = c.mem.dir) (hself : c.procs t ≠ .none ∧ c.procs t ≠ .child) (hq : q ≠ .none)
    (hmaking : q.making = (c.procs t).making) (hframes : q.frames = []) (hknows : Knows s' (c.tasks t) t q) :
    Inv (c.goto t q s') := by
  refine h.act hch hself (fun hc => absurd hc hq) hmaking (fun f hf => ?_) ?_ hknows
    fun u _ j _ _ hd => (congrFun hdir _).trans hd
  · rw [hframes] at hf
    cases hf
  · rw [hframes]
    exact List.nodup_nil

theorem setVerified (h : Inv c) (t : Nat) (g : Nat → Bool) : Inv (c.setVerified t g) :=
  ⟨h.counts, h.held, h.nodup, h.apart, h.knows, h.live, h.tables, h.first, h.bare, h.beyond, h.child, h.once⟩

/-! ## `do_no_page` -/

theorem at_take (h : Inv c) {f : Frame} (hf : c.mem.CanTake f) (t v : Nat) : (c.mem.take f).at t v = c.mem.at t v := by
  unfold Paging.at
  rw [h.counts.entry_take hf]

theorem range (h : Inv c) {t v : Nat} (hv : v < 1024 * (c.tasks t).tables) : v < 1024 * TASK_TABLES := by
  have := h.tables t
  omega

/-- The beginning of a page table changes no directory entry that the segment does not cover. -/
theorem beyond_table {t v : Nat} {f : Frame} {s : Paging} (hv : v < 1024 * (c.tasks t).tables)
    (hr : v < 1024 * TASK_TABLES) {u j : Nat} (hj : (c.tasks u).tables ≤ j) (hlt : j < TASK_TABLES)
    (hd : s.dir (TASK_TABLES * u + j) = none) :
    (s.setDir (dirOf t v) (some f)).dir (TASK_TABLES * u + j) = none := by
  refine (if_neg fun he => ?_).trans hd
  have hu : u = t := by rw [← table_div (t := u) hlt, he, dirOf_div hr]
  subst hu
  unfold dirOf TASK_TABLES at *
  omega

theorem faultDir_change (h : Inv c) {t v : Nat} {f : Frame} (ht : t ≠ 0) (hv : v < 1024 * (c.tasks t).tables)
    (hd : c.mem.dir (dirOf t v) = none) (hf : c.mem.CanTake f) (hlive : c.procs t ≠ .none) :
    Change (c.touches t) (· ∈ (c.procs t).frames) S c.mem
      (((c.mem.take f).setKernel f false).setDir (dirOf t v) (some f)) :=
  .table hf hd (dirOf_ge ht) (dirOf_lt (h.live t hlive) (h.range hv)) (.inl (dirOf_div (h.range hv)))

theorem faultDir (h : Inv c) {t v : Nat} {f : Frame} {q : Proc} (ht : t ≠ 0) (hv : v < 1024 * (c.tasks t).tables)
    (hd : c.mem.dir (dirOf t v) = none) (hf : c.mem.CanTake f) (hself : c.procs t ≠ .none ∧ c.procs t ≠ .child)
    (hq : q ≠ .none) (hmaking : q.making = (c.procs t).making) (hframes : ∀ f ∈ q.frames, f ∈ (c.procs t).frames)
    (hnodup : q.frames.Nodup)
    (hknows : Knows (((c.mem.take f).setKernel f false).setDir (dirOf t v) (some f)) (c.tasks t) t q) :
    Inv (c.goto t q (((c.mem.take f).setKernel f false).setDir (dirOf t v) (some f))) := by
  have hr := h.range hv
  refine h.act (.single (h.faultDir_change ht hv hd hf hself.1)) hself (fun hc => absurd hc hq) hmaking
    (fun g hg => ⟨?_, .inl (hframes g hg)⟩) hnodup hknows ?_
  · have hk := h.held t g (hframes g hg)
    have hgf : g ≠ f := by
      rintro rfl
      rw [h.counts.not_kernel hf] at hk
      cases hk
    show (if g = f then false else if g = f then true else c.mem.kernel g) = true
    rw [if_neg hgf, if_neg hgf]
    exact hk
  · intro u _ j hj hlt hd'
    exact beyond_table (s := (c.mem.take f).setKernel f false) hv hr hj hlt hd'

theorem swapIn_change (h : Inv c) {t v n : Nat} {f : Frame} (hp : c.procs t = .swapRead v n f) :
    Change (c.touches t) (· ∈ (c.procs t).frames) S c.mem
      (((c.mem.swapFree n).setAt t v (.page f true true)).setKernel f false) := by
  have hknow := h.knows t
  rw [hp] at hknow
  obtain ⟨ht, hv, he⟩ := hknow
  have hf : f ∈ (c.procs t).frames := by simp [hp, Proc.frames]
  exact .swapIn (h.held t f hf) hf (dirOf_ge ht) he (.inl (dirOf_div (h.range hv)))

theorem swapIn (h : Inv c) {t v n : Nat} {f : Frame} (hp : c.procs t = .swapRead v n f) :
    Inv (c.goto t .user (((c.mem.swapFree n).setAt t v (.page f true true)).setKernel f false)) := by
  refine h.given (.single (h.swapIn_change hp)) ?_ ⟨by simp [hp], by simp [hp]⟩ Proc.noConfusion
    (by simp [hp, Proc.making]) rfl trivial
  exact (dir_setEntry _ _ _ _).trans (dir_swapFree _ _)

theorem empty (h : Inv c) {t v : Nat} {f : Frame} {q : Proc} (hp : c.procs t = .noPage v) (hf : c.mem.CanTake f)
    (hq : q = .put v f ∨ q = .load v f) : Inv (c.goto t q (c.mem.take f)) := by
  have hknow := h.knows t
  rw [hp] at hknow
  obtain ⟨ht, hv, he, hd⟩ := hknow
  have hknow' : Knows (c.mem.take f) (c.tasks t) t (.put v f) := ⟨ht, hv, by rw [h.at_take hf, he], hd⟩
  rcases hq with rfl | rfl
  · exact h.taken hf (.single (.take hf)) rfl rfl ⟨by simp [hp], by simp [hp]⟩ Proc.noConfusion
      (by simp [hp, Proc.making]) (by simp [hp, Proc.frames]) hknow'
  · exact h.taken hf (.single (.take hf)) rfl rfl ⟨by simp [hp], by simp [hp]⟩ Proc.noConfusion
      (by simp [hp, Proc.making]) (by simp [hp, Proc.frames]) hknow'

theorem loaded (h : Inv c) {t v : Nat} {f : Frame} (pg : Page) (hp : c.procs t = .load v f) :
    Inv (c.goto t (.put v f) (c.mem.setData f pg)) := by
  have hknow := h.knows t
  rw [hp] at hknow
  have hf : f ∈ (c.procs t).frames := by simp [hp, Proc.frames]
  have hk := h.held t f hf
  refine h.act (.single (.fill pg hk hf)) ⟨by simp [hp], by simp [hp]⟩ (fun hc => Proc.noConfusion hc)
    (by simp [hp, Proc.making]) (fun g hg => ?_) (List.nodup_singleton f) hknow fun _ _ _ _ _ hd => hd
  obtain rfl := List.mem_singleton.mp hg
  exact ⟨hk, .inl hf⟩

theorem map_change (h : Inv c) {t v : Nat} {f : Frame} (rw b : Bool) (hf : f ∈ (c.procs t).frames) (ht : t ≠ 0)
    (hv : v < 1024 * TASK_TABLES) (he : c.mem.at t v = .none) (hd : c.mem.dir (dirOf t v) ≠ none) :
    Change (c.touches t) (· ∈ (c.procs t).frames) S c.mem ((c.mem.setAt t v (.page f rw b)).setKernel f false) :=
  .map rw b (h.held t f hf) hf hd (dirOf_ge ht) (Nat.mod_lt v (by decide)) he (.inl (dirOf_div hv))

theorem put_change (h : Inv c) {t v : Nat} {f : Frame} (hp : c.procs t = .put v f) :
    Change (c.touches t) (· ∈ (c.procs t).frames) S c.mem
      ((c.mem.setAt t v (.page f true false)).setKernel f false) := by
  have hknow := h.knows t
  rw [hp] at hknow
  obtain ⟨ht, hv, he, hd⟩ := hknow
  exact h.map_change true false (by simp [hp, Proc.frames]) ht (h.range hv) he hd

theorem put (h : Inv c) {t v : Nat} {f : Frame} (hp : c.procs t = .put v f) :
    Inv (c.goto t .user ((c.mem.setAt t v (.page f true false)).setKernel f false)) := by
  exact h.given (.single (h.put_change hp)) (dir_setEntry _ _ _ _) ⟨by simp [hp], by simp [hp]⟩ Proc.noConfusion
    (by simp [hp, Proc.making]) rfl trivial

theorem putFail (h : Inv c) {t v : Nat} {f : Frame} (hp : c.procs t = .put v f) :
    Inv (c.goto t .oom (c.mem.release f)) := by
  have hknow := h.knows t
  rw [hp] at hknow
  have hf : f ∈ (c.procs t).frames := by simp [hp, Proc.frames]
  exact h.given (.single (.release (h.held t f hf) hf)) (dir_freePage _ _) ⟨by simp [hp], by simp [hp]⟩
    Proc.noConfusion (by simp [hp, Proc.making]) rfl hknow.1

/-- What `try_to_share` does. -/
theorem share_change (h : Inv c) {t v p : Nat} {f : Frame} (hp : c.procs t = .noPage v) (hp0 : p ≠ 0)
    (hs : c.mem.sharable p v = some f) (hS : S (dirOf t v) (dirOf p v) (v % 1024)) :
    Change (c.touches t) (· ∈ (c.procs t).frames) S c.mem (c.mem.shareWith t p v f) := by
  have hknow := h.knows t
  rw [hp] at hknow
  obtain ⟨ht, hv, he, hd⟩ := hknow
  unfold Paging.sharable at hs
  split at hs
  · rename_i g rw hg
    split at hs
    · cases hs
    · rename_i hrange
      obtain rfl := Option.some.inj hs
      have hm : c.mem.Managed g := by
        rcases h.counts.tables.entryFrame _ _ _ _ _ (dirOf_ge hp0) hg with hlow | hm
        · exact absurd (.inr hlow) hrange
        · exact hm
      have hplace : dirOf t v % TASK_TABLES = dirOf p v % TASK_TABLES := by rw [dirOf_mod, dirOf_mod]
      unfold Paging.shareWith
      rw [hg]
      exact .share hm hd (dirOf_ge ht) (dirOf_ge hp0) he hg hplace (.inl (dirOf_div (h.range hv))) hS
  · cases hs

theorem dir_shareWith (s : Paging) (t p v : Nat) (f : Frame) : (s.shareWith t p v f).dir = s.dir := by
  unfold Paging.shareWith
  exact (dir_setEntry _ _ _ _).trans (dir_setEntry _ _ _ _)

theorem share (h : Inv c) {t v p : Nat} {f : Frame} (hp : c.procs t = .noPage v) (hp0 : p ≠ 0)
    (hs : c.mem.sharable p v = some f) : Inv (c.goto t .user (c.mem.shareWith t p v f)) := by
  exact h.given (.single (h.share_change hp hp0 hs trivial)) (dir_shareWith _ _ _ _ _) ⟨by simp [hp], by simp [hp]⟩
    Proc.noConfusion (by simp [hp, Proc.making]) rfl trivial

/-! ## `un_wp_page` -/

/-- `un_wp_page` returns. -/
theorem unWpDone (h : Inv c) {t v : Nat} {new new' : Option Frame} {ver : Bool} {s' : Paging}
    (hp : c.procs t = .unWp v new ver) (hch : c.Changes t c.mem s') (hdir : s'.dir = c.mem.dir)
    (hnew : ∀ g, new' = some g → g ∈ (c.procs t).frames ∧ s'.kernel g) : Inv (c.unWpDone t v new' ver s') := by
  have hmain : ∀ {s''}, c.Changes t c.mem s'' → s''.dir = c.mem.dir → Inv (c.unWpDone t v none ver s'') := by
    intro s'' hch hdir
    have hinv : Inv (c.goto t .user s'') := h.given hch hdir ⟨by simp [hp], by simp [hp]⟩ Proc.noConfusion
      (by simp [hp, Proc.making]) rfl trivial
    unfold Config.unWpDone
    dsimp only
    split
    · exact hinv.setVerified t _
    · exact hinv
  cases new' with
  | none => exact hmain hch hdir
  | some g =>
      obtain ⟨hg, hk⟩ := hnew g rfl
      exact hmain (hch.tail (.release hk hg)) ((dir_freePage _ _).trans hdir)

theorem unWpTake (h : Inv c) {t v : Nat} {ver : Bool} {g : Frame} (hp : c.procs t = .unWp v none ver)
    (hg : c.mem.CanTake g) : Inv (c.goto t (.unWp v (some g) ver) (c.mem.take g)) := by
  have hknow := h.knows t
  rw [hp] at hknow
  exact h.taken hg (.single (.take hg)) rfl rfl ⟨by simp [hp], by simp [hp]⟩ Proc.noConfusion
    (by simp [hp, Proc.making]) (by simp [hp, Proc.frames]) hknow

theorem unWp_ne (h : Inv c) {t v : Nat} {new : Option Frame} {ver : Bool} (hp : c.procs t = .unWp v new ver) :
    t ≠ 0 := by
  have hknow := h.knows t
  rw [hp] at hknow
  exact hknow

theorem unWpAlone (h : Inv c) {t v : Nat} {new : Option Frame} {ver rw d : Bool} {f : Frame}
    (hp : c.procs t = .unWp v new ver) (he : c.mem.at t v = .page f rw d) (hf : LOW_MEM ≤ f)
    (hm : c.mem.memMap f = 1) :
    Inv (c.unWpDone t v new ver (c.mem.setAt t v (.page f true d))) := by
  refine h.unWpDone hp (.single (.flags true d (dirOf_ge (h.unWp_ne hp)) he fun _ => ⟨hf, hm⟩))
    (dir_setEntry _ _ _ _) fun g hg => ?_
  have hmem : g ∈ (c.procs t).frames := by simp [hp, Proc.frames, hg]
  refine ⟨hmem, ?_⟩
  unfold Paging.setAt
  rw [kernel_setEntry]
  exact h.held t g hmem

theorem unWpCopy_change (h : Inv c) {t v : Nat} {ver rw d : Bool} {f g : Frame}
    (hp : c.procs t = .unWp v (some g) ver) (he : c.mem.at t v = .page f rw d) :
    Change (c.touches t) (· ∈ (c.procs t).frames) S c.mem
      ((((c.mem.setData g (c.mem.data f)).setAt t v (.page g true d)).setKernel g false).freePage f) := by
  have hg : g ∈ (c.procs t).frames := by simp [hp, Proc.frames]
  exact .copy (h.held t g hg) hg (dirOf_ge (h.unWp_ne hp)) he

theorem unWpCopy (h : Inv c) {t v : Nat} {ver rw d : Bool} {f g : Frame} (hp : c.procs t = .unWp v (some g) ver)
    (he : c.mem.at t v = .page f rw d) : Inv (c.unWpDone t v none ver
      ((((c.mem.setData g (c.mem.data f)).setAt t v (.page g true d)).setKernel g false).freePage f)) := by
  refine h.unWpDone hp (.single (h.unWpCopy_change hp he)) ?_ fun _ hc => absurd hc (by simp)
  exact (dir_freePage _ _).trans (dir_setEntry _ _ _ _)

/-! ## `fork` -/

theorem forkSkip (h : Inv c) {t n k : Nat} (hp : c.procs t = .fork n k none)
    (hblank : Blank c.mem n (k + 1) none) : Inv (c.setProc t (.fork n (k + 1) none)) :=
  h.go ⟨by simp [hp], by simp [hp]⟩ Proc.noConfusion (by simp [hp, Proc.making])
    (fun _ hf => by simp [Proc.frames] at hf)
    List.nodup_nil hblank

theorem forkTable_change (h : Inv c) {t n k : Nat} {f : Frame} (hp : c.procs t = .fork n k none)
    (hk : k < (c.tasks t).tables) (hf : c.mem.CanTake f) : Change (c.touches t) (· ∈ (c.procs t).frames) S c.mem
      (((c.mem.take f).setKernel f false).setDir (TASK_TABLES * n + k) (some f)) := by
  have hblank := h.knows t
  rw [hp] at hblank
  have hblank : Blank c.mem n k none := hblank
  have hmake : (c.procs t).making = some n := by simp [hp, Proc.making]
  obtain ⟨hchild, hn0, -⟩ := h.child t n hmake
  have hk16 : k < TASK_TABLES := hk.trans_le (h.tables t)
  have hlt : TASK_TABLES * n + k < 1024 := by
    have hn := h.live n (by simp [hchild])
    unfold TASK_TABLES NR_TASKS at *
    omega
  exact .table hf (hblank k (Nat.le_refl k) hk16) (table_ge hn0) hlt (.inr (by rw [table_div hk16]; exact hmake))

theorem forkTable (h : Inv c) {t n k : Nat} {f : Frame} (hp : c.procs t = .fork n k none)
    (hk : k < (c.tasks t).tables) (hf : c.mem.CanTake f) : Inv (c.goto t (.fork n k (some 0))
      (((c.mem.take f).setKernel f false).setDir (TASK_TABLES * n + k) (some f))) := by
  have hblank := h.knows t
  rw [hp] at hblank
  have hblank : Blank c.mem n k none := hblank
  obtain ⟨hchild, hn0, htables⟩ := h.child t n (by simp [hp, Proc.making])
  have hk16 : k < TASK_TABLES := by
    have := h.tables t
    omega
  have hd := hblank k (Nat.le_refl k) hk16
  have hch := h.forkTable_change (S := fun _ _ _ => True) hp hk hf
  refine h.act (.single hch) ⟨by simp [hp], by simp [hp]⟩ (fun hc => Proc.noConfusion hc) (by simp [hp, Proc.making])
    (fun _ hg => by simp [Proc.frames] at hg) List.nodup_nil ?_ fun u _ j hj hjlt hd' => ?_
  · refine ⟨hk, ?_, fun i' _ => ?_, fun j' hlt' hj' => ?_⟩
    · show (if _ = _ then some f else _) ≠ none
      rw [if_pos rfl]
      simp
    · rw [h.counts.entry_newTable hf hd, entry_of_no_dir _ hd]
    · exact (if_neg (by omega)).trans (hblank j' (by omega) hj')
  · refine (if_neg fun he => ?_).trans hd'
    have hu : u = n := by rw [← table_div (t := u) hjlt, he, table_div hk16]
    subst hu
    rw [htables] at hj
    omega

theorem forkNone (h : Inv c) {t n k i : Nat} (hp : c.procs t = .fork n k (some i)) :
    Inv (c.setProc t (.fork n k (some (i + 1)))) := by
  have hknow := h.knows t
  rw [hp] at hknow
  obtain ⟨hk, hd, hi, hnext⟩ := hknow
  exact h.go ⟨by simp [hp], by simp [hp]⟩ Proc.noConfusion (by simp [hp, Proc.making])
    (fun _ hf => by simp [Proc.frames] at hf) List.nodup_nil ⟨hk, hd, fun i' hle => hi i' (by omega), hnext⟩

/-- The first task has pages of the low memory, and no slots. -/
theorem first_entry (h : Inv c) {k i : Nat} (hk : k < (c.tasks 0).tables) (hi : i < copied 0) :
    c.mem.entry (TASK_TABLES * 0 + k) i = .none ∨
      ∃ f rw b, f < LOW_MEM ∧ c.mem.entry (TASK_TABLES * 0 + k) i = .page f rw b := by
  rw [h.first] at hk
  obtain rfl : k = 0 := by omega
  exact h.counts.tables.first i hi

theorem copied_le (t : Nat) : copied t ≤ 1024 := by
  unfold copied
  split <;> omega

/-- The parent and the child are two tasks. -/
theorem child_ne (h : Inv c) {t n : Nat} (hn : (c.procs t).making = some n) : n ≠ 0 ∧ n ≠ t := by
  obtain ⟨hchild, hn0, -⟩ := h.child t n hn
  refine ⟨hn0, ?_⟩
  rintro rfl
  rw [hchild] at hn
  cases hn

theorem tables_ne {t n k : Nat} (hnt : n ≠ t) : TASK_TABLES * n + k ≠ TASK_TABLES * t + k := by
  unfold TASK_TABLES
  omega

/-- A page that a child gets from another task than the first is managed. -/
theorem fork_managed (h : Inv c) {t k i : Nat} {f : Frame} {rw d : Bool} (hk : k < (c.tasks t).tables)
    (hi : i < copied t) (he : c.mem.entry (TASK_TABLES * t + k) i = .page f rw d) (hf : ¬f < LOW_MEM) :
    t ≠ 0 ∧ c.mem.Managed f := by
  have ht : t ≠ 0 := by
    rintro rfl
    rcases h.first_entry hk hi with hnone | ⟨g, rw', b', hg, hpage⟩
    · rw [hnone] at he
      cases he
    · rw [hpage] at he
      cases he
      exact hf hg
  refine ⟨ht, ?_⟩
  rcases h.counts.tables.entryFrame _ _ _ _ _ (table_ge ht) he with hlow | hm
  · exact absurd hlow hf
  · exact hm

theorem forkPage_change (h : Inv c) {t n k i : Nat} {f : Frame} {rw d : Bool} (hp : c.procs t = .fork n k (some i))
    (hi : i < copied t) (he : c.mem.entry (TASK_TABLES * t + k) i = .page f rw d)
    (hS : S (TASK_TABLES * n + k) (TASK_TABLES * t + k) i) : Change (c.touches t) (· ∈ (c.procs t).frames) S c.mem
      (let s := c.mem.setEntry (TASK_TABLES * n + k) i (.page f false d)
       if f < LOW_MEM then s else (s.setEntry (TASK_TABLES * t + k) i (.page f false d)).share f) := by
  have hknow := h.knows t
  rw [hp] at hknow
  obtain ⟨hk, hd, hhole, -⟩ := hknow
  have hmake : (c.procs t).making = some n := by simp [hp, Proc.making]
  obtain ⟨hn0, hnt⟩ := h.child_ne hmake
  have hk16 : k < TASK_TABLES := hk.trans_le (h.tables t)
  have htouch : c.touches t ((TASK_TABLES * n + k) / TASK_TABLES) := .inr (by rw [table_div hk16]; exact hmake)
  have hnone := hhole i (Nat.le_refl i)
  dsimp only
  by_cases hf : f < LOW_MEM
  · rw [if_pos hf]
    exact .low d hf hd (table_ge hn0) (hi.trans_le (copied_le t)) hnone htouch ⟨_, hS⟩
  · rw [if_neg hf, setEntry_comm h.counts.tables (tables_ne hnt)]
    obtain ⟨ht, hm⟩ := h.fork_managed hk hi he hf
    have hplace : (TASK_TABLES * n + k) % TASK_TABLES = (TASK_TABLES * t + k) % TASK_TABLES := by
      unfold TASK_TABLES
      omega
    exact .share hm hd (table_ge hn0) (table_ge ht) hnone he hplace htouch hS

theorem forkPage (h : Inv c) {t n k i : Nat} {f : Frame} {rw d : Bool} (hp : c.procs t = .fork n k (some i))
    (hi : i < copied t) (he : c.mem.entry (TASK_TABLES * t + k) i = .page f rw d) :
    Inv (c.goto t (.fork n k (some (i + 1)))
      (let s := c.mem.setEntry (TASK_TABLES * n + k) i (.page f false d)
       if f < LOW_MEM then s else (s.setEntry (TASK_TABLES * t + k) i (.page f false d)).share f)) := by
  have hknow := h.knows t
  rw [hp] at hknow
  obtain ⟨hk, hd, hhole, hnext⟩ := hknow
  obtain ⟨hn0, hnt⟩ := h.child_ne (t := t) (n := n) (by simp [hp, Proc.making])
  have hch := h.forkPage_change (S := fun _ _ _ => True) hp hi he trivial
  have hgo : ∀ {s'}, c.Changes t c.mem s' → s'.dir = c.mem.dir →
      (∀ i' ≥ i + 1, s'.entry (TASK_TABLES * n + k) i' = .none) → Inv (c.goto t (.fork n k (some (i + 1))) s') := by
    intro s' hch hdir hrest
    refine h.given hch hdir ⟨by simp [hp], by simp [hp]⟩ Proc.noConfusion (by simp [hp, Proc.making]) rfl
      ⟨hk, ?_, hrest, fun j' hlt hj' => ?_⟩
    · rw [hdir]
      exact hd
    · rw [hdir]
      exact hnext j' hlt hj'
  dsimp only at hch ⊢
  by_cases hf : f < LOW_MEM
  · rw [if_pos hf] at hch ⊢
    refine hgo (.single hch) (dir_setEntry _ _ _ _) fun i' hle => ?_
    rw [h.counts.tables.entry_setEntry hd, if_neg (by omega)]
    exact hhole i' (by omega)
  · rw [if_neg hf] at hch ⊢
    obtain ⟨ht, -⟩ := h.fork_managed hk hi he hf
    have hdir := (dir_setEntry (c.mem.setEntry (TASK_TABLES * n + k) i (.page f false d)) (TASK_TABLES * t + k) i
      (.page f false d)).trans (dir_setEntry _ _ _ _)
    refine hgo (.single hch) hdir fun i' hle => ?_
    have hflags := h.counts.setFlags false d (table_ge ht) he
    rw [setEntry_comm h.counts.tables (tables_ne hnt)]
    show ((c.mem.setEntry _ i _).setEntry (TASK_TABLES * n + k) i (.page f false d)).entry _ i' = .none
    rw [hflags.tables.entry_setEntry (by simpa using hd), if_neg (by omega),
      h.counts.tables.entry_setEntry (dir_of_page he), if_neg (fun hc => tables_ne hnt hc.1)]
    exact hhole i' (by omega)

theorem forkSwap (h : Inv c) {t n k i m : Nat} {f : Frame} (hp : c.procs t = .fork n k (some i)) (hi : i < copied t)
    (he : c.mem.entry (TASK_TABLES * t + k) i = .swap m) (hf : c.mem.CanTake f) :
    Inv (c.goto t (.forkRead n k i m f) { c.mem.take f with queue := c.mem.queue ++ [.read m f] }) := by
  have hknow := h.knows t
  rw [hp] at hknow
  obtain ⟨hk, hblank⟩ := hknow
  have hentry : ({ c.mem.take f with queue := c.mem.queue ++ [.read m f] } : Paging).entry = c.mem.entry :=
    h.counts.entry_take hf
  have ht : t ≠ 0 := by
    rintro rfl
    rcases h.first_entry hk hi with hnone | ⟨g, rw', b', -, hpage⟩
    · rw [hnone] at he
      cases he
    · rw [hpage] at he
      cases he
  refine h.taken hf (.single (.read m hf)) rfl rfl ⟨by simp [hp], by simp [hp]⟩ Proc.noConfusion
    (by simp [hp, Proc.making]) (by simp [hp, Proc.frames]) ⟨ht, hk, hi, ?_, ?_⟩
  · obtain ⟨hd, hhole, hnext⟩ := hblank
    refine ⟨hd, fun i' hle => ?_, hnext⟩
    rw [hentry]
    exact hhole i' hle
  · rw [hentry]
    exact he

theorem forkSwapped_change (h : Inv c) {t n k i m : Nat} {f : Frame} (hp : c.procs t = .forkRead n k i m f) :
    Change (c.touches t) (· ∈ (c.procs t).frames) S c.mem (((c.mem.setEntry (TASK_TABLES * n + k) i (.swap m)).setEntry
      (TASK_TABLES * t + k) i (.page f true true)).setKernel f false) := by
  have hknow := h.knows t
  rw [hp] at hknow
  obtain ⟨ht, hk, hi, ⟨hd, hhole, hnext⟩, he⟩ := hknow
  have hmake : (c.procs t).making = some n := by simp [hp, Proc.making]
  obtain ⟨hn0, hnt⟩ := h.child_ne hmake
  have hk16 : k < TASK_TABLES := hk.trans_le (h.tables t)
  have hf : f ∈ (c.procs t).frames := by simp [hp, Proc.frames]
  exact .move (h.held t f hf) hf hd (table_ge ht) (table_ge hn0) (tables_ne hnt) he (hhole i (Nat.le_refl i))
    (.inl (table_div hk16)) (.inr (by rw [table_div hk16]; exact hmake))

theorem forkSwapped (h : Inv c) {t n k i m : Nat} {f : Frame} (hp : c.procs t = .forkRead n k i m f) :
    Inv (c.goto t (.fork n k (some (i + 1))) (((c.mem.setEntry (TASK_TABLES * n + k) i (.swap m)).setEntry
      (TASK_TABLES * t + k) i (.page f true true)).setKernel f false)) := by
  have hknow := h.knows t
  rw [hp] at hknow
  obtain ⟨ht, hk, hi, ⟨hd, hhole, hnext⟩, he⟩ := hknow
  obtain ⟨hn0, hnt⟩ := h.child_ne (t := t) (n := n) (by simp [hp, Proc.making])
  have hdd : TASK_TABLES * n + k ≠ TASK_TABLES * t + k := tables_ne hnt
  have hi' : i < 1024 := hi.trans_le (copied_le t)
  have hslot : Counts (c.mem.setEntry (TASK_TABLES * n + k) i (.swap m)) := by
    refine h.counts.setUnmanaged hd (table_ge hn0) hi' (fun g hg => ?_) fun g hg => ?_
    · rw [hhole i (Nat.le_refl i)] at hg
      cases hg
    · cases hg
  have hdt : c.mem.dir (TASK_TABLES * t + k) ≠ none := by
    obtain ⟨T, hT⟩ := dir_of_entry (s := c.mem) (d := TASK_TABLES * t + k) (i := i)
      (by rw [he]; exact Entry.noConfusion)
    simp [hT]
  have hdir := (dir_setEntry (c.mem.setEntry (TASK_TABLES * n + k) i (.swap m)) (TASK_TABLES * t + k) i
    (.page f true true)).trans (dir_setEntry _ _ _ _)
  refine h.given (.single (h.forkSwapped_change hp)) hdir ⟨by simp [hp], by simp [hp]⟩ Proc.noConfusion
    (by simp [hp, Proc.making]) rfl
    ⟨hk, ?_, fun i' hle => ?_, fun j' hlt hj' => ?_⟩
  · exact fun hc => hd ((congrFun hdir _).symm.trans hc)
  · show ((c.mem.setEntry _ i (.swap m)).setEntry _ i (.page f true true)).entry _ i' = .none
    rw [hslot.tables.entry_setEntry (by simpa using hdt), if_neg (fun hc => hdd hc.1),
      h.counts.tables.entry_setEntry hd, if_neg (by omega)]
    exact hhole i' (by omega)
  · exact (congrFun hdir _).trans (hnext j' hlt hj')

/-- A child begins. -/
theorem fork (h : Inv c) {t n : Nat} (hp : c.procs t = .user) (hn : n < NR_TASKS) (hn0 : n ≠ 0)
    (hfree : c.procs n = .none) :
    Inv (((c.setProc n .child).setTask n (c.tasks t)).setProc t (.fork n 0 none)) := by
  have hnt : n ≠ t := by
    rintro rfl
    rw [hp] at hfree
    cases hfree
  have hproc : ∀ x, ((((c.setProc n .child).setTask n (c.tasks t)).setProc t (.fork n 0 none)).procs x) =
      if x = t then .fork n 0 none else if x = n then .child else c.procs x := fun _ => rfl
  have htask : ∀ x, ((((c.setProc n .child).setTask n (c.tasks t)).setProc t (.fork n 0 none)).tasks x) =
      if x = n then c.tasks t else c.tasks x := fun _ => rfl
  have hframes : ∀ x f, f ∈ ((((c.setProc n .child).setTask n (c.tasks t)).setProc t (.fork n 0 none)).procs x).frames →
      f ∈ (c.procs x).frames := by
    intro x f hf
    rw [hproc] at hf
    split at hf
    · simp [Proc.frames] at hf
    · split at hf
      · simp [Proc.frames] at hf
      · exact hf
  have hmaking : ∀ x m, ((((c.setProc n .child).setTask n (c.tasks t)).setProc t (.fork n 0 none)).procs x).making =
      some m → (x = t ∧ m = n) ∨ (x ≠ t ∧ x ≠ n ∧ (c.procs x).making = some m) := by
    intro x m hm
    rw [hproc] at hm
    split at hm
    · exact .inl ⟨‹_›, (Option.some.inj hm).symm⟩
    · split at hm
      · cases hm
      · exact .inr ⟨‹_›, ‹_›, hm⟩
  have hold : ∀ {x m}, (c.procs x).making = some m → m ≠ n ∧ m ≠ t := by
    intro x m hm
    have hchild := (h.child x m hm).1
    constructor
    · rintro rfl
      rw [hfree] at hchild
      cases hchild
    · rintro rfl
      rw [hp] at hchild
      cases hchild
  constructor
  · exact h.counts
  · exact fun x f hf => h.held x f (hframes x f hf)
  · intro x
    rw [hproc]
    split
    · exact List.nodup_nil
    · split
      · exact List.nodup_nil
      · exact h.nodup x
  · exact fun x x' f hf hf' => h.apart x x' f (hframes x f hf) (hframes x' f hf')
  · intro x
    rw [hproc, htask]
    by_cases hxt : x = t
    · rw [if_pos hxt]
      exact fun j' _ hj' => h.bare n hn0 hfree j' hj'
    · rw [if_neg hxt]
      by_cases hxn : x = n
      · rw [if_pos hxn, if_pos hxn]
        trivial
      · rw [if_neg hxn, if_neg hxn]
        exact h.knows x
  · intro x hx
    rw [hproc] at hx
    by_cases hxt : x = t
    · rw [hxt]
      exact h.live t (by simp [hp])
    · rw [if_neg hxt] at hx
      by_cases hxn : x = n
      · rw [hxn]
        exact hn
      · rw [if_neg hxn] at hx
        exact h.live x hx
  · intro x
    rw [htask]
    split
    · exact h.tables t
    · exact h.tables x
  · rw [htask, if_neg hn0.symm]
    exact h.first
  · intro x hx0 hx j hj
    rw [hproc] at hx
    split at hx
    · cases hx
    · split at hx
      · cases hx
      · exact h.bare x hx0 hx j hj
  · intro x hx0 j hj hlt
    rw [htask] at hj
    by_cases hxn : x = n
    · rw [hxn]
      exact h.bare n hn0 hfree j hlt
    · rw [if_neg hxn] at hj
      exact h.beyond x hx0 j hj hlt
  · intro x m hm
    rcases hmaking x m hm with ⟨rfl, rfl⟩ | ⟨hxt, hxn, hm⟩
    · refine ⟨?_, hn0, ?_⟩
      · rw [hproc, if_neg hnt, if_pos rfl]
      · rw [htask, htask, if_pos rfl, if_neg (Ne.symm hnt)]
    · obtain ⟨hmn, hmt⟩ := hold hm
      obtain ⟨hchild, hm0, htab⟩ := h.child x m hm
      refine ⟨?_, hm0, ?_⟩
      · rw [hproc, if_neg hmt, if_neg hmn]
        exact hchild
      · rw [htask, htask, if_neg hmn, if_neg hxn]
        exact htab
  · intro x x' m hm hm'
    rcases hmaking x m hm with ⟨rfl, rfl⟩ | ⟨-, -, hmk⟩
    · rcases hmaking x' m hm' with ⟨rfl, -⟩ | ⟨-, -, hmk'⟩
      · rfl
      · exact absurd rfl (hold hmk').1
    · rcases hmaking x' m hm' with ⟨rfl, rfl⟩ | ⟨-, -, hmk'⟩
      · exact absurd rfl (hold hmk).1
      · exact h.once x x' m hmk hmk'

/-- A child is finished, or given up. -/
theorem finish (h : Inv c) {t n : Nat} {q : Proc} {s' : Paging} (hmake : (c.procs t).making = some n)
    (hframes : (c.procs t).frames = []) (hch : c.Changes t c.mem s')
    (hdir : ∀ d, c.mem.dir d = none → s'.dir d = none)
    (hq : q = .user ∨ (q = .none ∧ ∀ j < TASK_TABLES, s'.dir (TASK_TABLES * n + j) = none)) :
    Inv ((c.goto t .user s').setProc n q) := by
  obtain ⟨hchild, hn0, htab⟩ := h.child t n hmake
  have hself : c.procs t ≠ .none ∧ c.procs t ≠ .child := by
    constructor <;>
    · intro hc
      rw [hc] at hmake
      cases hmake
  have hnt : n ≠ t := by
    rintro rfl
    exact hself.2 hchild
  have hproc : ∀ x, ((c.goto t .user s').setProc n q).procs x =
      if x = n then q else if x = t then .user else c.procs x :=
    fun _ => rfl
  have hqf : q.frames = [] ∧ q.making = none := by
    rcases hq with rfl | ⟨rfl, -⟩ <;> exact ⟨rfl, rfl⟩
  have hfr : ∀ x f, f ∈ (((c.goto t .user s').setProc n q).procs x).frames → x ≠ t ∧ f ∈ (c.procs x).frames := by
    intro x f hf
    rw [hproc] at hf
    split at hf
    · rw [hqf.1] at hf
      cases hf
    · split at hf
      · cases hf
      · exact ⟨‹_›, hf⟩
  have hmk : ∀ x m, (((c.goto t .user s').setProc n q).procs x).making = some m →
      x ≠ t ∧ (c.procs x).making = some m := by
    intro x m hm
    rw [hproc] at hm
    split at hm
    · rw [hqf.2] at hm
      cases hm
    · split at hm
      · cases hm
      · exact ⟨‹_›, hm⟩
  constructor
  · exact Changes.counts hch h.counts
  · intro x f hf
    obtain ⟨hxt, hf⟩ := hfr x f hf
    exact Changes.kernel hch h.counts (h.held x f hf) fun hc => hxt (h.apart x t f hf hc)
  · intro x
    rw [hproc]
    split
    · rw [hqf.1]
      exact List.nodup_nil
    · split
      · exact List.nodup_nil
      · exact h.nodup x
  · exact fun x x' f hf hf' => h.apart x x' f (hfr x f hf).2 (hfr x' f hf').2
  · intro x
    rw [hproc]
    split
    · rcases hq with rfl | ⟨rfl, -⟩ <;> trivial
    · split
      · trivial
      · exact h.knows_other hch hself ‹_›
  · intro x hx
    rw [hproc] at hx
    by_cases hxn : x = n
    · rw [hxn]
      exact h.live n (by simp [hchild])
    · rw [if_neg hxn] at hx
      by_cases hxt : x = t
      · rw [hxt]
        exact h.live t hself.1
      · rw [if_neg hxt] at hx
        exact h.live x hx
  · exact h.tables
  · exact h.first
  · intro x hx0 hx j hj
    rw [hproc] at hx
    by_cases hxn : x = n
    · rw [if_pos hxn] at hx
      rw [hxn]
      rcases hq with rfl | ⟨-, hbare⟩
      · cases hx
      · exact hbare j hj
    · rw [if_neg hxn] at hx
      split at hx
      · cases hx
      · exact hdir _ (h.bare x hx0 hx j hj)
  · exact fun x hx0 j hj hlt => hdir _ (h.beyond x hx0 j hj hlt)
  · intro x m hm
    obtain ⟨hxt, hm'⟩ := hmk x m hm
    obtain ⟨hmchild, hrest⟩ := h.child x m hm'
    refine ⟨?_, hrest⟩
    have hmn : m ≠ n := by
      rintro rfl
      exact hxt (h.once x t m hm' hmake)
    have hmt : m ≠ t := by
      rintro rfl
      exact hself.2 hmchild
    rw [hproc, if_neg hmn, if_neg hmt]
    exact hmchild
  · exact fun x x' m hm hm' => h.once x x' m (hmk x m hm).2 (hmk x' m hm').2

theorem forkFail_change (h : Inv c) {t n k : Nat} {i : Option Nat} (hp : c.procs t = .fork n k i) :
    Change (c.touches t) (· ∈ (c.procs t).frames) S c.mem
      (c.mem.freePageTables (TASK_TABLES * n) (c.tasks t).tables) := by
  have hmake : (c.procs t).making = some n := by simp [hp, Proc.making]
  have htab := h.tables t
  refine .clear _ _ (table_ge (j := 0) (h.child_ne hmake).1) fun j hj => .inr ?_
  rw [table_div (hj.trans_le htab)]
  exact hmake

theorem forkFail (h : Inv c) {t n k : Nat} {i : Option Nat} (hp : c.procs t = .fork n k i) :
    Inv ((c.goto t .user (c.mem.freePageTables (TASK_TABLES * n) (c.tasks t).tables)).setProc n .none) := by
  have hmake : (c.procs t).making = some n := by simp [hp, Proc.making]
  obtain ⟨hchild, hn0, htab⟩ := h.child t n hmake
  refine h.finish hmake (by simp [hp, Proc.frames]) (.single (h.forkFail_change hp)) (fun d hd => ?_)
    (.inr ⟨rfl, fun j hj => ?_⟩)
  · rw [dir_freePageTables, hd, ite_self]
  · rw [dir_freePageTables]
    by_cases hjt : j < (c.tasks t).tables
    · exact if_pos (by omega)
    · rw [if_neg (by omega)]
      exact h.beyond n hn0 j (by omega) hj

/-! ## `exit`, `exec` and `uselib` -/

/-- All tables of a task are freed. -/
theorem bare_of_free (h : Inv c) {t : Nat} (ht : t ≠ 0) {j : Nat} (hj : j < TASK_TABLES) :
    (c.mem.freePageTables (TASK_TABLES * t) (c.tasks t).tables).dir (TASK_TABLES * t + j) = none := by
  rw [dir_freePageTables]
  by_cases hjt : j < (c.tasks t).tables
  · exact if_pos (by omega)
  · rw [if_neg (by omega)]
    exact h.beyond t ht j (by omega) hj

theorem clear_change {t d n : Nat} (ht : t ≠ 0) (hd : d + n ≤ TASK_TABLES) :
    Change (c.touches t) (· ∈ (c.procs t).frames) S c.mem (c.mem.freePageTables (TASK_TABLES * t + d) n) := by
  refine .clear _ n (table_ge ht) fun j hj => .inl ?_
  rw [Nat.add_assoc, table_div (by omega)]

theorem exit (h : Inv c) {t : Nat} (ht : t ≠ 0) (hp : (c.procs t).canExit) :
    Inv (c.goto t .none (c.mem.freePageTables (TASK_TABLES * t) (c.tasks t).tables)) := by
  have hcan : c.procs t ≠ .none ∧ c.procs t ≠ .child ∧ (c.procs t).making = none := by
    cases hq : c.procs t <;> rw [hq] at hp <;> simp [Proc.canExit, Proc.making] at hp ⊢
  refine h.act (.single (clear_change (d := 0) ht (by simpa using h.tables t))) ⟨hcan.1, hcan.2.1⟩
    (fun _ j hj => h.bare_of_free ht hj) hcan.2.2.symm (fun _ hf => by simp [Proc.frames] at hf) List.nodup_nil trivial
    fun u _ j _ _ hd => ?_
  rw [dir_freePageTables, hd, ite_self]

/-- What `do_no_page` and the rest use of a task is replaced. -/
theorem setTask (h : Inv c) {t : Nat} {k : Task} (ht : t ≠ 0) (hk : k.tables ≤ TASK_TABLES)
    (hself : c.procs t ≠ .child ∧ (c.procs t).making = none) (hknows : Knows c.mem k t (c.procs t))
    (hbeyond : ∀ j, k.tables ≤ j → j < TASK_TABLES → c.mem.dir (TASK_TABLES * t + j) = none) : Inv (c.setTask t k) := by
  have htask : ∀ x, (c.setTask t k).tasks x = if x = t then k else c.tasks x := fun _ => rfl
  constructor
  · exact h.counts
  · exact h.held
  · exact h.nodup
  · exact h.apart
  · intro x
    rw [htask]
    by_cases hx : x = t
    · rw [if_pos hx, hx]
      exact hknows
    · rw [if_neg hx]
      exact h.knows x
  · exact h.live
  · intro x
    rw [htask]
    split
    · exact hk
    · exact h.tables x
  · rw [htask, if_neg ht.symm]
    exact h.first
  · exact h.bare
  · intro x hx0 j hj hlt
    rw [htask] at hj
    by_cases hx : x = t
    · rw [if_pos hx] at hj
      rw [hx]
      exact hbeyond j hj hlt
    · rw [if_neg hx] at hj
      exact h.beyond x hx0 j hj hlt
  · intro x m hm
    obtain ⟨hchild, hm0, htab⟩ := h.child x m hm
    have hmt : m ≠ t := by
      rintro rfl
      exact hself.1 hchild
    have hxt : x ≠ t := by
      rintro rfl
      have hm' : (c.procs x).making = some m := hm
      rw [hself.2] at hm'
      cases hm'
    refine ⟨hchild, hm0, ?_⟩
    rw [htask, htask, if_neg hmt, if_neg hxt]
    exact htab
  · exact h.once

theorem argsDone (h : Inv c) {t : Nat} {pages : List (Nat × Frame)} {k : Task} (hp : c.procs t = .args pages)
    (hk : k.tables = TASK_TABLES) :
    Inv ((c.goto t (.putArgs pages) (c.mem.freePageTables (TASK_TABLES * t) (c.tasks t).tables)).setTask t k) := by
  have hknow := h.knows t
  rw [hp] at hknow
  obtain ⟨ht, hnodup, hrange⟩ := hknow
  -- the new `task_struct` first: the old tables are among those that it covers
  have htask : Inv (c.setTask t k) := by
    refine h.setTask ht (by omega) (by simp [hp, Proc.making]) ?_ fun j hj hlt => by omega
    rw [hp]
    exact ⟨ht, hnodup, hrange⟩
  have hheld : ∀ f ∈ (Proc.putArgs pages).frames, f ∈ (c.procs t).frames := by
    intro f hf
    rw [hp]
    exact hf
  have hbare : ∀ v < 1024 * TASK_TABLES,
      (c.mem.freePageTables (TASK_TABLES * t) (c.tasks t).tables).at t v = .none := by
    intro v hv
    exact entry_of_no_dir _ (h.bare_of_free ht (j := v / 1024) (by omega)) _
  have hn := h.nodup t
  rw [hp] at hn
  have hch : (c.setTask t k).Changes t c.mem (c.mem.freePageTables (TASK_TABLES * t) (c.tasks t).tables) :=
    .single (clear_change (d := 0) ht (by simpa using h.tables t))
  have hgo := htask.act (q := .putArgs pages) hch ⟨by simp [Config.setTask, hp], by simp [Config.setTask, hp]⟩
    (fun hc => Proc.noConfusion hc) (by simp [Config.setTask, hp, Proc.making])
    (fun f hf => ⟨by rw [kernel_freePageTables]; exact h.held t f (hheld f hf), .inl (hheld f hf)⟩) hn
    ⟨ht, (congrArg Task.tables (if_pos rfl)).trans hk, hnodup, fun v hv => ⟨hrange v hv, hbare v (hrange v hv)⟩⟩
    fun u _ j _ _ hd => by
      rw [dir_freePageTables, show c.mem.dir (TASK_TABLES * u + j) = none from hd, ite_self]
  exact hgo

theorem putArg (h : Inv c) {t v : Nat} {f : Frame} {pages : List (Nat × Frame)}
    (hp : c.procs t = .putArgs ((v, f) :: pages)) (hd : c.mem.dir (dirOf t v) ≠ none) :
    Inv (c.goto t (.putArgs pages) ((c.mem.setAt t v (.page f true true)).setKernel f false)) := by
  have hknow := h.knows t
  rw [hp] at hknow
  obtain ⟨ht, hk, hnodup, hall⟩ := hknow
  obtain ⟨hv, he⟩ := hall v (by simp)
  have hframes : (c.procs t).frames = f :: (Proc.putArgs pages).frames := by rw [hp]; rfl
  have hf : f ∈ (c.procs t).frames := by simp [hframes]
  have hn := h.nodup t
  rw [hframes, List.nodup_cons] at hn
  rw [List.map_cons, List.nodup_cons] at hnodup
  refine h.act (.single (h.map_change true true hf ht hv he hd)) ⟨by simp [hp], by simp [hp]⟩
    (fun hc => Proc.noConfusion hc) (by simp [hp, Proc.making])
    (fun g hg => ?_) hn.2 ⟨ht, hk, hnodup.2, fun v' hv' => ?_⟩ fun u _ j _ _ hd' => ?_
  · have hmem : g ∈ (c.procs t).frames := by
      rw [hframes]
      exact List.mem_cons_of_mem f hg
    refine ⟨(if_neg ?_).trans ((congrFun (kernel_setEntry _ _ _ _) g).trans (h.held t g hmem)), .inl hmem⟩
    rintro rfl
    exact hn.1 hg
  · obtain ⟨hlt, hnone⟩ := hall v' (List.mem_cons_of_mem v hv')
    refine ⟨hlt, ?_⟩
    show (c.mem.setEntry (dirOf t v) (v % 1024) _).entry (dirOf t v') (v' % 1024) = .none
    rw [h.counts.tables.entry_setEntry hd, if_neg]
    · exact hnone
    · rintro ⟨hdir, hi⟩
      rw [place_inj hdir hi] at hv'
      exact hnodup.1 hv'
  · exact (congrFun (dir_setEntry _ _ _ _) _).trans hd'

theorem putArgDir (h : Inv c) {t v : Nat} {f g : Frame} {pages : List (Nat × Frame)}
    (hp : c.procs t = .putArgs ((v, f) :: pages)) (hd : c.mem.dir (dirOf t v) = none) (hg : c.mem.CanTake g) :
    Inv (c.goto t (.putArgs ((v, f) :: pages)) (((c.mem.take g).setKernel g false).setDir (dirOf t v) (some g))) := by
  have hknow := h.knows t
  rw [hp] at hknow
  obtain ⟨ht, hk, hnodup, hall⟩ := hknow
  have hn := h.nodup t
  rw [hp] at hn
  refine h.faultDir ht (by rw [hk]; exact (hall v (by simp)).1) hd hg ⟨by simp [hp], by simp [hp]⟩ Proc.noConfusion
    (by rw [hp]) (fun f' hf' => by rw [hp]; exact hf') hn ⟨ht, hk, hnodup, fun v' hv' => ?_⟩
  obtain ⟨hlt, hnone⟩ := hall v' hv'
  refine ⟨hlt, ?_⟩
  unfold Paging.at
  rw [h.counts.entry_newTable hg hd]
  exact hnone

/-- A page of the arguments is not used any more. -/
theorem dropArg (h : Inv c) {t : Nat} {f : Frame} {q : Proc} {s' : Paging}
    (hp : (c.procs t).frames = f :: q.frames) (hself : c.procs t ≠ .none ∧ c.procs t ≠ .child)
    (hmaking : q.making = (c.procs t).making) (hq : q ≠ .none) (hs : s' = c.mem ∨ s' = c.mem.release f)
    (hknows : ∀ s : Paging, s.entry = c.mem.entry → Knows s (c.tasks t) t q) : Inv (c.goto t q s') := by
  have hf : f ∈ (c.procs t).frames := by simp [hp]
  have hk := h.held t f hf
  have hn := h.nodup t
  rw [hp, List.nodup_cons] at hn
  have hmem : ∀ g ∈ q.frames, g ∈ (c.procs t).frames := by
    intro g hg
    rw [hp]
    exact List.mem_cons_of_mem f hg
  rcases hs with rfl | rfl
  · exact h.act .refl hself (fun hc => absurd hc hq) hmaking (fun g hg => ⟨h.held t g (hmem g hg), .inl (hmem g hg)⟩)
      hn.2 (hknows _ rfl) fun _ _ _ _ _ hd => hd
  · refine h.act (.single (.release hk hf)) hself (fun hc => absurd hc hq) hmaking
      (fun g hg => ⟨?_, .inl (hmem g hg)⟩) hn.2 (hknows _ (entry_freePage _ _)) fun u _ j _ _ hd => ?_
    · rw [Paging.release, kernel_freePage]
      refine (if_neg ?_).trans (h.held t g (hmem g hg))
      rintro rfl
      exact hn.1 hg
    · exact (congrFun (dir_freePage _ _) _).trans hd

theorem useLib (h : Inv c) {t : Nat} {lib : Option Nat} (ht : t ≠ 0) (hp : c.procs t = .user)
    (hk : (c.tasks t).tables = TASK_TABLES) :
    Inv ((c.goto t .user (c.mem.freePageTables (TASK_TABLES * t + LIBRARY_OFFSET / 1024) 1)).setTask t
      { c.tasks t with library := lib }) := by
  have hfree : Inv (c.goto t .user (c.mem.freePageTables (TASK_TABLES * t + LIBRARY_OFFSET / 1024) 1)) := by
    refine h.act (.single (clear_change ht (by decide))) ⟨by simp [hp], by simp [hp]⟩ (fun hc => Proc.noConfusion hc)
      (by simp [hp, Proc.making]) (fun _ hf => by simp [Proc.frames] at hf) List.nodup_nil trivial
      fun u _ j _ _ hd => ?_
    rw [dir_freePageTables, hd, ite_self]
  have huser : (c.goto t .user (c.mem.freePageTables (TASK_TABLES * t + LIBRARY_OFFSET / 1024) 1)).procs t = .user :=
    if_pos rfl
  refine hfree.setTask ht (by simp [hk]) (by simp [huser, Proc.making]) (by rw [huser]; trivial) fun j hj hlt => ?_
  have hj : (c.tasks t).tables ≤ j := hj
  omega

/-! ## Every step -/

/-- **Every step keeps the counts**, and what the tasks know. -/
theorem step (h : Inv c) {loads : Task → Nat → Page → Prop} {e : Event} {c' : Config} (hs : Step loads c e c') :
    Inv c' := by
  cases hs with
  | fault ht hp hv he =>
      exact h.go ⟨by simp [hp], by simp [hp]⟩ Proc.noConfusion (by simp [hp, Proc.making])
        (fun _ hf => by simp [Proc.frames] at hf) List.nodup_nil ⟨ht, hv, Entry.frame_none he⟩
  | @faultSwap t v n f hp he hf =>
      have hknow := h.knows t
      rw [hp] at hknow
      exact h.taken hf (.single (.read n hf)) rfl rfl ⟨by simp [hp], by simp [hp]⟩ Proc.noConfusion
        (by simp [hp, Proc.making]) (by simp [hp, Proc.frames]) ⟨hknow.1, hknow.2.1, (h.at_take hf t v).trans he⟩
  | @faultDir t v f hp hd hf =>
      have hknow := h.knows t
      rw [hp] at hknow
      obtain ⟨ht, hv, -⟩ := hknow
      refine h.faultDir ht hv hd hf ⟨by simp [hp], by simp [hp]⟩ Proc.noConfusion (by simp [hp, Proc.making])
        (fun _ hf => by simp [Proc.frames] at hf) List.nodup_nil ⟨ht, hv, ?_, ?_⟩
      · unfold Paging.at
        rw [h.counts.entry_newTable hf hd, entry_of_no_dir _ hd]
      · show (if _ = _ then some f else _) ≠ none
        rw [if_pos rfl]
        simp
  | @faultNone t v hp hd he =>
      have hknow := h.knows t
      rw [hp] at hknow
      exact h.go ⟨by simp [hp], by simp [hp]⟩ Proc.noConfusion (by simp [hp, Proc.making])
        (fun _ hf => by simp [Proc.frames] at hf) List.nodup_nil ⟨hknow.1, hknow.2.1, he, hd⟩
  | swapIn hp hq => exact h.swapIn hp
  | empty hp hfile hf => exact h.empty hp hf (.inl rfl)
  | load hp hfile hf => exact h.empty hp hf (.inr rfl)
  | loaded hp hl => exact h.loaded _ hp
  | put hp hm hd => exact h.put hp
  | @putDir t v f g hp hm hd hg =>
      have hknow := h.knows t
      rw [hp] at hknow
      exact absurd hd hknow.2.2.2
  | putFail hp hno => exact h.putFail hp
  | share hp hfile hother hhas hs hd => exact h.share hp hother.2.1 hs
  | @shareDir t v p ino f g hp hfile hother hhas hs hd hg =>
      have hknow := h.knows t
      rw [hp] at hknow
      exact absurd hd hknow.2.2.2
  | @shareLate t v p f hp =>
      have hknow := h.knows t
      rw [hp] at hknow
      exact hknow.elim
  | wpFault ht hp hv he =>
      exact h.go ⟨by simp [hp], by simp [hp]⟩ Proc.noConfusion (by simp [hp, Proc.making])
        (fun _ hf => by simp [Proc.frames] at hf) List.nodup_nil ht
  | writeVerify ht hp he =>
      exact h.go ⟨by simp [hp], by simp [hp]⟩ Proc.noConfusion (by simp [hp, Proc.making])
        (fun _ hf => by simp [Proc.frames] at hf) List.nodup_nil ht
  | verified ht hp hv he => exact h.setVerified _ _
  | @unWpGone t v new ver hp he =>
      refine h.unWpDone hp .refl rfl fun g hg => ?_
      have hmem : g ∈ (c.procs t).frames := by simp [hp, Proc.frames, hg]
      exact ⟨hmem, h.held t g hmem⟩
  | unWpAlone hp he hf hm => exact h.unWpAlone hp he hf hm
  | unWpTake hp he hf hg => exact h.unWpTake hp hg
  | unWpCopy hp he hf => exact h.unWpCopy hp he
  | fork hp hn hn0 hfree => exact ((h.fork hp hn hn0 hfree).setVerified _ _).setVerified _ _
  | @forkSkip t n k hp hk hd =>
      have hblank := h.knows t
      rw [hp] at hblank
      have hblank : Blank c.mem n k none := hblank
      exact h.forkSkip hp fun j' hle hlt => hblank j' (by omega) hlt
  | forkTable hp hk hd hf => exact h.forkTable hp hk hf
  | forkNone hp hi he => exact h.forkNone hp
  | forkPage hp hi he => exact h.forkPage hp hi he
  | forkSwap hp hi he hf => exact h.forkSwap hp hi he hf
  | forkSwapped hp hq => exact h.forkSwapped hp
  | @forkNext t n k i hp hi =>
      have hknow := h.knows t
      rw [hp] at hknow
      refine h.go ⟨by simp [hp], by simp [hp]⟩ Proc.noConfusion (by simp [hp, Proc.making])
        (fun _ hf => by simp [Proc.frames] at hf) List.nodup_nil fun j' hle hlt => ?_
      exact hknow.2.2.2 j' (by omega) hlt
  | @forkDone t n k hp hk =>
      exact h.finish (n := n) (by simp [hp, Proc.making]) (by simp [hp, Proc.frames]) .refl (fun _ hd => hd) (.inl rfl)
  | forkFail hp => exact h.forkFail hp
  | exit ht hp => exact (h.exit ht hp).setVerified _ _
  | exec ht hp =>
      have hgo := h.go (q := .args []) ⟨by simp [hp], by simp [hp]⟩ Proc.noConfusion (by simp [hp, Proc.making])
        (fun _ hf => by simp [Proc.frames] at hf) List.nodup_nil ⟨ht, List.nodup_nil, fun _ hv => by simp at hv⟩
      exact hgo.setVerified _ _
  | @argsTake t v f pages hp hv hnew hf =>
      have hknow := h.knows t
      rw [hp] at hknow
      obtain ⟨ht, hnodup, hrange⟩ := hknow
      refine h.taken hf (.single (.take hf)) rfl rfl ⟨by simp [hp], by simp [hp]⟩ Proc.noConfusion
        (by simp [hp, Proc.making]) (by simp [hp, Proc.frames]) ⟨ht, List.nodup_cons.mpr ⟨hnew, hnodup⟩, ?_⟩
      intro x hx
      rcases List.mem_cons.mp hx with rfl | hx
      · exact hv
      · exact hrange x hx
  | @argsFree t v f pages hp =>
      have hknow := h.knows t
      rw [hp] at hknow
      obtain ⟨ht, hnodup, hrange⟩ := hknow
      rw [List.map_cons, List.nodup_cons] at hnodup
      exact h.dropArg (q := .args pages) (by rw [hp]; rfl) ⟨by simp [hp], by simp [hp]⟩ (by rw [hp]; rfl)
        Proc.noConfusion (.inr rfl) fun s _ => ⟨ht, hnodup.2, fun x hx => hrange x (List.mem_cons_of_mem v hx)⟩
  | argsFail hp =>
      exact h.go ⟨by simp [hp], by simp [hp]⟩ Proc.noConfusion (by simp [hp, Proc.making])
        (fun _ hf => by simp [Proc.frames] at hf) List.nodup_nil trivial
  | @argsInode t pages ino hp =>
      have hknow := h.knows t
      rw [hp] at hknow
      refine h.setTask hknow.1 (h.tables t) (by simp [hp, Proc.making]) ?_ (h.beyond t hknow.1)
      rw [hp]
      exact hknow
  | argsDone k hp hk => exact h.argsDone hp hk
  | putArg hp hd => exact h.putArg hp hd
  | putArgDir hp hd hg => exact h.putArgDir hp hd hg
  | @putArgFail t v f pages hp hd =>
      have hknow := h.knows t
      rw [hp] at hknow
      obtain ⟨ht, hk, hnodup, hall⟩ := hknow
      rw [List.map_cons, List.nodup_cons] at hnodup
      refine h.dropArg (q := .putArgs pages) (by rw [hp]; rfl) ⟨by simp [hp], by simp [hp]⟩ (by rw [hp]; rfl)
        Proc.noConfusion (.inl rfl) fun s hs => ⟨ht, hk, hnodup.2, fun x hx => ?_⟩
      unfold Paging.at
      rw [hs]
      exact hall x (List.mem_cons_of_mem v hx)
  | execDone hp =>
      exact h.go ⟨by simp [hp], by simp [hp]⟩ Proc.noConfusion (by simp [hp, Proc.making])
        (fun _ hf => by simp [Proc.frames] at hf) List.nodup_nil trivial
  | useLib lib ht hp hk => exact (h.useLib ht hp hk).setVerified _ _
  | swapOut hd hi hs => exact h.env (S := fun _ _ _ => False) (K := fun _ => False) (.swapOut hd hs) fun _ hf => hf.elim
  | complete hs => exact h.env (S := fun _ _ _ => False) (K := fun _ => False) (.complete hs) fun _ hf => hf.elim
  | kernelTake hf => exact h.env (S := fun _ _ _ => False) (K := fun _ => False) (.take hf) fun _ hf => hf.elim
  | @kernelFree f hf hidle =>
      refine h.env (S := fun _ _ _ => False) (K := (· = f)) (.release hf rfl) ?_
      rintro g rfl t
      exact hidle.1 t
  | @store t v o f d b ht hp hv ho he =>
      exact h.env (S := fun _ _ _ => False) (K := fun _ => False) (.store o b (dirOf_ge ht) he) fun _ hf => hf.elim
  | @kstore t v o f rw d b ht hp hv ho hver he =>
      exact h.env (S := fun _ _ _ => False) (K := fun _ => False) (.store o b (dirOf_ge ht) he) fun _ hf => hf.elim
  | leave hp => exact h.setVerified _ _

end Inv

theorem unWpDone_none (c : Config) (t v : Nat) (ver : Bool) (s : Paging) : (c.unWpDone t v none ver s).mem = s := by
  unfold Config.unWpDone
  cases ver <;> rfl

theorem unWpDone_some (c : Config) (t v : Nat) (g : Frame) (ver : Bool) (s : Paging) :
    (c.unWpDone t v (some g) ver s).mem = s.release g := by
  unfold Config.unWpDone
  cases ver <;> rfl

/-- **What a step does to the memory** is made of changes. -/
theorem Step.changes {loads : Task → Nat → Page → Prop} {c c' : Config} {e : Event} (h : Inv c)
    (hs : Step loads c e c') : ∃ U K, ReflTransGen (Change U K (c.shares e)) c.mem c'.mem := by
  have hframe : ∀ {t f}, f ∈ (c.procs t).frames → c.mem.kernel f := fun hf => h.held _ _ hf
  have hsame : ∃ U K, ReflTransGen (Change U K (c.shares e)) c.mem c.mem := ⟨fun _ => False, fun _ => False, .refl⟩
  have hrelease : ∀ {f}, c.mem.kernel f → ∃ U K, ReflTransGen (Change U K (c.shares e)) c.mem (c.mem.release f) :=
    fun hk => ⟨fun _ => False, fun _ => True, .single (.release hk trivial)⟩
  have htake : ∀ {f}, c.mem.CanTake f → ∃ U K, ReflTransGen (Change U K (c.shares e)) c.mem (c.mem.take f) :=
    fun hf => ⟨fun _ => False, fun _ => True, .single (.take hf)⟩
  cases hs with
  | fault ht hp hv he => exact hsame
  | faultSwap hp he hf => exact ⟨fun _ => False, fun _ => False, .single (.read _ hf)⟩
  | @faultDir t v f hp hd hf =>
      have hknow := h.knows t
      rw [hp] at hknow
      exact ⟨_, _, .single (h.faultDir_change hknow.1 hknow.2.1 hd hf (by simp [hp]))⟩
  | faultNone hp hd he => exact hsame
  | swapIn hp hq => exact ⟨_, _, .single (h.swapIn_change hp)⟩
  | empty hp hfile hf => exact htake hf
  | load hp hfile hf => exact htake hf
  | loaded hp hl =>
      exact ⟨fun _ => False, fun _ => True,
        .single (.fill _ (hframe (by rw [hp]; simp [Proc.frames])) trivial)⟩
  | put hp hm hd => exact ⟨_, _, .single (h.put_change hp)⟩
  | @putDir t v f g hp hm hd hg =>
      have hknow := h.knows t
      rw [hp] at hknow
      exact absurd hd hknow.2.2.2
  | putFail hp hno => exact hrelease (hframe (by rw [hp]; simp [Proc.frames]))
  | @share t v p ino f hp hfile hother hhas hs hd =>
      have hknow := h.knows t
      rw [hp] at hknow
      exact ⟨_, _, .single (h.share_change hp hother.2.1 hs (.inl ⟨t, v, p, rfl, h.range hknow.2.1, rfl, rfl, rfl⟩))⟩
  | @shareDir t v p ino f g hp hfile hother hhas hs hd hg =>
      have hknow := h.knows t
      rw [hp] at hknow
      exact absurd hd hknow.2.2.2
  | @shareLate t v p f hp =>
      have hknow := h.knows t
      rw [hp] at hknow
      exact hknow.elim
  | wpFault ht hp hv he => exact hsame
  | writeVerify ht hp he => exact hsame
  | verified ht hp hv he => exact hsame
  | @unWpGone t v new ver hp he =>
      cases new with
      | none =>
          rw [unWpDone_none]
          exact hsame
      | some g =>
          rw [unWpDone_some]
          exact hrelease (hframe (by rw [hp]; simp [Proc.frames]))
  | @unWpAlone t v new ver rw d f hp he hf hm =>
      have hflags : Change (fun _ => False) (fun _ => True) (c.shares .quiet) c.mem
          (c.mem.setAt t v (.page f true d)) :=
        .flags true d (dirOf_ge (h.unWp_ne hp)) he fun _ => ⟨hf, hm⟩
      cases new with
      | none =>
          rw [unWpDone_none]
          exact ⟨_, _, .single hflags⟩
      | some g =>
          rw [unWpDone_some]
          have hk : c.mem.kernel g := hframe (by rw [hp]; simp [Proc.frames])
          refine ⟨_, _, (ReflTransGen.single hflags).tail (.release ?_ trivial)⟩
          unfold Paging.setAt
          rw [kernel_setEntry]
          exact hk
  | unWpTake hp he hf hg => exact htake hg
  | unWpCopy hp he hf =>
      rw [unWpDone_none]
      exact ⟨_, _, .single (h.unWpCopy_change hp he)⟩
  | fork hp hn hn0 hfree => exact hsame
  | forkSkip hp hk hd => exact hsame
  | forkTable hp hk hd hf => exact ⟨_, _, .single (h.forkTable_change hp hk hf)⟩
  | forkNone hp hi he => exact hsame
  | @forkPage t n k i f rw d hp hi he =>
      have hknow := h.knows t
      rw [hp] at hknow
      have hk16 : k < TASK_TABLES := hknow.1.trans_le (h.tables t)
      exact ⟨_, _, .single (h.forkPage_change hp hi he
        (.inr ⟨t, n, by simp [hp, Proc.making], table_div hk16, table_div hk16⟩))⟩
  | forkSwap hp hi he hf => exact ⟨fun _ => False, fun _ => False, .single (.read _ hf)⟩
  | forkSwapped hp hq => exact ⟨_, _, .single (h.forkSwapped_change hp)⟩
  | forkNext hp hi => exact hsame
  | forkDone hp hk => exact hsame
  | forkFail hp => exact ⟨_, _, .single (h.forkFail_change hp)⟩
  | exit ht hp => exact ⟨_, _, .single (Inv.clear_change (d := 0) ht (by simpa using h.tables _))⟩
  | exec ht hp => exact hsame
  | argsTake hp hv hnew hf => exact htake hf
  | argsFree hp => exact hrelease (hframe (by rw [hp]; simp [Proc.frames]))
  | argsFail hp => exact hsame
  | argsInode ino hp => exact hsame
  | @argsDone t pages k hp hk =>
      have hknow := h.knows t
      rw [hp] at hknow
      exact ⟨_, _, .single (Inv.clear_change (d := 0) hknow.1 (by simpa using h.tables t))⟩
  | @putArg t v f pages hp hd =>
      have hknow := h.knows t
      rw [hp] at hknow
      obtain ⟨ht, -, -, hall⟩ := hknow
      obtain ⟨hv, he⟩ := hall v (by simp)
      exact ⟨_, _, .single (h.map_change true true (by rw [hp]; simp [Proc.frames]) ht hv he hd)⟩
  | @putArgDir t v f g pages hp hd hg =>
      have hknow := h.knows t
      rw [hp] at hknow
      obtain ⟨ht, hk, -, hall⟩ := hknow
      exact ⟨_, _, .single (h.faultDir_change ht (by rw [hk]; exact (hall v (by simp)).1) hd hg (by simp [hp]))⟩
  | putArgFail hp hd => exact hsame
  | execDone hp => exact hsame
  | useLib lib ht hp hk => exact ⟨_, _, .single (Inv.clear_change ht (by decide))⟩
  | swapOut hd hi hs => exact ⟨fun _ => False, fun _ => False, .single (.swapOut hd hs)⟩
  | complete hs => exact ⟨fun _ => False, fun _ => False, .single (.complete hs)⟩
  | kernelTake hf => exact htake hf
  | kernelFree hf hidle => exact hrelease hf
  | store b ht hp hv ho he => exact ⟨fun _ => False, fun _ => False, .single (.store _ b (dirOf_ge ht) he)⟩
  | kstore b ht hp hv ho hver he => exact ⟨fun _ => False, fun _ => False, .single (.store _ b (dirOf_ge ht) he)⟩
  | leave hp => exact hsame

end Vm
end Mm
end Linux095
