import Linux095.Mm.DoNoPage
import Linux095.Mm.KernelStores

/-!
# `Mm.DemandLoad` — the pages of a program (`do_no_page`, `share_page`)

A page of a program is read from its file, or it is the page of another task that runs the same file. `share_page` asks
for the `executable` of that task, and `do_execve` sets it before it frees the pages of the old program.

* `Tracked` — a run, with the pages that have been written and the program that the pages of a task are from;
* `Step.clean` — where a clean page comes from;
* `Track` — **a clean page that has not been written holds what the file has there**;
* `Served` — what `do_no_page` should do;
* `demand_loaded` — **that it does so**, unless a page is shared with a task between the two steps of its `do_execve`;
* `old_program_shared` — a run in which one is.
-/

namespace Linux095
namespace Mm
namespace Vm

open Linux095.Count Relation

/-! ## Where a clean page comes from -/

section Clean

variable {loads : Task → Nat → Page → Prop} {c c' : Config} {e : Event}

/-- Page `f` is in the entry for page `v` of task `t`, and is clean. -/
def Clean (c : Config) (t v : Nat) (f : Frame) : Prop := ∃ rw, c.mem.at t v = .page f rw false

/-- Where a clean page comes from in a step. -/
inductive Origin (c c' : Config) (e : Event) (t v : Nat) (f : Frame) : Prop
  | kept (h : Clean c t v f)
  | put (hp : c.procs t = .put v f)
  | shared (p : Nat) (he : e = .shared t v p) (hp : c.procs t = .noPage v) (hp0 : p ≠ 0) (h : Clean c p v f)
  | forked (u : Nat) (hm : (c.procs u).making = some t) (h : Clean c u v f)
  | copied (u w : Nat) (ver : Bool) (g : Frame) (hp : c.procs u = .unWp w (some f) ver) (hw : Clean c u w g)
      (h : Clean c t v g) (hd : c'.mem.data f = c.mem.data g)

/-- No entry gets a clean page. -/
def Keeps (s s' : Paging) : Prop :=
  ∀ d i f rw, TASK_TABLES ≤ d → s'.entry d i = .page f rw false → ∃ rw₀, s.entry d i = .page f rw₀ false

theorem Keeps.of_entry {s s' : Paging} (h : s'.entry = s.entry) : Keeps s s' := by
  intro d i f rw _ he
  rw [h] at he
  exact ⟨rw, he⟩

theorem Keeps.of_fewer {s s' : Paging} (h : Fewer s s') : Keeps s s' := fun d i f rw _ he => ⟨rw, h.entry d i f rw _ he⟩

theorem Keeps.trans {s s' s'' : Paging} (h : Keeps s s') (h' : Keeps s' s'') : Keeps s s'' := by
  intro d i f rw hd he
  obtain ⟨rw', he'⟩ := h' d i f rw hd he
  exact h d i f rw' hd he'

/-- An entry that gets another page gets none that is clean. -/
theorem Keeps.setEntry {s : Paging} (h : Tables s) {d i : Nat} {e : Entry} (hd : s.dir d ≠ none)
    (hclean : ∀ f rw, e = .page f rw false → ∃ rw₀, s.entry d i = .page f rw₀ false) : Keeps s (s.setEntry d i e) := by
  intro d' i' f rw _ he
  rw [h.entry_setEntry hd] at he
  split at he
  · rename_i hc
    obtain ⟨rfl, rfl⟩ := hc
    exact hclean f rw he
  · exact ⟨rw, he⟩

theorem Keeps.release (s : Paging) (f : Frame) : Keeps s (s.release f) :=
  .of_entry (entry_freePage (s.setKernel f false) f)

theorem Keeps.freePageTables {s : Paging} (h : Counts s) {d : Nat} (n : Nat) (hd : TASK_TABLES ≤ d) :
    Keeps s (s.freePageTables d n) := .of_fewer (.freePageTables h n hd)

theorem Keeps.setAt_dirty {s : Paging} (h : Tables s) {t v : Nat} (f : Frame) (rw : Bool)
    (hd : s.dir (dirOf t v) ≠ none) :
    Keeps s (s.setAt t v (.page f rw true)) := .setEntry h hd fun g rw' he => by cases he

/-- `get_free_page` for a page table. -/
theorem Keeps.newTable {s : Paging} (h : Counts s) {d : Nat} {f : Frame} (hf : s.CanTake f) (hd : s.dir d = none) :
    Keeps s (((s.take f).setKernel f false).setDir d (some f)) := .of_entry (h.entry_newTable hf hd)

/-- What an entry says when another one is set. -/
theorem at_setAt {s : Paging} (h : Tables s) {t v t' v' : Nat} {e : Entry} (hv : v < 1024 * TASK_TABLES)
    (hv' : v' < 1024 * TASK_TABLES) (hd : s.dir (dirOf t' v') ≠ none) :
    (s.setAt t' v' e).at t v = if t = t' ∧ v = v' then e else s.at t v := by
  have hplace : (dirOf t v = dirOf t' v' ∧ v % 1024 = v' % 1024) ↔ (t = t' ∧ v = v') := by
    constructor
    · rintro ⟨hdir, hi⟩
      have ht : t = t' := by rw [← dirOf_div (t := t) hv, hdir, dirOf_div hv']
      subst ht
      exact ⟨rfl, place_inj hdir hi⟩
    · rintro ⟨rfl, rfl⟩
      exact ⟨rfl, rfl⟩
  refine (h.entry_setEntry hd _ _ _ _).trans ?_
  simp only [hplace]
  rfl

/-- What `try_to_share` finds is clean. -/
theorem sharable_spec {s : Paging} {p v : Nat} {f : Frame} (hs : s.sharable p v = some f) :
    ∃ rw, s.at p v = .page f rw false := by
  unfold Paging.sharable at hs
  split at hs
  · rename_i g rw hg
    split at hs
    · cases hs
    · obtain rfl := Option.some.inj hs
      exact ⟨rw, hg⟩
  · cases hs

/-- What an entry says when a page is shared. -/
theorem at_shareWith {s : Paging} (h : Counts s) {t u p v w : Nat} {g : Frame} {rw : Bool} (hp : p ≠ 0)
    (hfrom : s.at p w = .page g rw false) (hd : s.dir (dirOf u w) ≠ none) (hv : v < 1024 * TASK_TABLES)
    (hw : w < 1024 * TASK_TABLES) :
    (s.shareWith u p w g).at t v = if (t = u ∨ t = p) ∧ v = w then .page g false false else s.at t v := by
  have hflags : Counts (s.setAt p w (.page g false false)) := h.setFlags false false (dirOf_ge hp) hfrom
  have hd' : (s.setAt p w (.page g false false)).dir (dirOf u w) ≠ none := by
    unfold Paging.setAt
    rw [dir_setEntry]
    exact hd
  have hshare : (s.shareWith u p w g).at t v =
      ((s.setAt p w (.page g false false)).setAt u w (.page g false false)).at t v := by
    unfold Paging.shareWith
    rw [hfrom]
    rfl
  rw [hshare, at_setAt hflags.tables hv hw hd', at_setAt h.tables hv hw (dir_of_page hfrom)]
  by_cases hvw : v = w
  · by_cases hu : t = u
    · rw [if_pos ⟨hu, hvw⟩, if_pos ⟨.inl hu, hvw⟩]
    · rw [if_neg fun hc => hu hc.1]
      simp only [hu, false_or]
  · rw [if_neg fun hc => hvw hc.2, if_neg fun hc => hvw hc.2, if_neg fun hc => hvw hc.2]

/-- **Where a clean page comes from.** -/
theorem Step.clean (h : Inv c) (hs : Step loads c e c') {t v : Nat} {f : Frame} (ht : t ≠ 0)
    (hv : v < 1024 * TASK_TABLES) (hclean : Clean c' t v f) : Origin c c' e t v f := by
  have hcounts := h.counts
  have hkeeps : Keeps c.mem c'.mem → Origin c c' e t v f := by
    intro hk
    obtain ⟨rw, he⟩ := hclean
    exact .kept (hk _ _ f rw (dirOf_ge ht) he)
  have hsame : c'.mem.entry = c.mem.entry → Origin c c' e t v f := fun hentry => hkeeps (.of_entry hentry)
  have hknow := fun t => h.knows t
  cases hs with
  | fault | faultNone | wpFault | writeVerify | verified | fork | forkSkip | forkNone | forkNext | forkDone | exec |
      argsFail
  | argsInode | putArgFail | execDone | leave | loaded => exact hsame rfl
  | faultSwap _ _ hf | empty _ _ hf | load _ _ hf | unWpTake _ _ _ hf | forkSwap _ _ _ hf | argsTake _ _ _ hf
  | kernelTake hf => exact hsame (hcounts.entry_take hf)
  | faultDir _ hd hf | putDir _ _ hd hf | shareDir _ _ _ _ _ hd hf | putArgDir _ hd hf =>
      exact hkeeps (.newTable hcounts hf hd)
  | @forkTable u n k g hp hk hd hf =>
      have hblank := hknow u
      rw [hp] at hblank
      exact hkeeps (.newTable hcounts hf (hblank k (Nat.le_refl k) (hk.trans_le (h.tables u))))
  | @swapIn u w n g hp hq =>
      have hswap := hknow u
      rw [hp] at hswap
      have hd : (c.mem.swapFree n).dir (dirOf u w) ≠ none := by
        rw [dir_swapFree]
        exact dir_ne_none (by
          have hat : c.mem.entry (dirOf u w) (w % 1024) = .swap n := hswap.2.2
          rw [hat]
          exact Entry.noConfusion)
      exact hkeeps ((Keeps.of_entry (entry_swapFree _ _)).trans (.setAt_dirty (hcounts.swapFree n).tables g true hd))
  | putFail | argsFree | kernelFree => exact hkeeps (.release _ _)
  | @put u w g hp hm hd =>
      have hload := hknow u
      rw [hp] at hload
      obtain ⟨rw, hclean⟩ := hclean
      have hpage : (c.mem.setAt u w (.page g true false)).at t v = .page f rw false := hclean
      rw [at_setAt hcounts.tables hv (h.range hload.2.1) hd] at hpage
      split at hpage
      · rename_i hc
        obtain ⟨rfl, rfl⟩ := hc
        obtain ⟨rfl, -⟩ := Entry.page.inj hpage
        exact .put hp
      · exact .kept ⟨rw, hpage⟩
  | @share u w p ino g hp hfile hother hhas hs hd =>
      have hload := hknow u
      rw [hp] at hload
      have hw := h.range hload.2.1
      obtain ⟨rw₀, hfrom⟩ := sharable_spec hs
      obtain ⟨rw, hclean⟩ := hclean
      have hpage : (c.mem.shareWith u p w g).at t v = .page f rw false := hclean
      rw [at_shareWith hcounts hother.2.1 hfrom hd hv hw] at hpage
      split at hpage
      · obtain ⟨rfl, -⟩ := Entry.page.inj hpage
        rename_i hc
        obtain ⟨rfl | rfl, rfl⟩ := hc
        · exact .shared p rfl hp hother.2.1 ⟨rw₀, hfrom⟩
        · exact .kept ⟨rw₀, hfrom⟩
      · exact .kept ⟨rw, hpage⟩
  | @shareLate u w p g hp =>
      have hnever := hknow u
      rw [hp] at hnever
      exact hnever.elim
  | @unWpGone u w new ver hp he =>
      cases new with
      | none => exact hsame (congrArg Paging.entry (unWpDone_none _ _ _ _ _))
      | some g =>
          refine hkeeps ?_
          rw [unWpDone_some]
          exact .release _ _
  | @unWpAlone u w new ver rw d g hp he hf hm =>
      refine hkeeps ?_
      have hset : Keeps c.mem (c.mem.setAt u w (.page g true d)) := by
        refine .setEntry hcounts.tables (dir_of_page he) fun x rw' hx => ?_
        obtain ⟨rfl, -, rfl⟩ := Entry.page.inj hx
        exact ⟨rw, he⟩
      exact hset.trans (.of_entry (entry_unWpDone _ _ _ _ _ _))
  | @unWpCopy u w ver rw d g g' hp he hf =>
      obtain ⟨rw', hclean⟩ := hclean
      have hentry : ((c.mem.setData g' (c.mem.data g)).setAt u w (.page g' true d)).at t v = .page f rw' false := by
        rw [← hclean]
        unfold Paging.at
        rw [entry_unWpDone, entry_freePage]
        rfl
      have hset := (hcounts.setData g' (c.mem.data g)).tables.entry_setEntry (dir_of_page he) (w % 1024)
        (.page g' true d) (dirOf t v) (v % 1024)
      have hpage := hset.symm.trans hentry
      split at hpage
      · -- the place may be another task's: `verify_area` does not ask for the limit
        rename_i hplace
        obtain ⟨rfl, -, rfl⟩ := Entry.page.inj hpage
        have hat : c.mem.at t v = .page g rw false := by
          unfold Paging.at
          rw [hplace.1, hplace.2]
          exact he
        refine .copied u w ver g hp ⟨rw, he⟩ ⟨rw, hat⟩ ?_
        rw [data_unWpDone, data_freePage]
        exact (congrFun (data_setAt _ _ _ _) g').trans (if_pos rfl)
      · exact .kept ⟨rw', hpage⟩
  | @forkPage u n k i g rw d hp hi he =>
      have hmake : (c.procs u).making = some n := by rw [hp]; rfl
      have hblank := hknow u
      rw [hp] at hblank
      obtain ⟨hk, hd, -, -⟩ := hblank
      obtain ⟨hn0, hnu⟩ := h.child_ne hmake
      have hk16 : k < TASK_TABLES := hk.trans_le (h.tables u)
      obtain ⟨rw', hclean⟩ := hclean
      have hnt : TASK_TABLES * n + k ≠ TASK_TABLES * u + k := Inv.tables_ne hnu
      have hset := hcounts.tables.entry_setEntry hd i (.page g false d)
      -- the entry of the child is that of the parent
      have hchild : dirOf t v = TASK_TABLES * n + k ∧ v % 1024 = i → Entry.page g false d = .page f rw' false →
          (c.procs u).making = some t ∧ Clean c u v f := by
        rintro ⟨hdir, hi'⟩ hpage
        obtain ⟨rfl, -, rfl⟩ := Entry.page.inj hpage
        have htn : t = n := by rw [← dirOf_div (t := t) hv, hdir, table_div hk16]
        have hdir' : dirOf u v = TASK_TABLES * u + k := by
          unfold dirOf at hdir ⊢
          rw [htn] at hdir
          omega
        refine ⟨by rw [hmake, htn], rw, ?_⟩
        unfold Paging.at
        rw [hdir', hi']
        exact he
      by_cases hlow : g < LOW_MEM
      · simp only [if_pos hlow] at hclean
        have hpage := (hset (dirOf t v) (v % 1024)).symm.trans hclean
        split at hpage
        · obtain ⟨hm, hfrom⟩ := hchild ‹_› hpage
          exact .forked u hm hfrom
        · exact .kept ⟨rw', hpage⟩
      · simp only [if_neg hlow] at hclean
        have hpage : ((c.mem.setEntry (TASK_TABLES * n + k) i (.page g false d)).setEntry (TASK_TABLES * u + k) i
            (.page g false d)).at t v = .page f rw' false := hclean
        rw [setEntry_comm hcounts.tables hnt] at hpage
        have hflags := hcounts.setFlags false d (table_ge (h.fork_managed hk hi he hlow).1) he
        have hboth := hflags.tables.entry_setEntry (by rw [dir_setEntry]; exact hd) i (.page g false d)
        have hpage := (hboth (dirOf t v) (v % 1024)).symm.trans hpage
        split at hpage
        · obtain ⟨hm, hfrom⟩ := hchild ‹_› hpage
          exact .forked u hm hfrom
        · have hparent : Keeps c.mem (c.mem.setEntry (TASK_TABLES * u + k) i (.page g false d)) := by
            refine .setEntry hcounts.tables (dir_of_page he) fun x rw' hx => ?_
            obtain ⟨rfl, -, rfl⟩ := Entry.page.inj hx
            exact ⟨rw, he⟩
          exact .kept (hparent _ _ f rw' (dirOf_ge ht) hpage)
  | @forkSwapped u n k i m g hp hq =>
      have hmove := hknow u
      rw [hp] at hmove
      obtain ⟨hu, hk, hi, ⟨hd, hhole, -⟩, he⟩ := hmove
      have hmake : (c.procs u).making = some n := by rw [hp]; rfl
      have hslot := hcounts.setSlot hd (table_ge (h.child_ne hmake).1) (hi.trans_le (Inv.copied_le u))
        (hhole i (Nat.le_refl i)) m
      have hfirst : Keeps c.mem (c.mem.setEntry (TASK_TABLES * n + k) i (.swap m)) :=
        .setEntry hcounts.tables hd fun x rw hx => Entry.noConfusion hx
      have hd' : (c.mem.setEntry (TASK_TABLES * n + k) i (.swap m)).dir (TASK_TABLES * u + k) ≠ none := by
        rw [dir_setEntry]
        exact dir_ne_none (by rw [he]; exact Entry.noConfusion)
      exact hkeeps (hfirst.trans (.setEntry hslot.tables hd' fun x rw hx => by cases hx))
  | @forkFail u n k i hp =>
      have hmake : (c.procs u).making = some n := by rw [hp]; rfl
      exact hkeeps (.freePageTables hcounts _ (table_ge (j := 0) (h.child_ne hmake).1))
  | @exit u hu hp => exact hkeeps (.freePageTables hcounts _ (table_ge (j := 0) hu))
  | @argsDone u pages k hp hk =>
      have hargs := hknow u
      rw [hp] at hargs
      exact hkeeps (.freePageTables hcounts _ (table_ge (j := 0) hargs.1))
  | @useLib u lib hu hp hk => exact hkeeps (.freePageTables hcounts _ (table_ge hu))
  | @putArg u w g pages hp hd => exact hkeeps (.setAt_dirty hcounts.tables g true hd)
  | @swapOut d i s hd hi hs =>
      obtain ⟨g, rw, b, he, -, ⟨-, n, -, rfl⟩ | rfl⟩ := swapOut_cases hs
      · have hfree : Counts (c.mem.setFree n false) := hcounts.congr rfl rfl rfl rfl rfl rfl rfl
        have hset : Keeps (c.mem.setFree n false) ((c.mem.setFree n false).setEntry d i (.swap n)) :=
          .setEntry hfree.tables (dir_of_page he) fun x rw hx => Entry.noConfusion hx
        exact hkeeps hset
      · have hset : Keeps c.mem (c.mem.setEntry d i .none) :=
          .setEntry hcounts.tables (dir_of_page he) fun x rw hx => Entry.noConfusion hx
        exact hkeeps (hset.trans (.of_entry (entry_freePage _ g)))
  | complete hs =>
      rcases complete_cases hs with ⟨n, g, q, -, rfl⟩ | ⟨n, g, q, hq, rfl⟩
      · exact hsame rfl
      · exact hsame rfl
  | @store u w o g d b hu hp hw ho he => exact hkeeps (.setAt_dirty hcounts.tables g true (dir_of_page he))
  | @kstore u w o g rw d b hu hp hw ho hver he => exact hkeeps (.setAt_dirty hcounts.tables g rw (dir_of_page he))

end Clean

/-! ## Where the tasks are -/

section Moves

variable {loads : Task → Nat → Page → Prop} {c c' : Config} {e : Event}

/-- Not in `do_execve`, where `executable` and the page tables may be those of two programs. -/
def Proc.runs : Proc → Bool
  | .none | .args _ => false
  | _ => true

/-- In `do_no_page` with a page that is being filled. -/
def Proc.fills : Proc → Bool
  | .load _ _ | .put _ _ => true
  | _ => false

/-- What a step is for task `u`. -/
inductive Moved (loads : Task → Nat → Page → Prop) (c c' : Config) (e : Event) (u : Nat) : Prop
  | same (hp : c'.procs u = c.procs u) (hk : c'.tasks u = c.tasks u)
  | gone (hu : u ≠ 0) (hp' : c'.procs u = .none)
  | args (pages : List (Nat × Frame)) (hu : u ≠ 0) (hp : (c.procs u).runs ∨ ∃ pages, c.procs u = .args pages)
      (hp' : c'.procs u = .args pages) (hk : (c'.tasks u).endData = (c.tasks u).endData)
  | go (hp : (c.procs u).runs) (hp' : (c'.procs u).fills = false) (halive : c'.procs u ≠ .none)
      (hk : c'.tasks u = c.tasks u)
  | load (v ino : Nat) (f : Frame) (hp : c.procs u = .noPage v) (hfile : (c.tasks u).file v = some ino)
      (hp' : c'.procs u = .load v f) (hk : c'.tasks u = c.tasks u)
  | empty (v : Nat) (f : Frame) (hp : c.procs u = .noPage v) (hfile : (c.tasks u).file v = none)
      (hp' : c'.procs u = .put v f) (hk : c'.tasks u = c.tasks u) (hd : c'.mem.data f = fun _ => 0)
  | loaded (v : Nat) (f : Frame) (hp : c.procs u = .load v f) (hl : loads (c.tasks u) v (c'.mem.data f))
      (hp' : c'.procs u = .put v f) (hk : c'.tasks u = c.tasks u)
  | cleared (he : e = .cleared u)
  | born (t : Nat) (hp : c.procs u = .none) (ht : c.procs t = .user) (hp' : c'.procs u = .child)
      (hk : c'.tasks u = c.tasks t)
  | failed (hp : c.procs u = .args []) (hp' : c'.procs u = .user) (hk : c'.tasks u = c.tasks u)

/-- **What a step is for a task.** -/
theorem Step.moved (h : Inv c) (hs : Step loads c e c') (u : Nat) : Moved loads c c' e u := by
  -- the task that goes on, and the others
  have hmove : ∀ {t : Nat} {q : Proc}, c'.procs u = (if u = t then q else c.procs u) → c'.tasks u = c.tasks u →
      (u = t → c'.procs u = q → Moved loads c c' e u) → Moved loads c c' e u := by
    intro t q hp hk hself
    by_cases hu : u = t
    · rw [if_pos hu] at hp
      exact hself hu hp
    · rw [if_neg hu] at hp
      exact .same hp hk
  have hgo : ∀ {t : Nat} {q : Proc}, (c.procs t).runs → q.fills = false ∧ q ≠ .none →
      c'.procs u = (if u = t then q else c.procs u) → c'.tasks u = c.tasks u → Moved loads c c' e u := by
    intro t q hruns hq hp hk
    refine hmove hp hk fun hu hpq => ?_
    subst hu
    exact .go hruns (by rw [hpq]; exact hq.1) (by rw [hpq]; exact hq.2) hk
  cases hs with
  | fault _ hp | faultSwap hp | faultDir hp | faultNone hp | swapIn hp | putFail hp | share hp
  | shareDir hp | shareLate hp | wpFault _ hp | writeVerify _ hp | unWpTake hp | forkSkip hp | forkTable hp
  | forkNone hp
  | forkPage hp | forkSwap hp | forkSwapped hp | forkNext hp | putArg hp | putArgDir hp | putArgFail hp | execDone hp
  | put hp => exact hgo (by rw [hp]; rfl) ⟨rfl, Proc.noConfusion⟩ rfl rfl
  | verified | swapOut | complete | kernelTake | kernelFree | store | kstore | leave => exact .same rfl rfl
  | @empty t v f hp hfile hf =>
      refine hmove (t := t) (q := .put v f) rfl rfl fun hu hpq => ?_
      subst hu
      exact .empty v f hp hfile hpq rfl (if_pos rfl)
  | @load t v ino f hp hfile hf =>
      refine hmove (t := t) (q := .load v f) rfl rfl fun hu hpq => ?_
      subst hu
      exact .load v ino f hp hfile hpq rfl
  | @loaded t v f pg hp hl =>
      refine hmove (t := t) (q := .put v f) rfl rfl fun hu hpq => ?_
      subst hu
      refine .loaded v f hp ?_ hpq rfl
      have hdata : (c.mem.setData f pg).data f = pg := if_pos rfl
      exact hdata.symm ▸ hl
  | @putDir t v f g hp =>
      refine hmove (t := t) (q := .put v f) rfl rfl fun hu hpq => ?_
      subst hu
      exact .same (hpq.trans hp.symm) rfl
  | @unWpGone t v new ver hp | @unWpAlone t v new ver rw d f hp | @unWpCopy t v ver rw d f g hp =>
      cases ver with
      | false => exact hgo (t := t) (q := .user) (by rw [hp]; rfl) ⟨rfl, Proc.noConfusion⟩ rfl rfl
      | true => exact hgo (t := t) (q := .user) (by rw [hp]; rfl) ⟨rfl, Proc.noConfusion⟩ rfl rfl
  | @fork t n hp hn hn0 hfree =>
      have hnt : n ≠ t := by
        rintro rfl
        rw [hp] at hfree
        cases hfree
      have hprocs : ∀ x, (((((c.setProc n .child).setTask n (c.tasks t)).setProc t (.fork n 0 none)).setVerified t
          fun _ => false).setVerified n fun _ => false).procs x =
          if x = t then .fork n 0 none else if x = n then .child else c.procs x := fun x => rfl
      have htasks : ∀ x, (((((c.setProc n .child).setTask n (c.tasks t)).setProc t (.fork n 0 none)).setVerified t
          fun _ => false).setVerified n fun _ => false).tasks x = if x = n then c.tasks t else c.tasks x := fun x => rfl
      by_cases hut : u = t
      · subst hut
        refine .go (by rw [hp]; rfl) ?_ ?_ ?_
        · rw [hprocs, if_pos rfl]
          rfl
        · rw [hprocs, if_pos rfl]
          exact Proc.noConfusion
        · rw [htasks, if_neg (Ne.symm hnt)]
      · by_cases hun : u = n
        · subst hun
          refine .born t hfree hp ?_ ?_
          · rw [hprocs, if_neg hut, if_pos rfl]
          · rw [htasks, if_pos rfl]
        · refine .same ?_ ?_
          · rw [hprocs, if_neg hut, if_neg hun]
          · rw [htasks, if_neg hun]
  | @forkDone t n k hp hk =>
      have hchild := (h.child t n (by rw [hp]; rfl)).1
      have hprocs : ∀ x, ((c.setProc t .user).setProc n .user).procs x =
          if x = n then .user else if x = t then .user else c.procs x := fun x => rfl
      by_cases hun : u = n
      · subst hun
        have hq : ((c.setProc t .user).setProc u .user).procs u = .user := if_pos rfl
        exact .go (by rw [hchild]; rfl) (by rw [hq]; rfl) (by rw [hq]; exact Proc.noConfusion) rfl
      · refine hgo (t := t) (q := .user) (by rw [hp]; rfl) ⟨rfl, Proc.noConfusion⟩ ?_ rfl
        rw [hprocs, if_neg hun]
  | @forkFail t n k i hp =>
      have hprocs : ∀ x, ((c.goto t .user (c.mem.freePageTables (TASK_TABLES * n) (c.tasks t).tables)).setProc n
          .none).procs x = if x = n then .none else if x = t then .user else c.procs x := fun x => rfl
      by_cases hun : u = n
      · exact .gone (by rw [hun]; exact (h.child_ne (by rw [hp]; rfl)).1) (by rw [hprocs, if_pos hun])
      · refine hgo (t := t) (q := .user) (by rw [hp]; cases i <;> rfl) ⟨rfl, Proc.noConfusion⟩ ?_ rfl
        rw [hprocs, if_neg hun]
  | @exit t ht hp => exact hmove (t := t) (q := .none) rfl rfl fun hu hpq => .gone (by rw [hu]; exact ht) hpq
  | @exec t ht hp =>
      refine hmove (t := t) (q := .args []) rfl rfl fun hu hpq => ?_
      subst hu
      exact .args [] ht (.inl (by rw [hp]; rfl)) hpq rfl
  | @argsTake t v f pages hp =>
      have hknow := h.knows t
      rw [hp] at hknow
      refine hmove (t := t) (q := .args ((v, f) :: pages)) rfl rfl fun hu hpq => ?_
      subst hu
      exact .args _ hknow.1 (.inr ⟨_, hp⟩) hpq rfl
  | @argsFree t v f pages hp =>
      have hknow := h.knows t
      rw [hp] at hknow
      refine hmove (t := t) (q := .args pages) rfl rfl fun hu hpq => ?_
      subst hu
      exact .args _ hknow.1 (.inr ⟨_, hp⟩) hpq rfl
  | @argsFail t hp =>
      refine hmove (t := t) (q := .user) rfl rfl fun hu hpq => ?_
      subst hu
      exact .failed hp hpq rfl
  | @argsInode t pages ino hp =>
      by_cases hu : u = t
      · subst hu
        have hknow := h.knows u
        rw [hp] at hknow
        have hk : (c.setTask u { c.tasks u with executable := some ino }).tasks u =
            { c.tasks u with executable := some ino } := if_pos rfl
        exact .args pages hknow.1 (.inr ⟨_, hp⟩) hp (by rw [hk])
      · exact .same rfl (if_neg hu)
  | @argsDone t pages k hp hk =>
      by_cases hu : u = t
      · subst hu
        exact .cleared rfl
      · exact .same (if_neg hu) (if_neg hu)
  | @useLib t lib ht hp hk =>
      by_cases hu : u = t
      · subst hu
        exact .cleared rfl
      · exact .same (if_neg hu) (if_neg hu)

theorem Proc.runs_of_canExit {q : Proc} (h : q.canExit) : q.runs ∧ q.making = Option.none ∧ q ≠ .child := by
  cases q with
  | user | oom | fault | noPage | unWp => exact ⟨rfl, rfl, Proc.noConfusion⟩
  | _ => cases h

/-- A task whose tables are cleared is not forking, and reads no page. -/
theorem Step.cleared (h : Inv c) {t : Nat} (hs : Step loads c (.cleared t) c') :
    t ≠ 0 ∧ (c.procs t).making = none ∧ c.procs t ≠ .child ∧ (c'.procs t).fills = false ∧
      (c'.procs t).making = none := by
  cases hs with
  | exit ht hp =>
      obtain ⟨-, hmake, hchild⟩ := Proc.runs_of_canExit hp
      have hq : ((c.goto t .none (c.mem.freePageTables (TASK_TABLES * t) (c.tasks t).tables)).setVerified t
          fun _ => false).procs t = .none := if_pos rfl
      rw [hq]
      exact ⟨ht, hmake, hchild, rfl, rfl⟩
  | @argsDone _ pages k hp hk =>
      have hknow := h.knows t
      rw [hp] at hknow
      have hq : ((c.goto t (.putArgs pages) (c.mem.freePageTables (TASK_TABLES * t) (c.tasks t).tables)).setTask t
          k).procs t = .putArgs pages := if_pos rfl
      rw [hq, hp]
      exact ⟨hknow.1, rfl, Proc.noConfusion, rfl, rfl⟩
  | useLib lib ht hp hk =>
      have hq : (((c.goto t .user (c.mem.freePageTables (TASK_TABLES * t + LIBRARY_OFFSET / 1024) 1)).setTask t
          { c.tasks t with library := lib }).setVerified t fun _ => false).procs t = .user := if_pos rfl
      rw [hq, hp]
      exact ⟨ht, rfl, Proc.noConfusion, rfl, rfl⟩

/-- A page is left after that only in a task that keeps its program. -/
theorem Step.cleared_clean (h : Inv c) {t v : Nat} {f : Frame} (hs : Step loads c (.cleared t) c')
    (hv : v < 1024 * TASK_TABLES) (hclean : Clean c' t v f) :
    (c'.tasks t).executable = (c.tasks t).executable ∧ (c.procs t).runs := by
  cases hs with
  | exit ht hp => exact ⟨rfl, (Proc.runs_of_canExit hp).1⟩
  | @argsDone _ pages k hp hk =>
      have hknow := h.knows t
      rw [hp] at hknow
      have hdir : (c.mem.freePageTables (TASK_TABLES * t) (c.tasks t).tables).dir (dirOf t v) = none := by
        have hj : v / 1024 < TASK_TABLES := by omega
        rw [dir_freePageTables]
        split
        · rfl
        · rename_i hout
          exact h.beyond t hknow.1 (v / 1024) (by unfold dirOf at hout; omega) hj
      obtain ⟨rw, he⟩ := hclean
      have he : (c.mem.freePageTables (TASK_TABLES * t) (c.tasks t).tables).at t v = .page f rw false := he
      unfold Paging.at at he
      rw [entry_of_no_dir _ hdir] at he
      cases he
  | useLib lib ht hp hk =>
      have hk : ((c.goto t .user (c.mem.freePageTables (TASK_TABLES * t + LIBRARY_OFFSET / 1024) 1)).setTask t
          { c.tasks t with library := lib }).tasks t = { c.tasks t with library := lib } := if_pos rfl
      have hexec := congrArg Task.executable hk
      exact ⟨hexec, by rw [hp]; rfl⟩

end Moves

/-! ## What is known of a page -/

/-- A run, with the pages whose contents have been written, and the program that the tables of a task are for. -/
structure Tracked where
  config : Config
  written : Frame → Prop
  program : Nat → Option Nat

/-- What is written stays written, also in a copy, until the page is free again; the tables of a task are for another
    program when they have been cleared, and those of a child for the program of its parent. -/
structure Tracked.Next (T : Tracked) (e : Event) (T' : Tracked) : Prop where
  written : ∀ f, T'.written f ↔ (∃ t, Stores T.config e t f) ∨
    (¬T.config.mem.CanTake f ∧ T.config.mem.kernel f = false ∧ T.written f) ∨
    ∃ u w ver g rw d, T.config.procs u = .unWp w (some f) ver ∧ T.config.mem.at u w = .page g rw d ∧ T.written g
  cleared : ∀ t, e = .cleared t ∨ T.config.procs t = .none → T'.program t = (T'.config.tasks t).executable
  others : ∀ t, e ≠ .cleared t → T.config.procs t ≠ .none → T'.program t = T.program t

/-- A step of such a run. `do_execve` takes `end_data` from the header of the file, and fails only before it has set
    `executable`. -/
structure Tracked.Step (W : Programs) (T : Tracked) (e : Event) (T' : Tracked) : Prop where
  step : Vm.Step W.Loads T.config e T'.config
  next : T.Next e T'
  header : ∀ t ino, e = .cleared t → (T'.config.tasks t).executable = some ino →
    (T'.config.tasks t).endData = W.endData ino
  early : ∀ t, T.config.procs t = .args [] → T'.config.procs t = .user →
    (T.config.tasks t).executable = T.program t

/-- `share_page` finds no task that is between the two steps of its `do_execve`. -/
def Tracked.Clear (T : Tracked) : Event → Prop
  | .shared t v p => v < LIBRARY_OFFSET → T.program p = (T.config.tasks t).executable
  | _ => True

/-- `executable` and `end_data` are those of the program. -/
def Matches (W : Programs) (k : Task) (prog : Option Nat) : Prop :=
  k.executable = prog ∧ ∀ ino, prog = some ino → k.endData = W.endData ino

/-- What is known of a task. -/
def Fine (W : Programs) (s : Paging) (k : Task) (prog : Option Nat) : Proc → Prop
  | .none => True
  | .args _ => ∀ ino, prog = some ino → k.endData = W.endData ino
  | .load v _ => Matches W k prog ∧ ∃ ino, k.file v = some ino
  | .put v f => Matches W k prog ∧ (v < LIBRARY_OFFSET → ∀ ino, prog = some ino → ∀ x < 4096,
      s.data f x = W.imageOf ino (W.endData ino) v x)
  | _ => Matches W k prog

/-- **What is known of the tasks and the pages.** -/
structure Track (ok : Nat → Prop) (W : Programs) (T : Tracked) : Prop where
  swaps : Swaps ok T.config
  fine : ∀ t, Fine W T.config.mem (T.config.tasks t) (T.program t) (T.config.procs t)
  first : T.config.procs 0 ≠ .none ∧ T.program 0 = none
  making : ∀ t n, (T.config.procs t).making = some n → T.program n = T.program t
  clean : ∀ t v f ino, t ≠ 0 → v < LIBRARY_OFFSET → T.program t = some ino → Clean T.config t v f → ¬T.written f →
    ∀ x < 4096, T.config.mem.data f x = W.imageOf ino (W.endData ino) v x

section Keep

variable {ok : Nat → Prop} {W : Programs} {T T' : Tracked} {e : Event}

theorem Fine.matches {s : Paging} {k : Task} {prog : Option Nat} {q : Proc} (h : Fine W s k prog q) (hq : q.runs) :
    Matches W k prog := by
  cases q with
  | none | args => cases hq
  | load | put => exact h.1
  | _ => exact h

theorem Fine.of_matches {s : Paging} {k : Task} {prog : Option Nat} {q : Proc} (h : Matches W k prog)
    (hq : q.fills = false) : Fine W s k prog q := by
  cases q with
  | none => trivial
  | args => exact h.2
  | load | put => cases hq
  | _ => exact h

/-- A page that a task maps is not free, and the kernel does not hold it. -/
theorem Clean.mapped {c : Config} (h : Inv c) {t v : Nat} {f : Frame} (ht : t ≠ 0) (hclean : Clean c t v f) :
    ¬c.mem.CanTake f ∧ c.mem.kernel f = false := by
  obtain ⟨rw, he⟩ := hclean
  constructor
  · rintro ⟨hmanaged, hzero⟩
    have hpos := h.counts.mapped (dirOf_ge ht) he (h.counts.tables.low.trans hmanaged.1)
    omega
  · cases hk : c.mem.kernel f with
    | false => rfl
    | true => exact absurd he (h.counts.kernel_not_entry hk (dirOf_ge ht))

/-- A task that maps a page is alive. -/
theorem Clean.alive {c : Config} (h : Inv c) {t v : Nat} {f : Frame} (ht : t ≠ 0) (hv : v < 1024 * TASK_TABLES)
    (hclean : Clean c t v f) : c.procs t ≠ .none := by
  intro hnone
  obtain ⟨rw, he⟩ := hclean
  have hdir : c.mem.dir (dirOf t v) = none := h.bare t ht hnone (v / 1024) (by omega)
  unfold Paging.at at he
  rw [entry_of_no_dir _ hdir] at he
  cases he

/-- **A page that a task maps changes only where something is stored.** -/
theorem Track.unchanged (h : Track ok W T) (hs : T.Step W e T') {t v : Nat} {f : Frame} (ht : t ≠ 0)
    (hclean : Clean T.config t v f) (hnot : ¬T'.written f) :
    T'.config.mem.data f = T.config.mem.data f ∧ ¬T.written f := by
  obtain ⟨hfree, hkernel⟩ := hclean.mapped h.swaps.inv ht
  refine ⟨?_, fun hold => hnot ((hs.next.written f).2 (.inr (.inl ⟨hfree, hkernel, hold⟩)))⟩
  have hheld : ∀ t, f ∉ (T.config.procs t).frames := by
    intro t hf
    have hk := h.swaps.inv.held t f hf
    rw [hkernel] at hk
    cases hk
  rcases hs.step.writes f with hsame | hcan | hstore | ⟨n, hread⟩ | ⟨u, w, hp⟩ | ⟨u, w, ver, hp⟩
  · exact hsame
  · exact absurd hcan hfree
  · exact absurd ((hs.next.written f).2 (.inl hstore)) hnot
  · have hk := h.swaps.frame_kernel hread
    rw [show (Req.read n f).frame = f from rfl, hkernel] at hk
    cases hk
  · exact absurd (by rw [hp]; exact List.mem_singleton_self f) (hheld u)
  · exact absurd (by rw [hp]; exact List.mem_singleton_self f) (hheld u)

/-- A page that waits for `put_page` does not change. -/
theorem Track.waits (h : Track ok W T) (hs : T.Step W e T') {t v : Nat} {f : Frame}
    (hp : T.config.procs t = .put v f) : T'.config.mem.data f = T.config.mem.data f := by
  have hinv := h.swaps.inv
  have hmem : f ∈ (T.config.procs t).frames := by
    rw [hp]
    exact List.mem_singleton_self f
  have hk := hinv.held t f hmem
  have hapart : ∀ u, f ∈ (T.config.procs u).frames → T.config.procs u = .put v f := by
    intro u hu
    rw [← hinv.apart t u f hmem hu]
    exact hp
  rcases hs.step.writes f with hsame | hcan | ⟨u, w, o, x, rw, b, hcase, hu, hw, he⟩ | ⟨n, hread⟩ | ⟨u, w, hq⟩ |
    ⟨u, w, ver, hq⟩
  · exact hsame
  · have hone := hinv.counts.kernelOne f hk
    have hzero := hcan.2
    omega
  · exact absurd he (hinv.counts.kernel_not_entry hk (dirOf_ge hu))
  · obtain ⟨u, hu⟩ := h.swaps.content.reads n f hread
    have hq := hapart u (by rw [Proc.frames_of_reading hu]; exact List.mem_singleton_self f)
    rw [hq] at hu
    cases hu
  · have hput := hapart u (by rw [hq]; exact List.mem_singleton_self f)
    rw [hq] at hput
    cases hput
  · have hput := hapart u (by rw [hq]; exact List.mem_singleton_self f)
    rw [hq] at hput
    cases hput

/-- A page below the library has a file only below `end_data`. -/
theorem Task.file_below {k : Task} {v : Nat} (hfile : ∃ ino, k.file v = some ino) (hv : v < LIBRARY_OFFSET) :
    v * 4096 < k.endData := by
  obtain ⟨ino, hfile⟩ := hfile
  unfold Task.file at hfile
  rw [if_neg (Nat.not_le.mpr hv)] at hfile
  by_contra hge
  rw [if_neg hge] at hfile
  cases hfile

/-- What is read is what the page should hold. -/
theorem Matches.loaded {k : Task} {prog : Option Nat} {v : Nat} (h : Matches W k prog)
    (hfile : ∃ ino, k.file v = some ino) (hv : v < LIBRARY_OFFSET) {ino : Nat} (hino : prog = some ino) {x : Nat}
    (hx : x < 4096) : W.loadPage k v x = W.imageOf ino (W.endData ino) v x := by
  obtain ⟨hexec, hend⟩ := h
  have hend := hend ino hino
  have hsmall : k.endData ≤ 0x3000000 := by
    rw [hend]
    exact W.small ino
  rw [Programs.loadPage_eq W hv (hexec.trans hino) hsmall (Task.file_below hfile hv) hx, hend]

/-- Beyond `end_data` there are zeros. -/
theorem Matches.beyond {k : Task} {prog : Option Nat} {v : Nat} (h : Matches W k prog) (hfile : k.file v = none)
    (hv : v < LIBRARY_OFFSET) {ino : Nat} (hino : prog = some ino) (x : Nat) :
    W.imageOf ino (W.endData ino) v x = 0 := by
  obtain ⟨hexec, hend⟩ := h
  have hge : ¬v * 4096 < W.endData ino := by
    intro hlt
    unfold Task.file at hfile
    rw [if_neg (Nat.not_le.mpr hv), hend ino hino, if_pos hlt, hexec, hino] at hfile
    cases hfile
  exact if_neg fun hlt => hge (Nat.lt_of_le_of_lt (Nat.le_add_right _ x) hlt)

theorem Track.fine_step (h : Track ok W T) (hs : T.Step W e T') (u : Nat) :
    Fine W T'.config.mem (T'.config.tasks u) (T'.program u) (T'.config.procs u) := by
  have hinv := h.swaps.inv
  have hfine := h.fine u
  by_cases he : e = .cleared u
  · -- a new program, or the old one without its library
    have hprog := hs.next.cleared u (.inl he)
    have hheader := hs.header u
    subst he
    refine .of_matches ⟨hprog.symm, fun ino hino => hheader ino rfl (hprog ▸ hino)⟩ (hs.step.cleared hinv).2.2.2.1
  · have hkeep : T.config.procs u ≠ .none → T'.program u = T.program u := hs.next.others u he
    cases hs.step.moved hinv u with
    | same hp hk =>
        rw [hp, hk]
        by_cases hnone : T.config.procs u = .none
        · rw [hnone]
          trivial
        · rw [hkeep hnone]
          cases hq : T.config.procs u with
          | put v f =>
              rw [hq] at hfine
              refine ⟨hfine.1, fun hv ino hino x hx => ?_⟩
              rw [h.waits hs hq]
              exact hfine.2 hv ino hino x hx
          | _ =>
              rw [hq] at hfine
              exact hfine
    | gone _ hp' =>
        rw [hp']
        trivial
    | args pages _ hp hp' hk =>
        have hend : T.config.procs u ≠ .none ∧ ∀ ino, T.program u = some ino →
            (T.config.tasks u).endData = W.endData ino := by
          rcases hp with hruns | ⟨pages, hargs⟩
          · refine ⟨?_, (hfine.matches hruns).2⟩
            rintro hnone
            rw [hnone] at hruns
            cases hruns
          · rw [hargs] at hfine ⊢
            exact ⟨Proc.noConfusion, hfine⟩
        rw [hp', hkeep hend.1]
        intro ino hino
        rw [hk]
        exact hend.2 ino hino
    | go hruns hp' _ hk =>
        have hne : T.config.procs u ≠ .none := by
          intro hnone
          rw [hnone] at hruns
          cases hruns
        rw [hk, hkeep hne]
        exact .of_matches (hfine.matches hruns) hp'
    | load v ino f hp hfile hp' hk =>
        have hmatch := hfine.matches (by rw [hp]; rfl)
        rw [hp', hk, hkeep (by rw [hp]; exact Proc.noConfusion)]
        exact ⟨hmatch, ino, hfile⟩
    | empty v f hp hfile hp' hk hd =>
        have hmatch := hfine.matches (by rw [hp]; rfl)
        rw [hp', hk, hkeep (by rw [hp]; exact Proc.noConfusion)]
        refine ⟨hmatch, fun hv ino hino x _ => ?_⟩
        rw [hd, hmatch.beyond hfile hv hino]
    | loaded v f hp hl hp' hk =>
        rw [hp] at hfine
        rw [hp', hk, hkeep (by rw [hp]; exact Proc.noConfusion)]
        refine ⟨hfine.1, fun hv ino hino x hx => ?_⟩
        have hl : T'.config.mem.data f = W.loadPage (T.config.tasks u) v := hl
        rw [hl]
        exact hfine.1.loaded hfine.2 hv hino hx
    | cleared hc => exact absurd hc he
    | born t hp ht hp' hk =>
        have hmatch := (h.fine t).matches (by rw [ht]; rfl)
        have hprog : T'.program u = T.program t := by
          rw [hs.next.cleared u (.inr hp), hk]
          exact hmatch.1
        rw [hp', hk, hprog]
        exact hmatch
    | failed hp hp' hk =>
        have hexec := hs.early u hp hp'
        rw [hp] at hfine
        rw [hp', hk, hkeep (by rw [hp]; exact Proc.noConfusion)]
        exact ⟨hexec, hfine⟩

theorem Track.making_step (h : Track ok W T) (hs : T.Step W e T') {t n : Nat}
    (hm : (T'.config.procs t).making = some n) : T'.program n = T'.program t := by
  have hinv := h.swaps.inv
  have htc : e ≠ .cleared t := by
    rintro rfl
    have hnone := (hs.step.cleared hinv).2.2.2.2
    rw [hnone] at hm
    cases hm
  rcases hs.step.making_cases hm with hold | ⟨ht, hn, hk, -⟩
  · have hchild := (hinv.child t n hold).1
    have hnc : e ≠ .cleared n := by
      rintro rfl
      exact (hs.step.cleared hinv).2.2.1 hchild
    rw [hs.next.others n hnc (by rw [hchild]; exact Proc.noConfusion), hs.next.others t htc, h.making t n hold]
    intro hnone
    rw [hnone] at hold
    cases hold
  · have hmatch := (h.fine t).matches (by rw [ht]; rfl)
    rw [hs.next.cleared n (.inr hn), hk, hs.next.others t htc (by rw [ht]; exact Proc.noConfusion)]
    exact hmatch.1

theorem Track.first_step (h : Track ok W T) (hs : T.Step W e T') :
    T'.config.procs 0 ≠ .none ∧ T'.program 0 = none := by
  have hinv := h.swaps.inv
  obtain ⟨halive, hnone⟩ := h.first
  have hc : e ≠ .cleared 0 := by
    rintro rfl
    exact (hs.step.cleared hinv).1 rfl
  refine ⟨fun hgone => ?_, (hs.next.others 0 hc halive).trans hnone⟩
  cases hs.step.moved hinv 0 with
  | same hp => exact halive (hp ▸ hgone)
  | gone h0 => exact h0 rfl
  | args _ h0 => exact h0 rfl
  | go _ _ hlive => exact hlive hgone
  | load v ino f _ _ hp' | empty v f _ _ hp' | loaded v f _ _ hp' | born _ _ _ hp' | failed _ hp' =>
      rw [hp'] at hgone
      cases hgone
  | cleared he => exact hc he

/-- A task that maps a page after a step had its program before it. -/
theorem Track.same_program (h : Track ok W T) (hs : T.Step W e T') {t v : Nat} {f : Frame} (ht : t ≠ 0)
    (hv : v < 1024 * TASK_TABLES) (hclean : Clean T'.config t v f) : T'.program t = T.program t := by
  have hinv := h.swaps.inv
  have halive : T.config.procs t ≠ .none := by
    cases hs.step.clean hinv ht hv hclean with
    | kept hold => exact hold.alive hinv ht hv
    | put hp => rw [hp]; exact Proc.noConfusion
    | shared p _ hp => rw [hp]; exact Proc.noConfusion
    | forked u hm => rw [(hinv.child u t hm).1]; exact Proc.noConfusion
    | copied u w ver g _ _ hold => exact hold.alive hinv ht hv
  by_cases he : e = .cleared t
  · have hprog := hs.next.cleared t (.inl he)
    subst he
    obtain ⟨hexec, hruns⟩ := hs.step.cleared_clean hinv hv hclean
    rw [hprog, hexec, ((h.fine t).matches hruns).1]
  · exact hs.next.others t he halive

/-- **A page that becomes clean, or stays so, holds what it should.** -/
theorem Track.clean_step (h : Track ok W T) (hs : T.Step W e T') (hclear : T.Clear e) {t v ino : Nat} {f : Frame}
    (ht : t ≠ 0) (hv : v < LIBRARY_OFFSET) (hino : T'.program t = some ino) (hclean : Clean T'.config t v f)
    (hnot : ¬T'.written f) {x : Nat} (hx : x < 4096) :
    T'.config.mem.data f x = W.imageOf ino (W.endData ino) v x := by
  have hinv := h.swaps.inv
  have hrange : v < 1024 * TASK_TABLES := Nat.lt_trans hv (by decide)
  rw [h.same_program hs ht hrange hclean] at hino
  -- a page that another entry had, and nobody has written
  have hold : ∀ {p : Nat}, p ≠ 0 → T.program p = some ino → Clean T.config p v f →
      T'.config.mem.data f x = W.imageOf ino (W.endData ino) v x := by
    intro p hp hprog hfrom
    obtain ⟨hdata, hunwritten⟩ := h.unchanged hs hp hfrom hnot
    rw [hdata]
    exact h.clean p v f ino hp hv hprog hfrom hunwritten x hx
  cases hs.step.clean hinv ht hrange hclean with
  | kept hkept => exact hold ht hino hkept
  | put hp =>
      have hfine := h.fine t
      rw [hp] at hfine
      rw [h.waits hs hp]
      exact hfine.2 hv ino hino x hx
  | shared p he hp hp0 hfrom =>
      subst he
      have hmatch := (h.fine t).matches (by rw [hp]; rfl)
      exact hold hp0 ((hclear hv).trans (hmatch.1.trans hino)) hfrom
  | forked u hm hfrom =>
      have hprog := (h.making u t hm).symm.trans hino
      refine hold ?_ hprog hfrom
      rintro rfl
      rw [h.first.2] at hprog
      cases hprog
  | copied u w ver g hp hw hfrom hdata =>
      -- the copy of a page that was written counts as written
      have hunwritten : ¬T.written g := by
        intro hwritten
        obtain ⟨rw, he⟩ := hw
        exact hnot ((hs.next.written f).2 (.inr (.inr ⟨u, w, ver, g, rw, false, hp, he, hwritten⟩)))
      rw [hdata]
      exact h.clean t v g ino ht hv hino hfrom hunwritten x hx

/-- **Every step keeps what is known**, if `share_page` finds no task in the middle of its `do_execve`. -/
theorem Track.step (h : Track ok W T) (hs : T.Step W e T') (hclear : T.Clear e) : Track ok W T' where
  swaps := h.swaps.step hs.step
  fine := h.fine_step hs
  first := h.first_step hs
  making _ _ hm := h.making_step hs hm
  clean _ _ _ _ ht hv hino hclean hnot _ hx := h.clean_step hs hclear ht hv hino hclean hnot hx

end Keep

/-! ## Runs -/

/-- When only the first task is there, and nothing has been written. -/
structure Tracked.Booted (T : Tracked) : Prop where
  start : Start T.config
  executable : (T.config.tasks 0).executable = none
  program : ∀ t, T.program t = (T.config.tasks t).executable
  written : ∀ f, ¬T.written f

/-- A run in which `share_page` finds no task in the middle of its `do_execve`. -/
def Tracked.Run (W : Programs) : Tracked → Tracked → Prop :=
  ReflTransGen fun T T' => ∃ e, T.Step W e T' ∧ T.Clear e

section Runs

variable {W : Programs} {T₀ T T' : Tracked} {e : Event}

theorem Tracked.Booted.track (h : T₀.Booted) : Track T₀.config.slots W T₀ := by
  have hprocs := h.start.procs
  refine ⟨h.start.swaps, fun t => ?_, ⟨?_, (h.program 0).trans h.executable⟩, fun t n hm => ?_,
    fun t v f ino ht hv hino hclean => ?_⟩
  · rw [hprocs]
    split
    · rename_i ht
      subst ht
      refine ⟨(h.program 0).symm, fun ino hino => ?_⟩
      rw [h.program, h.executable] at hino
      cases hino
    · trivial
  · rw [hprocs, if_pos rfl]
    exact Proc.noConfusion
  · rw [hprocs] at hm
    split at hm <;> cases hm
  · obtain ⟨rw, he⟩ := hclean
    unfold Paging.at at he
    rw [entry_of_no_dir _ (h.start.dirs _ (dirOf_ge ht))] at he
    cases he

theorem Tracked.Run.track (hstart : T₀.Booted) (hrun : Tracked.Run W T₀ T) : Track T₀.config.slots W T := by
  induction hrun with
  | refl => exact hstart.track
  | tail _ hstep ih =>
      obtain ⟨e, hstep, hclear⟩ := hstep
      exact ih.step hstep hclear

/-- **What `do_no_page` should do**, for pages below the library. -/
structure Served (W : Programs) (T : Tracked) (e : Event) (T' : Tracked) : Prop where
  /-- A page that it puts in place holds what the file has there, and zeros from `end_data` on. -/
  loaded : ∀ t v f ino, T.config.procs t = .put v f → v < LIBRARY_OFFSET →
    (T.config.tasks t).executable = some ino → ∀ x < 4096,
      T.config.mem.data f x = W.imageOf ino (T.config.tasks t).endData v x
  /-- A page from `end_data` on is not read. -/
  unread : ∀ k v p, e = .loaded k v p → v < LIBRARY_OFFSET → v * 4096 < k.endData
  /-- A page that is shared is as if it had been read, unless it has been written. -/
  shared : ∀ t v p ino, e = .shared t v p → v < LIBRARY_OFFSET → (T.config.tasks t).executable = some ino →
    ∃ f rw, T'.config.mem.at t v = .page f rw false ∧ (¬T'.written f → ∀ x < 4096,
      T'.config.mem.data f x = W.imageOf ino (T.config.tasks t).endData v x)

/-- The page that is shared is in both tasks. -/
theorem Step.shared_at {loads : Task → Nat → Page → Prop} {c c' : Config} (h : Inv c) {t v p : Nat}
    (hs : Step loads c (.shared t v p) c') :
    c.procs t = .noPage v ∧ t ≠ 0 ∧ v < 1024 * TASK_TABLES ∧ c'.tasks t = c.tasks t ∧
      ∃ f rw, c'.mem.at t v = .page f rw false := by
  have hknow := h.knows t
  cases hs with
  | @share _ _ _ ino f hp hfile hother hhas hs hd =>
      rw [hp] at hknow
      have hv := h.range hknow.2.1
      obtain ⟨rw₀, hfrom⟩ := sharable_spec hs
      refine ⟨hp, hknow.1, hv, rfl, f, false, ?_⟩
      have hat : (c.mem.shareWith t p v f).at t v = _ := at_shareWith h.counts hother.2.1 hfrom hd hv hv
      rw [if_pos ⟨.inl rfl, rfl⟩] at hat
      exact hat
  | shareLate hp =>
      rw [hp] at hknow
      exact hknow.elim

theorem Step.loaded_at {loads : Task → Nat → Page → Prop} {c c' : Config} {k : Task} {v : Nat} {pg : Page}
    (hs : Step loads c (.loaded k v pg) c') : ∃ t f, c.procs t = .load v f ∧ k = c.tasks t := by
  cases hs with
  | loaded hp hl => exact ⟨_, _, hp, rfl⟩

/-- **A page of a program is what its file has there**, read or shared, in every run in which `share_page` finds no task
between the two steps of its `do_execve`. -/
theorem demand_loaded (hstart : T₀.Booted) (hrun : Tracked.Run W T₀ T) (hs : T.Step W e T') (hclear : T.Clear e) :
    Served W T e T' := by
  have htrack := hrun.track hstart
  have hinv := htrack.swaps.inv
  refine ⟨fun t v f ino hp hv hexec x hx => ?_, fun k v p he hv => ?_, fun t v p ino he hv hexec => ?_⟩
  · have hfine := htrack.fine t
    rw [hp] at hfine
    have hino : T.program t = some ino := hfine.1.1.symm.trans hexec
    rw [hfine.1.2 ino hino]
    exact hfine.2 hv ino hino x hx
  · subst he
    obtain ⟨t, f, hp, rfl⟩ := hs.step.loaded_at
    have hfine := htrack.fine t
    rw [hp] at hfine
    exact Task.file_below hfine.2 hv
  · subst he
    obtain ⟨hp, ht, hrange, hk, f, rw, hat⟩ := hs.step.shared_at hinv
    have hmatch := (htrack.fine t).matches (by rw [hp]; rfl)
    have hino : T.program t = some ino := hmatch.1.symm.trans hexec
    refine ⟨f, rw, hat, fun hnot x hx => ?_⟩
    rw [hmatch.2 ino hino]
    have hclean : Clean T'.config t v f := ⟨rw, hat⟩
    have hprog := htrack.same_program hs ht hrange hclean
    exact htrack.clean_step hs hclear ht hv (hprog.trans hino) hclean hnot hx

end Runs

/-! ## Two programs -/

/-- Two files: the block of one holds ones, the other one is a hole. -/
def hello : Programs where
  dev _ := 0
  bmap ino block := if ino = 7 ∧ block = 1 then 5 else 0
  block _ b _ := if b = 5 then 1 else 0
  endData _ := 4096
  small _ := by decide

/-- The other one. -/
def other : Task := { executable := some 8, library := none, endData := 4096, tables := TASK_TABLES }

theorem Tracked.exists_next (T : Tracked) (e : Event) (c' : Config) : ∃ T', T'.config = c' ∧ T.Next e T' := by
  classical
  refine ⟨⟨c', _, fun t => if e = .cleared t ∨ T.config.procs t = .none then (c'.tasks t).executable
    else T.program t⟩, rfl, fun f => Iff.rfl, fun t ht => if_pos ht, fun t he halive => if_neg ?_⟩
  rintro (hc | hnone)
  · exact he hc
  · exact halive hnone

/-- Steps in which nothing is shared or stored. -/
def Silent (c c' : Config) : Prop :=
  ∃ e, Vm.Step hello.Loads c e c' ∧ (∀ t v p, e ≠ .shared t v p) ∧
    (∀ t v o b, e ≠ .store t v o b ∧ e ≠ .kstore t v o b) ∧
    (∀ t, e = .cleared t → (c'.tasks t).endData = 4096) ∧ ∀ t, c.procs t = .args [] → c'.procs t ≠ .user

theorem silent_allows : Allows hello.Loads Silent := by
  rintro c c' e hs ⟨rfl | ⟨t, n, rfl⟩ | ⟨t, rfl, hk⟩, hsucceeds⟩
  · exact ⟨_, hs, nofun, fun _ _ _ _ => ⟨Event.noConfusion, Event.noConfusion⟩, nofun, hsucceeds⟩
  · exact ⟨_, hs, nofun, fun _ _ _ _ => ⟨Event.noConfusion, Event.noConfusion⟩, nofun, hsucceeds⟩
  · refine ⟨_, hs, nofun, fun _ _ _ _ => ⟨Event.noConfusion, Event.noConfusion⟩, fun u hu => ?_, hsucceeds⟩
    cases hu
    rw [hk]
    rfl

/-- The start, with no program. -/
def booted : Tracked := ⟨boot, fun _ => False, fun _ => none⟩

theorem booted_start : booted.Booted := ⟨boot_start, rfl, fun _ => rfl, fun _ h => h⟩

/-- Such a run with what is tracked of it. -/
theorem tracked_of_silent {c : Config} (h : ReflTransGen Silent boot c) :
    ∃ T, Tracked.Run hello booted T ∧ T.config = c ∧ ∀ f, ¬T.written f := by
  induction h with
  | refl => exact ⟨booted, .refl, rfl, fun _ h => h⟩
  | @tail c c' _ hstep ih =>
      obtain ⟨T, hrun, rfl, hunwritten⟩ := ih
      obtain ⟨e, hs, hshare, hstore, hheader, hsucceeds⟩ := hstep
      obtain ⟨T', rfl, hnext⟩ := T.exists_next e c'
      have hclear : T.Clear e := by
        cases e with
        | shared t v p => exact absurd rfl (hshare t v p)
        | _ => trivial
      have hstep : T.Step hello e T' :=
        ⟨hs, hnext, fun t ino he _ => hheader t he, fun t hargs huser => absurd huser (hsucceeds t hargs)⟩
      refine ⟨T', hrun.tail ⟨e, hstep, hclear⟩, rfl, fun f hf => ?_⟩
      rcases (hnext.written f).1 hf with ⟨t, v, o, x, rw, b, ⟨rfl, -⟩ | ⟨rfl, -⟩, -⟩ | ⟨-, -, hold⟩ |
        ⟨u, w, ver, g, rw, d, -, -, hold⟩
      · exact (hstore t v o x).1 rfl
      · exact (hstore t v o x).2 rfl
      · exact hunwritten f hold
      · exact hunwritten g hold

/-- Two tasks run the two programs, and have no pages. -/
structure Ready (c : Config) : Prop extends FromBoot Silent c where
  second : c.procs 1 = .user
  third : c.procs 2 = .user
  program : c.tasks 1 = program
  other : c.tasks 2 = other
  dir₁ : c.mem.dir 16 = none
  dir₂ : c.mem.dir 32 = none
  free : ∀ f : Nat, 0x100 ≤ f → f < 0x120 → c.mem.CanTake f

theorem ready : ∃ c, Ready c := by
  obtain ⟨c, h⟩ := execed silent_allows
  have hexec : Vm.Step hello.Loads c .quiet _ := .exec (t := 2) (by decide) h.third
  have hargs : Vm.Step hello.Loads ((c.setProc 2 (.args [])).setVerified 2 fun _ => false) (.cleared 2) _ :=
    .argsDone (t := 2) other rfl rfl
  have hbegun := h.run.tail (silent_allows hexec ⟨.inl rfl, fun t ht => absurd ht (h.calm t [])⟩)
  have hcalm : ∀ t pages, (if t = 2 then Proc.putArgs [] else if t = 2 then Proc.args [] else c.procs t) ≠
      .args pages := by
    intro t pages
    split
    · exact Proc.noConfusion
    · exact h.calm t pages
  have hsucceeds : ∀ t, (if t = 2 then Proc.args [] else c.procs t) = .args [] →
      (if t = 2 then Proc.putArgs [] else if t = 2 then Proc.args [] else c.procs t) ≠ .user := by
    intro t ht
    split
    · exact Proc.noConfusion
    · rename_i hne
      rw [if_neg hne] at ht
      exact absurd ht (h.calm t [])
  have hheader : ∀ t, Event.cleared 2 = .cleared t → (if t = 2 then other else c.tasks t).endData = 4096 := by
    intro t ht
    cases ht
    rfl
  have hput : FromBoot Silent _ :=
    ⟨hbegun.tail ⟨_, hargs, nofun, fun _ _ _ _ => ⟨Event.noConfusion, Event.noConfusion⟩, hheader, hsucceeds⟩,
      (h.inv.step hexec).step hargs, hcalm⟩
  have hrun := hput.step silent_allows (.execDone (t := 2) rfl) (.inl rfl)
    (calm_if hput.calm (fun _ => Proc.noConfusion) 2)
  have hdir : ∀ d, c.mem.dir d = none → (c.mem.freePageTables 32 (c.tasks 2).tables).dir d = none := by
    intro d hd
    rw [dir_freePageTables]
    split
    · rfl
    · exact hd
  refine ⟨_, hrun, h.second, rfl, h.program₁, rfl, hdir 16 h.dir₁, hdir 32 h.dir₂, fun f hf hf' => ?_⟩
  obtain ⟨hmanaged, hzero⟩ := h.free f hf hf'
  have hless := Fewer.freePageTables h.inv.counts (c.tasks 2).tables (d := 32) (by decide)
  refine ⟨(congrFun (untouched_freePageTables c.mem 32 (c.tasks 2).tables).managed f).mpr hmanaged, ?_⟩
  exact Nat.le_zero.mp (hzero ▸ hless.memMap f)

/-- The second task has read its page. -/
structure Filled (c : Config) : Prop extends FromBoot Silent c where
  second : c.procs 1 = .put 0 0x101
  third : c.procs 2 = .user
  program : c.tasks 1 = program
  other : c.tasks 2 = other
  dir₁ : c.mem.dir 16 ≠ none
  dir₂ : c.mem.dir 32 = none
  one : c.mem.memMap 0x101 = 1
  managed : c.mem.Managed 0x101
  data : c.mem.data 0x101 = hello.loadPage Vm.program 0
  free : c.mem.CanTake 0x102

theorem filled : ∃ c, Filled c := by
  obtain ⟨c, h⟩ := ready
  have habsent : ∀ f rw b, c.mem.at 1 0 ≠ .page f rw b := by
    intro f rw b
    have hnone : c.mem.at 1 0 = .none := entry_of_no_dir c.mem h.dir₁ 0
    rw [hnone]
    exact Entry.noConfusion
  have hgo : ∀ {c c' : Config} {q : Proc}, FromBoot Silent c → Vm.Step hello.Loads c .quiet c' →
      (∀ t, c'.procs t = if t = 1 then q else c.procs t) → (∀ pages, q ≠ .args pages) → FromBoot Silent c' := by
    intro c c' q hc hs hprocs hq
    refine hc.step silent_allows hs (.inl rfl) fun t pages => ?_
    rw [hprocs]
    exact calm_if hc.calm hq 1 t pages
  have hfault := hgo h.toFromBoot (.fault (t := 1) (v := 0) (by decide) h.second (by rw [h.program]; decide) habsent)
    (fun _ => rfl) (fun _ => Proc.noConfusion)
  have htable := hgo hfault (.faultDir (t := 1) (v := 0) (f := 0x100) rfl h.dir₁
      (h.free 0x100 (by decide) (by decide))) (fun _ => rfl) (fun _ => Proc.noConfusion)
  have hpage := (h.free 0x101 (by decide) (by decide)).other (f := 0x100) (by decide)
  have hfree := (h.free 0x102 (by decide) (by decide)).other (f := 0x100) (by decide)
  obtain ⟨c₀, hrun, hp, hp', hk, hk', hdir, hdir', hpage, hfree⟩ : ∃ c₀, FromBoot Silent c₀ ∧
      c₀.procs 1 = .noPage 0 ∧ c₀.procs 2 = .user ∧ c₀.tasks 1 = program ∧ c₀.tasks 2 = other ∧
      c₀.mem.dir 16 = some 0x100 ∧ c₀.mem.dir 32 = none ∧ c₀.mem.CanTake 0x101 ∧ c₀.mem.CanTake 0x102 :=
    ⟨_, htable, rfl, h.third, h.program, h.other, rfl, h.dir₂, hpage, hfree⟩
  have hfile : (c₀.tasks 1).file 0 = some 7 := by
    rw [hk]
    rfl
  have hload := hgo hrun (.load (t := 1) (v := 0) hp hfile hpage) (fun _ => rfl) (fun _ => Proc.noConfusion)
  have hfree := hfree.other (f := 0x101) (by decide)
  obtain ⟨c₁, hrun, hp, hp', hk, hk', hdir, hdir', hone, hmanaged, hfree⟩ : ∃ c₁, FromBoot Silent c₁ ∧
      c₁.procs 1 = .load 0 0x101 ∧ c₁.procs 2 = .user ∧ c₁.tasks 1 = program ∧ c₁.tasks 2 = other ∧
      c₁.mem.dir 16 = some 0x100 ∧ c₁.mem.dir 32 = none ∧ c₁.mem.memMap 0x101 = 1 ∧ c₁.mem.Managed 0x101 ∧
      c₁.mem.CanTake 0x102 :=
    ⟨_, hload, rfl, hp', hk, hk', hdir, hdir', rfl, hpage.1, hfree⟩
  have hread : Vm.Step hello.Loads c₁ (.loaded (c₁.tasks 1) 0 (hello.loadPage (c₁.tasks 1) 0))
      (c₁.goto 1 (.put 0 0x101) (c₁.mem.setData 0x101 (hello.loadPage (c₁.tasks 1) 0))) := .loaded hp rfl
  have hdone : FromBoot Silent
      (c₁.goto 1 (.put 0 0x101) (c₁.mem.setData 0x101 (hello.loadPage (c₁.tasks 1) 0))) := by
    refine ⟨hrun.run.tail ⟨_, hread, nofun, fun _ _ _ _ => ⟨Event.noConfusion, Event.noConfusion⟩, nofun,
      fun t ht => absurd ht (hrun.calm t [])⟩, hrun.inv.step hread, ?_⟩
    exact calm_if hrun.calm (fun _ => Proc.noConfusion) 1
  refine ⟨_, hdone, rfl, hp', hk, hk', ?_, hdir', hone, hmanaged, ?_, hfree⟩
  · exact fun hd => Option.some_ne_none _ (hdir.symm.trans hd)
  · rw [← hk]
    simp [Config.goto, Paging.setData]

/-- A page of the first program is put in place. -/
theorem demand_loaded_put : ∃ T T', T.config.procs 1 = .put 0 0x101 ∧ T'.config.mem.at 1 0 = .page 0x101 true false ∧
    Served hello T .quiet T' := by
  obtain ⟨c, h⟩ := filled
  obtain ⟨T, hrun, rfl, -⟩ := tracked_of_silent h.run
  have hput : Vm.Step hello.Loads T.config .quiet _ := .put (t := 1) (v := 0) h.second h.one h.dir₁
  obtain ⟨T', hT', hnext⟩ := T.exists_next .quiet _
  have hstep : T.Step hello .quiet T' := by
    refine ⟨hT' ▸ hput, hnext, nofun, fun t hargs => absurd hargs (h.calm t [])⟩
  refine ⟨T, T', h.second, ?_, demand_loaded booted_start hrun hstep trivial⟩
  rw [hT']
  exact entry_setEntry_self T.config.mem h.dir₁ _ _

/-- The second task has set `executable` and still has its page; the third one is about to load that page. -/
structure Leaving (c : Config) : Prop where
  run : ReflTransGen Silent boot c
  inv : Inv c
  second : c.procs 1 = .args []
  third : c.procs 2 = .noPage 0
  executable : (c.tasks 1).executable = some 8
  other : c.tasks 2 = other
  page : c.mem.at 1 0 = .page 0x101 true false
  dir₂ : c.mem.dir 32 ≠ none
  managed : c.mem.Managed 0x101
  data : c.mem.data 0x101 = hello.loadPage Vm.program 0

theorem leaving : ∃ c, Leaving c := by
  obtain ⟨c, h⟩ := filled
  have hput := h.toFromBoot.step silent_allows (.put (t := 1) (v := 0) h.second h.one h.dir₁) (.inl rfl)
    (calm_if h.calm (fun _ => Proc.noConfusion) 1)
  have hsame := untouched_setEntry c.mem 16 0 (.page 0x101 true false)
  have hfree := h.free
  obtain ⟨c₁, hrun, hp, hp', hk, hk', hpage, hdir, hmanaged, hdata, hfree⟩ : ∃ c₁, FromBoot Silent c₁ ∧
      c₁.procs 1 = .user ∧ c₁.procs 2 = .user ∧ c₁.tasks 1 = program ∧ c₁.tasks 2 = other ∧
      c₁.mem.at 1 0 = .page 0x101 true false ∧ c₁.mem.dir 32 = none ∧ c₁.mem.Managed 0x101 ∧
      c₁.mem.data 0x101 = hello.loadPage Vm.program 0 ∧ c₁.mem.CanTake 0x102 := by
    refine ⟨_, hput, rfl, h.third, h.program, h.other, entry_setEntry_self c.mem h.dir₁ _ _, ?_, ?_, ?_, ?_⟩
    · show (c.mem.setEntry 16 0 _).dir 32 = none
      rw [dir_setEntry]
      exact h.dir₂
    · exact (congrFun hsame.managed 0x101).mpr h.managed
    · exact (congrFun hsame.data 0x101).trans h.data
    · refine ⟨(congrFun hsame.managed 0x102).mpr hfree.1, ?_⟩
      show (c.mem.setEntry 16 0 _).memMap 0x102 = 0
      rw [memMap_setEntry]
      exact hfree.2
  -- the second task is in `exec`, and has set `executable`
  have hexec : Vm.Step hello.Loads c₁ .quiet _ := .exec (t := 1) (by decide) hp
  have hinode : Vm.Step hello.Loads ((c₁.setProc 1 (.args [])).setVerified 1 fun _ => false) .quiet _ :=
    .argsInode (t := 1) 8 (rfl : _ = Proc.args [])
  have hquiet : ∀ {c c' : Config}, Vm.Step hello.Loads c .quiet c' →
      (∀ t, c.procs t = .args [] → c'.procs t = .args []) → Silent c c' := by
    intro c c' hs hstays
    refine ⟨_, hs, nofun, fun _ _ _ _ => ⟨Event.noConfusion, Event.noConfusion⟩, nofun, fun t ht => ?_⟩
    rw [hstays t ht]
    exact Proc.noConfusion
  obtain ⟨c₂, hrun, hinv, hp, hp', hk, hk', hpage, hdir, hmanaged, hdata, hfree⟩ : ∃ c₂,
      ReflTransGen Silent boot c₂ ∧ Inv c₂ ∧ c₂.procs 1 = .args [] ∧ c₂.procs 2 = .user ∧
      (c₂.tasks 1).executable = some 8 ∧ c₂.tasks 2 = other ∧ c₂.mem.at 1 0 = .page 0x101 true false ∧
      c₂.mem.dir 32 = none ∧ c₂.mem.Managed 0x101 ∧ c₂.mem.data 0x101 = hello.loadPage Vm.program 0 ∧
      c₂.mem.CanTake 0x102 := by
    have hbegun := hrun.run.tail (hquiet hexec fun t ht => absurd ht (hrun.calm t []))
    exact ⟨_, hbegun.tail (hquiet hinode fun _ ht => ht), (hrun.inv.step hexec).step hinode, rfl, hp', rfl, hk', hpage,
      hdir, hmanaged, hdata, hfree⟩
  -- the third one has no page table yet
  have habsent : ∀ f rw b, c₂.mem.at 2 0 ≠ .page f rw b := by
    intro f rw b
    have hnone : c₂.mem.at 2 0 = .none := entry_of_no_dir c₂.mem hdir 0
    rw [hnone]
    exact Entry.noConfusion
  have hfault : Vm.Step hello.Loads c₂ .quiet _ :=
    .fault (t := 2) (v := 0) (by decide) hp' (by rw [hk']; decide) habsent
  have htable : Vm.Step hello.Loads (c₂.setProc 2 (.fault 0)) .quiet _ :=
    .faultDir (t := 2) (v := 0) (f := 0x102) rfl hdir hfree
  have hbusy : ∀ {c : Config} {t : Nat} {q : Proc}, c.procs t = .args [] → c.procs 2 = q →
      (∀ pages, q ≠ .args pages) → t ≠ 2 := by
    rintro c t q ht hq hne rfl
    exact hne [] (hq.symm.trans ht)
  refine ⟨_, (hrun.tail (hquiet hfault ?_)).tail (hquiet htable ?_), (hinv.step hfault).step htable, hp, rfl, hk,
    hk', ?_, Option.some_ne_none _, ⟨hmanaged.1, hmanaged.2⟩, hdata⟩
  · exact fun t ht => (if_neg (hbusy ht hp' fun _ => Proc.noConfusion)).trans ht
  · exact fun t ht => (if_neg (hbusy ht rfl fun _ => Proc.noConfusion)).trans ht
  · have hsame := hinv.counts.entry_newTable hfree hdir
    exact (congrFun (congrFun hsame 16) 0).trans hpage

theorem data_shareWith (s : Paging) (t p v : Nat) (f : Frame) : (s.shareWith t p v f).data = s.data := by
  unfold Paging.shareWith Paging.share Paging.setMap
  simp [data_setAt]

/-- **A page of the program a task is leaving is shared as if it were of the one it is going to run**: the task has set
`executable`, and closes its files before it frees its page tables. -/
theorem old_program_shared : ∃ T T', Tracked.Run hello booted T ∧ T.Step hello (.shared 2 0 1) T' ∧
    ¬Served hello T (.shared 2 0 1) T' := by
  obtain ⟨c, h⟩ := leaving
  obtain ⟨T, hrun, rfl, hunwritten⟩ := tracked_of_silent h.run
  have hfile : (T.config.tasks 2).file 0 = some 8 := by
    rw [h.other]
    rfl
  have hhas : (T.config.tasks 1).has 0 8 := by
    unfold Task.has
    rw [if_pos (by decide)]
    exact h.executable
  have hsharable : T.config.mem.sharable 1 0 = some 0x101 := by
    unfold Paging.sharable
    rw [h.page]
    refine if_neg ?_
    rintro (hge | hlt)
    · exact absurd h.managed.2 (Nat.not_lt.mpr hge)
    · exact absurd hlt (by decide)
  have hshare : Vm.Step hello.Loads T.config (.shared 2 0 1) _ :=
    .share h.third hfile ⟨by decide, by decide, by decide, by rw [h.second]; exact Proc.noConfusion⟩ hhas hsharable
      h.dir₂
  obtain ⟨T', hT', hnext⟩ := T.exists_next (.shared 2 0 1) _
  have hstep : T.Step hello (.shared 2 0 1) T' := by
    refine ⟨hT' ▸ hshare, hnext, nofun, fun t hargs huser => ?_⟩
    rw [hT'] at huser
    have hne : t ≠ 2 := by
      rintro rfl
      rw [h.third] at hargs
      cases hargs
    rw [show (T.config.goto 2 .user (T.config.mem.shareWith 2 1 0 0x101)).procs t = T.config.procs t from if_neg hne,
      hargs] at huser
    cases huser
  refine ⟨T, T', hrun, hstep, fun hserved => ?_⟩
  obtain ⟨f, rw, hat, hcontents⟩ := hserved.shared 2 0 1 8 rfl (by decide) (by rw [h.other]; rfl)
  have hshared := at_shareWith h.inv.counts (t := 2) (u := 2) (v := 0) (by decide) h.page h.dir₂ (by decide) (by decide)
  rw [if_pos ⟨.inl rfl, rfl⟩] at hshared
  rw [hT'] at hat
  obtain ⟨rfl, -⟩ := Entry.page.inj (hshared.symm.trans hat)
  have hbyte := hcontents ?_ 0 (by decide)
  · have hsame : T'.config.mem.data 0x101 = T.config.mem.data 0x101 := by
      rw [hT']
      exact congrFun (data_shareWith T.config.mem 2 1 0 0x101) 0x101
    have hprogram : hello.loadPage Vm.program 0 0 = hello.imageOf 7 4096 0 0 :=
      hello.loadPage_eq (by decide) rfl (by decide) (by decide) (by decide)
    rw [hsame, h.data, hprogram, h.other] at hbyte
    revert hbyte
    decide
  · intro hw
    rcases (hnext.written _).1 hw with ⟨t, v, o, x, rw, b, ⟨hs, -⟩ | ⟨hs, -⟩, -⟩ | ⟨-, -, hold⟩ |
      ⟨u, w, ver, g, rw, d, -, -, hold⟩
    · exact absurd hs Event.noConfusion
    · exact absurd hs Event.noConfusion
    · exact hunwritten _ hold
    · exact hunwritten _ hold

end Vm
end Mm
end Linux095
