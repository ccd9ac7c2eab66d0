import Linux095.Mm.SwapSlots

/-!
# `Mm.KernelStores` — what the kernel writes for a task

`verify_area` leaves every page of a range writable for the task alone, or absent; the kernel then stores without
regard to the read-only bit.

* `Fewer` — pages are only given up;
* `Before`, `Change.before` — where the page of an entry was before a change;
* `Writable`, `Private` — a page that may be written has one reference;
* `ClearRun` — the runs in which `try_to_share` leaves verified pages alone;
* `private_of_clear` — **in such a run no store for one task changes a page that another one maps**;
* `verified_page_shared` — a run in which one does.
-/

namespace Linux095
namespace Mm
namespace Vm

open Linux095.Count Relation

variable {U : Nat → Prop} {K : Frame → Prop} {S : Nat → Nat → Nat → Prop} {s s' : Paging}

/-! ## The page of an entry -/

/-- No entry gets a page, and no counter goes up. -/
structure Fewer (s s' : Paging) : Prop where
  entry : ∀ d i f rw b, s'.entry d i = .page f rw b → s.entry d i = .page f rw b
  memMap : ∀ f, s'.memMap f ≤ s.memMap f

theorem Fewer.refl (s : Paging) : Fewer s s := ⟨fun _ _ _ _ _ h => h, fun _ => Nat.le_refl _⟩

theorem Fewer.trans {s'' : Paging} (h : Fewer s s') (h' : Fewer s' s'') : Fewer s s'' :=
  ⟨fun d i f rw b he => h.entry d i f rw b (h'.entry d i f rw b he), fun f => Nat.le_trans (h'.memMap f) (h.memMap f)⟩

theorem memMap_freePage_le (s : Paging) (f x : Frame) : (s.freePage f).memMap x ≤ s.memMap x := by
  unfold Paging.freePage
  split
  · exact Nat.le_refl _
  · split
    · show (if x = f then s.memMap f - 1 else s.memMap x) ≤ s.memMap x
      split
      · rename_i hx
        rw [hx]
        exact Nat.sub_le _ _
      · exact Nat.le_refl _
    · exact Nat.le_refl _

theorem memMap_freePage_ne {f x : Frame} (s : Paging) (hne : x ≠ f) : (s.freePage f).memMap x = s.memMap x := by
  unfold Paging.freePage
  split
  · rfl
  · split
    · exact if_neg hne
    · rfl

theorem Fewer.freePage (s : Paging) (f : Frame) : Fewer s (s.freePage f) := by
  refine ⟨fun d i g rw b he => ?_, memMap_freePage_le s f⟩
  rwa [entry_freePage] at he

theorem Fewer.setEntry (h : Tables s) (d i : Nat) {e : Entry} (hf : e.frame = none) : Fewer s (s.setEntry d i e) := by
  refine ⟨fun d' i' f rw b he => ?_, fun f => by rw [memMap_setEntry]⟩
  by_cases hd : s.dir d = none
  · unfold Paging.setEntry at he
    rw [hd] at he
    exact he
  · rw [h.entry_setEntry hd] at he
    split at he
    · rw [he] at hf
      cases hf
    · exact he

theorem Fewer.dropEntry (h : Tables s) (d i : Nat) : Fewer s (s.dropEntry d i) := by
  unfold Paging.dropEntry
  split
  · exact .refl s
  · exact (Fewer.setEntry h d i rfl).trans (Fewer.freePage _ _)
  · refine (Fewer.setEntry h d i (e := .none) rfl).trans ⟨fun d' i' f rw b he => ?_, fun f => ?_⟩
    · rwa [entry_swapFree] at he
    · rw [memMap_swapFree]

theorem Fewer.freePageTables (h : Counts s) {d : Nat} (n : Nat) (hd16 : TASK_TABLES ≤ d) :
    Fewer s (s.freePageTables d n) := by
  have hboth : Counts (s.freePageTables d n) ∧ Fewer s (s.freePageTables d n) := by
    refine freePageTables_induct (P := fun s' => Counts s' ∧ Fewer s s') (fun s' hs' => hs'.1.tables) ?_ ?_
      ⟨h, .refl s⟩
    · rintro s' k i - ⟨hc, hless⟩
      exact ⟨hc.dropEntry (by omega) i, hless.trans (Fewer.dropEntry hc.tables _ _)⟩
    · rintro s' k T - ⟨hc, hless⟩ hT hempty
      refine ⟨hc.removeTable hT (by omega) hempty, hless.trans ⟨fun d' i' f rw b he => ?_, fun f => ?_⟩⟩
      · rwa [entry_freePage, entry_setDir_none hempty] at he
      · exact memMap_freePage_le (s'.setDir (d + k) none) T f
  exact hboth.2

/-- Where the page of entry `i` of table `d` was before a change. -/
inductive Before (S : Nat → Nat → Nat → Prop) (s s' : Paging) (d i : Nat) (f : Frame) (rw : Bool) : Prop
  | old (rw₀ b₀ : Bool) (he : s.entry d i = .page f rw₀ b₀)
      (hrw : rw = true → rw₀ = true ∨ LOW_MEM ≤ f ∧ s.memMap f = 1) (hm : s.memMap f = 1 → s'.memMap f ≤ 1)
  | new (hlow : LOW_MEM ≤ f) (hm : s'.memMap f = 1)
  | shared (hS : ∃ d', S d d' i ∨ S d' d i) (hrw : rw = false)

/-- A page with one reference is in one entry. -/
theorem Counts.sole (h : Counts s) {d d' i i' : Nat} {f : Frame} {rw b rw' b' : Bool} (hd : TASK_TABLES ≤ d)
    (hd' : TASK_TABLES ≤ d') (hf : s.Managed f) (hm : s.memMap f = 1) (he : s.entry d i = .page f rw b)
    (he' : s.entry d' i' = .page f rw' b') : d = d' ∧ i = i' := by
  have hone := h.counted.one hf hm (target_entry hd he) (target_entry hd' he')
  exact ⟨(Ref.entry.inj hone).1, (Ref.entry.inj hone).2⟩

/-- A page of a task is of the low memory or managed. -/
theorem Tables.managed (h : Tables s) {d i : Nat} {f : Frame} {rw b : Bool} (hd : TASK_TABLES ≤ d)
    (he : s.entry d i = .page f rw b) (hlow : LOW_MEM ≤ f) : s.Managed f := by
  rcases h.entryFrame d i f rw b hd he with hlt | hf
  · exact absurd hlow (Nat.not_le.mpr hlt)
  · exact hf

/-- **Where the page of an entry comes from.** -/
theorem Change.before (h : Counts s) (hch : Change U K S s s') {d i : Nat} {f : Frame} {rw b : Bool}
    (hd16 : TASK_TABLES ≤ d) (hp : s'.entry d i = .page f rw b) : Before S s s' d i f rw := by
  have hset : ∀ {d}, s.dir d ≠ none → ∀ i e d' j,
      (s.setEntry d i e).entry d' j = if d' = d ∧ j = i then e else s.entry d' j :=
    fun hd => h.tables.entry_setEntry hd
  have hsame : ∀ {b₀}, s.entry d i = .page f rw b₀ → s'.memMap f ≤ s.memMap f → Before S s s' d i f rw :=
    fun he hle => .old rw _ he .inl fun hone => by omega
  have htake : ∀ {g}, s.CanTake g → s.entry d i = .page f rw b → s'.memMap = (s.take g).memMap →
      Before S s s' d i f rw := by
    intro g hg he hmap
    refine .old rw b he .inl fun hone => ?_
    have hne : f ≠ g := by
      rintro rfl
      have := hg.2
      omega
    rw [hmap, memMap_take hg, Function.update_of_ne hne, hone]
  have hnew : ∀ {g}, s.kernel g → g = f → s'.memMap g = s.memMap g → Before S s s' d i f rw := by
    rintro g hk rfl hmap
    exact .new (h.tables.low.trans (h.tables.kernelManaged g hk).1) (hmap.trans (h.kernelOne g hk))
  cases hch with
  | take hf => exact htake hf (by rwa [h.entry_take hf] at hp) rfl
  | read n hf => exact htake hf ((congrFun (congrFun (h.entry_take hf) d) i).symm.trans hp) rfl
  | @table g d₀ hf hd hd16 hlt hu =>
      rw [h.entry_newTable hf hd] at hp
      exact htake hf hp rfl
  | @release g hk hK =>
      have hless : Fewer (s.setKernel g false) (s.release g) := Fewer.freePage (s.setKernel g false) g
      exact hsame (hless.entry d i f rw b hp) (hless.memMap f)
  | fill p hk hK => exact hsame hp (Nat.le_refl _)
  | @map g d₀ i₀ rw₀ b₀ hk hK hd hd16₀ hi he hu =>
      change (s.setEntry d₀ i₀ (.page g rw₀ b₀)).entry d i = .page f rw b at hp
      rw [hset hd] at hp
      split at hp
      · exact hnew hk (Entry.page.inj hp).1 (congrFun (memMap_setEntry _ _ _ _) g)
      · exact hsame hp (Nat.le_of_eq (congrFun (memMap_setEntry _ _ _ _) f))
  | @swapIn g d₀ i₀ n hk hK hd16₀ he hu =>
      have hd : (s.swapFree n).dir d₀ ≠ none := by
        rw [dir_swapFree]
        exact dir_ne_none (by rw [he]; exact Entry.noConfusion)
      have hmap : ((s.swapFree n).setEntry d₀ i₀ (.page g true true)).memMap = s.memMap := by simp
      change ((s.swapFree n).setEntry d₀ i₀ (.page g true true)).entry d i = .page f rw b at hp
      rw [(h.swapFree n).tables.entry_setEntry hd, entry_swapFree] at hp
      split at hp
      · exact hnew hk (Entry.page.inj hp).1 (congrFun hmap g)
      · exact hsame hp (Nat.le_of_eq (congrFun hmap f))
  | @flags g d₀ i₀ rw₀ b₀ rw' b' hd16₀ he hrw =>
      rw [hset (dir_of_page he)] at hp
      split at hp
      · rename_i hc
        obtain ⟨rfl, rfl⟩ := hc
        obtain ⟨rfl, rfl, rfl⟩ := Entry.page.inj hp
        exact .old rw₀ b₀ he (fun htrue => .inr (hrw htrue)) fun hone => by rw [memMap_setEntry, hone]
      · exact hsame hp (by rw [memMap_setEntry])
  | @share g d₀ d' i₀ rw₀ b₀ hf hd hd16₀ hd16' he he' hplace hu hS =>
      have hd' : s.dir d' ≠ none := dir_of_page he'
      have hflags := h.setFlags false b₀ hd16' he'
      change ((s.setEntry d' i₀ (.page g false b₀)).setEntry d₀ i₀ (.page g false b₀)).entry d i = .page f rw b at hp
      rw [hflags.tables.entry_setEntry (by rwa [dir_setEntry]), hset hd'] at hp
      split at hp
      · rename_i hc
        obtain ⟨rfl, rfl⟩ := hc
        exact .shared ⟨d', .inl hS⟩ (Entry.page.inj hp).2.1.symm
      · split at hp
        · rename_i hc
          obtain ⟨rfl, rfl⟩ := hc
          exact .shared ⟨d₀, .inr hS⟩ (Entry.page.inj hp).2.1.symm
        · rename_i hc
          -- a page with one reference is not the one that is shared
          refine .old rw b hp .inl fun hone => ?_
          have hne : f ≠ g := by
            rintro rfl
            exact hc (h.sole hd16 hd16' hf hone hp he')
          have hmap : (((s.setEntry d' i₀ (.page g false b₀)).setEntry d₀ i₀ (.page g false b₀)).share g).memMap f =
              ((s.setEntry d' i₀ (.page g false b₀)).setEntry d₀ i₀ (.page g false b₀)).memMap f := if_neg hne
          rw [hmap, memMap_setEntry, memMap_setEntry, hone]
  | @low g d₀ i₀ b₀ hf hd hd16₀ hi he hu hS =>
      rw [hset hd] at hp
      split at hp
      · rename_i hc
        obtain ⟨rfl, rfl⟩ := hc
        exact .shared (hS.imp fun d' hS => .inl hS) (Entry.page.inj hp).2.1.symm
      · exact hsame hp (by rw [memMap_setEntry])
  | @copy g g' d₀ i₀ rw₀ b₀ hk hK hd16₀ he =>
      have hfree := Fewer.freePage (((s.setData g' (s.data g)).setEntry d₀ i₀ (.page g' true b₀)).setKernel g' false) g
      have hmap : ((s.setData g' (s.data g)).setEntry d₀ i₀ (.page g' true b₀)).memMap = s.memMap :=
        memMap_setEntry _ _ _ _
      have hset' := (h.setData g' (s.data g)).tables.entry_setEntry (dir_of_page he) i₀ (.page g' true b₀)
      have hp := (hset' d i).symm.trans (hfree.entry d i f rw b hp)
      split at hp
      · -- the old page is another one, so that its counter does not matter
        have hne : g' ≠ g := by
          rintro rfl
          exact h.kernel_not_entry hk hd16₀ he
        exact hnew hk (Entry.page.inj hp).1 ((memMap_freePage_ne _ hne).trans (congrFun hmap g'))
      · exact hsame hp ((hfree.memMap f).trans (Nat.le_of_eq (congrFun hmap f)))
  | @move g d₀ d' i₀ n hk hK hd hd16₀ hd16' hne he he' hu hu' =>
      have hi : i₀ < 1024 := h.tables.index_lt (by rw [he]; exact Entry.noConfusion)
      have hslot := h.setSlot hd hd16' hi he' n
      have hd₀ : (s.setEntry d' i₀ (.swap n)).dir d₀ ≠ none := by
        rw [dir_setEntry]
        exact dir_ne_none (by rw [he]; exact Entry.noConfusion)
      have hmap : ((s.setEntry d' i₀ (.swap n)).setEntry d₀ i₀ (.page g true true)).memMap = s.memMap := by simp
      change ((s.setEntry d' i₀ (.swap n)).setEntry d₀ i₀ (.page g true true)).entry d i = .page f rw b at hp
      rw [hslot.tables.entry_setEntry hd₀, hset hd] at hp
      split at hp
      · exact hnew hk (Entry.page.inj hp).1 (congrFun hmap g)
      · split at hp
        · cases hp
        · exact hsame hp (Nat.le_of_eq (congrFun hmap f))
  | clear d₀ n hd16₀ hu =>
      have hless := Fewer.freePageTables h n hd16₀
      exact hsame (hless.entry d i f rw b hp) (hless.memMap f)
  | @swapOut d₀ i₀ _ hd16₀ hs =>
      obtain ⟨g, rw₀, b₀, he, -, ⟨-, n, -, rfl⟩ | rfl⟩ := swapOut_cases hs
      · have hless := Fewer.setEntry (h.congr rfl rfl rfl rfl rfl rfl rfl : Counts (s.setFree n false)).tables d₀ i₀
          (e := .swap n) rfl
        exact hsame (hless.entry d i f rw b hp) (hless.memMap f)
      · have hless := (Fewer.setEntry h.tables d₀ i₀ (e := .none) rfl).trans (Fewer.freePage _ g)
        exact hsame (hless.entry d i f rw b hp) (hless.memMap f)
  | complete hs =>
      rcases complete_cases hs with ⟨n, g, q, -, rfl⟩ | ⟨n, g, q, -, rfl⟩
      · exact hsame hp (Nat.le_refl _)
      · exact hsame hp (Nat.le_refl _)
  | @store g d₀ i₀ rw₀ b₀ o x hd16₀ he =>
      change (s.setEntry d₀ i₀ (.page g rw₀ true)).entry d i = .page f rw b at hp
      have hle : (s.setEntry d₀ i₀ (.page g rw₀ true)).memMap f ≤ s.memMap f := by rw [memMap_setEntry]
      rw [hset (dir_of_page he)] at hp
      split at hp
      · rename_i hc
        obtain ⟨rfl, rfl⟩ := hc
        obtain ⟨rfl, rfl, rfl⟩ := Entry.page.inj hp
        exact hsame he hle
      · exact hsame hp hle

/-! ## Pages with one reference -/

/-- A page that a task may write belongs to one entry. -/
def Writable (s : Paging) : Prop :=
  ∀ d i f b, TASK_TABLES ≤ d → s.entry d i = .page f true b → LOW_MEM ≤ f ∧ s.memMap f = 1

/-- The page of entry `i` of table `d`, if any, belongs to that entry. -/
def Private (s : Paging) (d i : Nat) : Prop :=
  ∀ f rw b, s.entry d i = .page f rw b → LOW_MEM ≤ f ∧ s.memMap f = 1

/-- The counter of a page that a task maps is not zero. -/
theorem Counts.mapped (h : Counts s) {d i : Nat} {f : Frame} {rw b : Bool} (hd : TASK_TABLES ≤ d)
    (he : s.entry d i = .page f rw b) (hlow : LOW_MEM ≤ f) : 0 < s.memMap f :=
  h.counted.pos (h.tables.managed hd he hlow) (target_entry hd he)

theorem Writable.change (hw : Writable s) (h : Counts s) (hch : Change U K S s s') : Writable s' := by
  intro d i f b hd hp
  cases hch.before h hd hp with
  | old rw₀ b₀ he hrw hm =>
      have hone : LOW_MEM ≤ f ∧ s.memMap f = 1 := by
        rcases hrw rfl with rfl | hone
        · exact hw d i f b₀ hd he
        · exact hone
      have hpos := (h.change hch).mapped hd hp hone.1
      have hle := hm hone.2
      exact ⟨hone.1, by omega⟩
  | new hlow hm => exact ⟨hlow, hm⟩
  | shared hS hrw => cases hrw

theorem Private.change {d i : Nat} (hpriv : Private s d i) (h : Counts s) (hch : Change U K S s s')
    (hd : TASK_TABLES ≤ d) (hS : ∀ d', ¬S d d' i ∧ ¬S d' d i) : Private s' d i := by
  intro f rw b hp
  cases hch.before h hd hp with
  | old rw₀ b₀ he hrw hm =>
      obtain ⟨hlow, hone⟩ := hpriv f rw₀ b₀ he
      have hpos := (h.change hch).mapped hd hp hlow
      have hle := hm hone
      exact ⟨hlow, by omega⟩
  | new hlow hm => exact ⟨hlow, hm⟩
  | shared hshare hrw =>
      obtain ⟨d', hd' | hd'⟩ := hshare
      · exact absurd hd' (hS d').1
      · exact absurd hd' (hS d').2

theorem Writable.changes (hw : Writable s) (h : Counts s) (hch : ReflTransGen (Change U K S) s s') : Writable s' := by
  induction hch with
  | refl => exact hw
  | tail hfirst hlast ih => exact ih.change (Changes.counts hfirst h) hlast

theorem Private.changes {d i : Nat} (hpriv : Private s d i) (h : Counts s) (hch : ReflTransGen (Change U K S) s s')
    (hd : TASK_TABLES ≤ d) (hS : ∀ d', ¬S d d' i ∧ ¬S d' d i) : Private s' d i := by
  induction hch with
  | refl => exact hpriv
  | tail hfirst hlast ih => exact ih.change (Changes.counts hfirst h) hlast hd hS

/-! ## Runs -/

variable {loads : Task → Nat → Page → Prop} {c c' : Config} {e : Event}

/-- `try_to_share` leaves the pages alone for which `verify_area` has been called. -/
def Clear (c : Config) : Event → Prop
  | .shared t v p => c.verified t v = false ∧ c.verified p v = false
  | _ => True

/-- A run in which it does so all the time. -/
def ClearRun (loads : Task → Nat → Page → Prop) : Config → Config → Prop :=
  ReflTransGen fun c c' => ∃ e, Step loads c e c' ∧ Clear c e

theorem entry_setEntry_self (s : Paging) {d : Nat} (hd : s.dir d ≠ none) (i : Nat) (e : Entry) :
    (s.setEntry d i e).entry d i = e := by
  obtain ⟨T, hT⟩ := Option.ne_none_iff_exists'.mp hd
  rw [setEntry_of_dir s hT, entry_of_dir (s.setTable T i e) hT]
  exact if_pos ⟨rfl, rfl⟩

theorem entry_unWpDone (c : Config) (t v : Nat) (new : Option Frame) (ver : Bool) (s : Paging) :
    (c.unWpDone t v new ver s).mem.entry = s.entry := by
  cases new with
  | none => rw [unWpDone_none]
  | some g =>
      rw [unWpDone_some]
      exact entry_freePage (s.setKernel g false) g

theorem verified_setVerified (c : Config) (t : Nat) (g : Nat → Bool) (u x : Nat) :
    (c.setVerified t g).verified u x = if u = t then g x else c.verified u x := by
  show (if u = t then g else c.verified u) x = _
  split <;> rfl

/-- What `verify_area` has added. -/
theorem verified_or {t v u x : Nat}
    (hv : (c.setVerified t fun x => x = v || c.verified t x).verified u x = true) :
    c.verified u x = true ∨ u = t ∧ x = v := by
  rw [verified_setVerified] at hv
  split at hv
  · rename_i hu
    rcases Bool.or_eq_true_iff.mp hv with hx | hold
    · exact .inr ⟨hu, by simpa using hx⟩
    · exact .inl (by rwa [hu])
  · exact .inl hv

/-- `un_wp_page` leaves a page that is writable, or none. -/
theorem verified_unWpDone {t v u x : Nat} {new : Option Frame} {ver : Bool} {s : Paging}
    (hat : ∀ f b, s.at t v ≠ .page f false b) (hv : (c.unWpDone t v new ver s).verified u x = true) :
    c.verified u x = true ∨ (c.unWpDone t v new ver s).procs u = .user ∧
      ∀ f b, (c.unWpDone t v new ver s).mem.at u x ≠ .page f false b := by
  have hentry : (c.unWpDone t v new ver s).mem.at t v = s.at t v := by
    unfold Paging.at
    rw [entry_unWpDone]
  cases ver with
  | false => exact .inl hv
  | true =>
      have hor : (c.setVerified t fun x => x = v || c.verified t x).verified u x = true := hv
      rcases verified_or hor with hold | ⟨rfl, rfl⟩
      · exact .inl hold
      · refine .inr ⟨if_pos rfl, ?_⟩
        rw [hentry]
        exact hat

theorem setVerified_false {t u x : Nat} (hv : (c.setVerified t fun _ => false).verified u x = true) :
    c.verified u x = true := by
  rw [verified_setVerified] at hv
  split at hv
  · cases hv
  · exact hv

/-- A page that becomes verified is writable, or absent. -/
theorem Step.verified_new (hs : Step loads c e c') {u x : Nat} (hv : c'.verified u x = true) :
    c.verified u x = true ∨ c'.procs u = .user ∧ ∀ f b, c'.mem.at u x ≠ .page f false b := by
  cases hs with
  | unWpGone hp he => exact verified_unWpDone (fun f b => he f false b) hv
  | @unWpAlone t v new ver rw d f hp he hf hm =>
      refine verified_unWpDone (fun g b hg => ?_) hv
      have hset : (c.mem.setAt t v (.page f true d)).at t v = .page f true d :=
        entry_setEntry_self c.mem (dir_of_page he) _ _
      rw [hset] at hg
      cases hg
  | @unWpCopy t v ver rw d f g hp he hf =>
      refine verified_unWpDone (fun g' b hg => ?_) hv
      have hset : ((c.mem.setData g (c.mem.data f)).setAt t v (.page g true d)).at t v = .page g true d :=
        entry_setEntry_self (c.mem.setData g (c.mem.data f)) (dir_of_page he) _ _
      unfold Paging.at at hg
      rw [entry_freePage] at hg
      cases hset.symm.trans hg
  | @verified t v ht hp hlt he =>
      rcases verified_or hv with hold | ⟨rfl, rfl⟩
      · exact .inl hold
      · exact .inr ⟨hp, he⟩
  | fork hp hn hn0 hfree => exact .inl (setVerified_false (setVerified_false hv))
  | exit ht hp => exact .inl (setVerified_false hv)
  | exec ht hp => exact .inl (setVerified_false hv)
  | useLib lib ht hp hk => exact .inl (setVerified_false hv)
  | leave hp => exact .inl (setVerified_false hv)
  | _ => exact .inl hv

/-- A task begins to make a child with a copy of what it is, and not in the middle of a system call. -/
theorem Step.making_cases (hs : Step loads c e c') {t n : Nat} (hm : (c'.procs t).making = some n) :
    (c.procs t).making = some n ∨ (c.procs t = .user ∧ c.procs n = .none ∧ c'.tasks n = c.tasks t ∧
      ∀ v, c'.verified t v = false ∧ c'.verified n v = false) := by
  -- a task that goes on to `q` makes a child only if `q` says so
  have hgo : ∀ {a q}, (if t = a then q else c.procs t).making = some n →
      (q.making = none ∨ q.making = (c.procs a).making) →
      (c.procs t).making = some n ∨ (c.procs t = .user ∧ c.procs n = .none ∧ c'.tasks n = c.tasks t ∧
        ∀ v, c'.verified t v = false ∧ c'.verified n v = false) := by
    intro a q hq hmaking
    split at hq
    · rename_i ht
      rcases hmaking with hnone | hsame
      · rw [hnone] at hq
        cases hq
      · rw [ht, ← hsame]
        exact .inl hq
    · exact .inl hq
  cases hs with
  | fault | faultSwap | faultDir | faultNone | swapIn | empty | load | loaded | put | putDir | putFail | share |
      shareDir
  | shareLate | wpFault | writeVerify | unWpTake | exit | exec | argsTake | argsFree | argsFail | argsDone | putArg
  | putArgDir | putArgFail | execDone | useLib => exact hgo hm (.inl rfl)
  | forkSkip hp | forkTable hp | forkNone hp | forkPage hp | forkSwap hp | forkSwapped hp | forkNext hp =>
      exact hgo hm (.inr (by rw [hp]; rfl))
  | @unWpGone a v new ver | @unWpAlone a v new ver | @unWpCopy a v ver =>
      cases ver with
      | false => exact hgo hm (.inl rfl)
      | true => exact hgo hm (.inl rfl)
  | @fork a n' hp hn hn0 hfree =>
      have hm : (if t = a then Proc.fork n' 0 none else if t = n' then .child else c.procs t).making = some n := hm
      split at hm
      · rename_i ht
        obtain rfl := Option.some.inj hm
        subst ht
        refine .inr ⟨hp, hfree, if_pos rfl, fun v => ?_⟩
        rw [verified_setVerified, verified_setVerified, verified_setVerified, if_pos rfl]
        refine ⟨?_, if_pos rfl⟩
        split <;> rfl
      · split at hm
        · cases hm
        · exact .inl hm
  | @forkDone a n' k hp hk =>
      have hm : (if t = n' then .user else if t = a then .user else c.procs t).making = some n := hm
      split at hm
      · cases hm
      · exact hgo hm (.inl rfl)
  | @forkFail a n' k i hp =>
      have hm : (if t = n' then .none else if t = a then .user else c.procs t).making = some n := hm
      split at hm
      · cases hm
      · exact hgo hm (.inl rfl)
  | verified | argsInode | swapOut | complete | kernelTake | kernelFree | store | kstore | leave => exact .inl hm

/-- A task that begins to make a child is not in the middle of a system call. -/
theorem Step.making_new (hs : Step loads c e c') {t n : Nat} (hm : (c'.procs t).making = some n) :
    (c.procs t).making = some n ∨ ∀ v, c'.verified t v = false ∧ c'.verified n v = false :=
  (hs.making_cases hm).imp_right fun h => h.2.2.2

/-- **Verified pages are private.** -/
structure Safe (ok : Nat → Prop) (c : Config) : Prop where
  swaps : Swaps ok c
  writable : Writable c.mem
  priv : ∀ t v, t ≠ 0 → v < 1024 * TASK_TABLES → c.verified t v = true → Private c.mem (dirOf t v) (v % 1024)
  making : ∀ t n v, (c.procs t).making = some n → c.verified t v = false ∧ c.verified n v = false

theorem Safe.step {ok : Nat → Prop} (h : Safe ok c) (hs : Step loads c e c') (hclear : Clear c e) : Safe ok c' := by
  have hcounts := h.swaps.inv.counts
  obtain ⟨U, K, hch⟩ := hs.changes h.swaps.inv
  have hswaps : Swaps ok c' := h.swaps.step hs
  have hwritable : Writable c'.mem := h.writable.changes hcounts hch
  -- an entry that comes to share a page is not a verified one
  have hnot : ∀ u v d', v < 1024 * TASK_TABLES → c.verified u v = true →
      ¬c.shares e (dirOf u v) d' (v % 1024) ∧ ¬c.shares e d' (dirOf u v) (v % 1024) := by
    intro u v d' hv hver
    have hplace : ∀ {t w}, w < 1024 * TASK_TABLES → dirOf u v = dirOf t w → v % 1024 = w % 1024 → u = t ∧ v = w := by
      intro t w hw hd hi
      have hu : u = t := by rw [← dirOf_div (t := u) hv, hd, dirOf_div hw]
      subst hu
      exact ⟨rfl, place_inj hd hi⟩
    constructor
    · rintro (⟨t, w, p, rfl, hw, hd, -, hi⟩ | ⟨t, n, hm, hn, -⟩)
      · obtain ⟨rfl, rfl⟩ := hplace hw hd hi
        rw [hclear.1] at hver
        cases hver
      · rw [dirOf_div hv] at hn
        subst hn
        rw [(h.making t u v hm).2] at hver
        cases hver
    · rintro (⟨t, w, p, rfl, hw, -, hd, hi⟩ | ⟨t, n, hm, -, ht⟩)
      · obtain ⟨rfl, rfl⟩ := hplace hw hd hi
        rw [hclear.2] at hver
        cases hver
      · rw [dirOf_div hv] at ht
        subst ht
        rw [(h.making u n v hm).1] at hver
        cases hver
  refine ⟨hswaps, hwritable, fun u v hu hv hver => ?_, fun t n v hm => ?_⟩
  · rcases hs.verified_new hver with hold | ⟨-, hpage⟩
    · exact (h.priv u v hu hv hold).changes hcounts hch (dirOf_ge hu) fun d' => hnot u v d' hv hold
    · intro f rw b he
      cases rw with
      | true => exact hwritable _ _ f b (dirOf_ge hu) he
      | false => exact absurd he (hpage f b)
  · rcases hs.making_new hm with hold | hnew
    · have hstay : ∀ u, c'.procs u ≠ .user → c.verified u v = false → c'.verified u v = false := by
        intro u hu hfalse
        by_contra htrue
        rcases hs.verified_new (by simpa using htrue) with hold | ⟨huser, -⟩
        · rw [hfalse] at hold
          cases hold
        · exact hu huser
      obtain ⟨ht, hn⟩ := h.making t n v hold
      refine ⟨hstay t ?_ ht, hstay n ?_ hn⟩
      · intro huser
        rw [huser] at hm
        cases hm
      · rw [(hswaps.inv.child t n hm).1]
        exact Proc.noConfusion
    · exact hnew v

theorem data_setAt (s : Paging) (t v : Nat) (e : Entry) : (s.setAt t v e).data = s.data := data_setEntry _ _ _ _

theorem data_setByte (s : Paging) (t v : Nat) (e : Entry) (f : Frame) (o : Nat) (b : Byte) :
    ((s.setAt t v e).setByte f o b).data = (s.setData f fun x => if x = o then b else s.data f x).data := by
  unfold Paging.setByte Paging.setData
  simp only [data_setAt]

theorem data_unWpDone (c : Config) (t v : Nat) (new : Option Frame) (ver : Bool) (s : Paging) :
    (c.unWpDone t v new ver s).mem.data = s.data := by
  cases new with
  | none => rw [unWpDone_none]
  | some g =>
      rw [unWpDone_some]
      exact data_freePage (s.setKernel g false) g

/-- The bytes that a step stores for task `t`, in a page that the task may write or that is verified. -/
def Stores (c : Config) (e : Event) (t : Nat) (f : Frame) : Prop :=
  ∃ v o x rw b, (e = .store t v o x ∧ rw = true ∨ e = .kstore t v o x ∧ c.verified t v = true) ∧ t ≠ 0 ∧
    v < 1024 * (c.tasks t).tables ∧ c.mem.at t v = .page f rw b

/-- The pages that a step may write. -/
def Written (c : Config) (e : Event) (f : Frame) : Prop :=
  c.mem.CanTake f ∨ (∃ t, Stores c e t f) ∨ (∃ n, .read n f ∈ c.mem.queue) ∨
    (∃ t v, c.procs t = .load v f) ∨ ∃ t v ver, c.procs t = .unWp v (some f) ver

/-- **What a step writes**: a page that was free, one that a task stores in, one that is read or copied into. -/
theorem Step.writes (hs : Step loads c e c') (f : Frame) : c'.mem.data f = c.mem.data f ∨ Written c e f := by
  -- a page that is written is `g`, and the others are as they were
  have hone : ∀ {g : Frame} {p : Page}, Written c e g → c'.mem.data = (c.mem.setData g p).data →
      c'.mem.data f = c.mem.data f ∨ Written c e f := by
    intro g p hg hdata
    by_cases hf : f = g
    · subst hf
      exact .inr hg
    · rw [hdata]
      exact .inl (if_neg hf)
  have hsame : c'.mem.data = c.mem.data → c'.mem.data f = c.mem.data f ∨ Written c e f :=
    fun hdata => .inl (congrFun hdata f)
  cases hs with
  | fault | faultNone | wpFault | writeVerify | verified | fork | forkSkip | forkNone | forkNext | forkDone | exec |
      argsFail
  | argsInode | putArgFail | execDone | leave => exact hsame rfl
  | faultSwap _ _ hf | faultDir _ _ hf | empty _ _ hf | load _ _ hf | putDir _ _ _ hf | shareDir _ _ _ _ _ _ hf
  | unWpTake _ _ _ hf | forkTable _ _ _ hf | forkSwap _ _ _ hf | argsTake _ _ _ hf | putArgDir _ _ hf | kernelTake hf =>
      exact hone (.inl hf) rfl
  | swapIn | put | forkSwapped | putArg | share | shareLate =>
      exact hsame (by simp [Config.goto, Paging.setAt, Paging.setKernel, Paging.shareWith, Paging.share, Paging.setMap])
  | @loaded t v g pg hp hl => exact hone (.inr (.inr (.inr (.inl ⟨t, v, hp⟩)))) rfl
  | putFail | argsFree | kernelFree => exact hsame (data_freePage _ _)
  | unWpGone => exact hsame (data_unWpDone _ _ _ _ _ _)
  | unWpAlone => exact hsame ((data_unWpDone _ _ _ _ _ _).trans (data_setAt _ _ _ _))
  | @unWpCopy t v ver rw d g g' hp he hf =>
      refine hone (p := c.mem.data g) (.inr (.inr (.inr (.inr ⟨t, v, ver, hp⟩)))) ?_
      rw [data_unWpDone, data_freePage]
      exact data_setAt _ _ _ _
  | @forkPage t n k i g rw d hp hi he =>
      refine hsame ?_
      show (if g < LOW_MEM then _ else _ : Paging).data = _
      split
      · exact data_setEntry _ _ _ _
      · exact (data_setEntry _ _ _ _).trans (data_setEntry _ _ _ _)
  | forkFail | exit | argsDone | useLib => exact hsame (untouched_freePageTables _ _ _).data
  | swapOut hd hi hs =>
      obtain ⟨g, rw, b, he, -, ⟨-, n, -, rfl⟩ | rfl⟩ := swapOut_cases hs
      · exact hsame (data_setEntry _ _ _ _)
      · exact hsame ((data_freePage _ _).trans (data_setEntry _ _ _ _))
  | complete hs =>
      rcases complete_cases hs with ⟨n, g, q, -, rfl⟩ | ⟨n, g, q, hq, rfl⟩
      · exact hsame rfl
      · have hmem : Req.read n g ∈ c.mem.queue := by
          rw [hq]
          exact List.mem_cons_self
        exact hone (.inr (.inr (.inl ⟨n, hmem⟩))) rfl
  | @store t v o g d b ht hp hv ho he =>
      exact hone (.inr (.inl ⟨t, v, o, b, true, d, .inl ⟨rfl, rfl⟩, ht, hv, he⟩)) (data_setByte _ _ _ _ _ _ _)
  | @kstore t v o g rw d b ht hp hv ho hver he =>
      exact hone (.inr (.inl ⟨t, v, o, b, rw, d, .inr ⟨rfl, hver⟩, ht, hv, he⟩)) (data_setByte _ _ _ _ _ _ _)

/-- Whatever is written that no task stores in was free, or the kernel holds it. -/
theorem Step.data {ok : Nat → Prop} (h : Swaps ok c) (hs : Step loads c e c') (f : Frame) :
    c'.mem.data f = c.mem.data f ∨ c.mem.CanTake f ∨ c.mem.kernel f = true ∨ ∃ t, Stores c e t f := by
  have hheld : ∀ t, f ∈ (c.procs t).frames → c.mem.kernel f = true := fun t hf => h.inv.held t f hf
  rcases hs.writes f with hsame | hfree | hstore | ⟨n, hread⟩ | ⟨t, v, hp⟩ | ⟨t, v, ver, hp⟩
  · exact .inl hsame
  · exact .inr (.inl hfree)
  · exact .inr (.inr (.inr hstore))
  · exact .inr (.inr (.inl (h.frame_kernel hread)))
  · exact .inr (.inr (.inl (hheld t (by rw [hp]; exact List.mem_singleton_self f))))
  · exact .inr (.inr (.inl (hheld t (by rw [hp]; exact List.mem_singleton_self f))))

/-- A task maps the page `g`; the first task maps the low memory. -/
def Config.Maps (c : Config) (u : Nat) (g : Frame) : Prop :=
  ∃ v rw b, v < (if u = 0 then copied 0 else 1024 * TASK_TABLES) ∧ c.mem.at u v = .page g rw b

/-- The first task maps the low memory only. -/
theorem Tables.first_low (h : Tables s) {v : Nat} {g : Frame} {rw b : Bool} (hv : v < copied 0)
    (he : s.at 0 v = .page g rw b) : g < LOW_MEM := by
  have hv : v < 0xA0 := hv
  have hplace : s.at 0 v = s.entry 0 v := by
    have hdir : dirOf 0 v = 0 := by
      unfold dirOf TASK_TABLES
      omega
    have hmod : v % 1024 = v := by omega
    unfold Paging.at
    rw [hdir, hmod]
  rw [hplace] at he
  rcases h.first v hv with hnone | ⟨f, rw', b', hf, hpage⟩
  · rw [he] at hnone
    cases hnone
  · rw [he] at hpage
    rw [(Entry.page.inj hpage).1]
    exact hf

theorem Config.Maps.low (h : Tables c.mem) {g : Frame} (hmap : c.Maps 0 g) : g < LOW_MEM := by
  obtain ⟨v, rw, b, hv, he⟩ := hmap
  exact h.first_low hv he

/-- A managed page that is mapped is in use. -/
theorem Config.Maps.used (h : Counts c.mem) {u : Nat} {g : Frame} (hmap : c.Maps u g) (hg : c.mem.Managed g) :
    0 < c.mem.memMap g ∧ c.mem.kernel g = false := by
  by_cases hu : u = 0
  · subst hu
    exact absurd (hmap.low h.tables) (Nat.not_lt.mpr (h.tables.low.trans hg.1))
  · obtain ⟨v, rw, b, -, he⟩ := hmap
    refine ⟨h.counted.pos hg (target_entry (dirOf_ge hu) he), ?_⟩
    cases hk : c.mem.kernel g with
    | false => rfl
    | true => exact absurd he (h.kernel_not_entry hk (dirOf_ge hu))

theorem Start.safe (h : Start c) : Safe c.slots c := by
  refine ⟨h.swaps, fun d i f b hd he => ?_, fun t v _ _ hver => ?_, fun t n v hm => ?_⟩
  · rw [entry_of_no_dir _ (h.dirs d hd)] at he
    cases he
  · rw [h.verified] at hver
    cases hver
  · exact ⟨h.verified t v, h.verified n v⟩

theorem ClearRun.safe {c₀ : Config} (hstart : Start c₀) (hrun : ClearRun loads c₀ c) : Safe c₀.slots c := by
  induction hrun with
  | refl => exact hstart.safe
  | tail _ hstep ih =>
      obtain ⟨e, hstep, hclear⟩ := hstep
      exact ih.step hstep hclear

/-- A page that a step stores in for one task is not mapped by another one. -/
theorem Safe.apart {ok : Nat → Prop} (h : Safe ok c) {t u : Nat} {f : Frame} (hs : Stores c e t f) (hut : u ≠ t) :
    ¬c.Maps u f := by
  intro hmap
  obtain ⟨v, o, x, rw, b, hcase, ht, hv, he⟩ := hs
  have hv : v < 1024 * TASK_TABLES := by
    have hle := h.swaps.inv.tables t
    omega
  have hone : LOW_MEM ≤ f ∧ c.mem.memMap f = 1 := by
    rcases hcase with ⟨-, rfl⟩ | ⟨-, hver⟩
    · exact h.writable _ _ f b (dirOf_ge ht) he
    · exact h.priv t v ht hv hver f rw b he
  by_cases hu : u = 0
  · subst hu
    exact absurd (hmap.low h.swaps.inv.counts.tables) (Nat.not_lt.mpr hone.1)
  · obtain ⟨w, rw', b', hw, hmap⟩ := hmap
    rw [if_neg hu] at hw
    have hf := h.swaps.inv.counts.tables.managed (dirOf_ge ht) he hone.1
    have hplace := h.swaps.inv.counts.sole (dirOf_ge hu) (dirOf_ge ht) hf hone.2 hmap he
    refine hut ?_
    rw [← dirOf_div (t := u) hw, hplace.1, dirOf_div hv]

theorem ClearRun.run {c₀ : Config} (h : ClearRun loads c₀ c) : Run loads c₀ c := by
  induction h with
  | refl => exact .refl
  | tail _ hstep ih =>
      obtain ⟨e, hstep, -⟩ := hstep
      exact ih.tail ⟨e, hstep⟩

theorem ClearRun.step {c₀ : Config} (h : ClearRun loads c₀ c) (hs : Step loads c e c') (hclear : Clear c e) :
    ClearRun loads c₀ c' := h.tail ⟨e, hs, hclear⟩

/-- A program that has one page. -/
def program : Task := { executable := some 7, library := none, endData := 4096, tables := TASK_TABLES }

/-- A step in which no page is shared, stored in or read from a file, and `exec` is of that program. -/
structure Ordinary (c : Config) (e : Event) (c' : Config) : Prop where
  event : e = .quiet ∨ (∃ t n, e = .forked t n) ∨ ∃ t, e = .cleared t ∧ c'.tasks t = program
  /-- No `exec` fails. -/
  succeeds : ∀ t, c.procs t = .args [] → c'.procs t ≠ .user

/-- A kind of steps that has the ordinary ones. -/
abbrev Allows (loads : Task → Nat → Page → Prop) (R : Config → Config → Prop) : Prop :=
  ∀ {c c' : Config} {e : Event}, Step loads c e c' → Ordinary c e c' → R c c'

/-- What can come of the start by steps of a kind `R`, when no task is in `exec`. -/
structure FromBoot (R : Config → Config → Prop) (c : Config) : Prop where
  run : ReflTransGen R boot c
  inv : Inv c
  calm : ∀ t pages, c.procs t ≠ .args pages

section Booting

variable {R : Config → Config → Prop}

theorem calm_if {procs : Nat → Proc} (h : ∀ t pages, procs t ≠ .args pages) {q : Proc} (hq : ∀ pages, q ≠ .args pages)
    (a t : Nat) (pages : List (Nat × Frame)) : (if t = a then q else procs t) ≠ .args pages := by
  split
  · exact hq pages
  · exact h t pages

theorem FromBoot.step (h : FromBoot R c) (hR : Allows loads R) (hs : Step loads c e c')
    (he : e = .quiet ∨ ∃ t n, e = .forked t n) (hcalm : ∀ t pages, c'.procs t ≠ .args pages) : FromBoot R c' := by
  have hord : Ordinary c e c' := ⟨he.imp_right .inl, fun t ht => absurd ht (h.calm t [])⟩
  exact ⟨h.run.tail (hR hs hord), h.inv.step hs, hcalm⟩

theorem Paging.CanTake.other {f g : Frame} (h : s.CanTake g) (hne : g ≠ f) : (s.take f).CanTake g :=
  ⟨h.1, (if_neg hne).trans h.2⟩

/-- The first task has copied `i` entries of its page table for the second one. -/
structure Forking (R : Config → Config → Prop) (c : Config) (i : Nat) : Prop extends FromBoot R c where
  parent : c.procs 0 = .fork 1 0 (some i)
  child : c.procs 1 = .child
  third : c.procs 2 = .none
  tasks : c.tasks = boot.tasks
  table : c.mem.dir 16 ≠ none
  first : ∀ x < 0xA0, c.mem.entry 0 x = .page x true false
  copied : ∀ x < i, c.mem.entry 16 x = .page x false false
  free : ∀ f : Nat, 0x100 ≤ f → f < 0x120 → c.mem.CanTake f

variable (hR : Allows loads R)

include hR

theorem forking_start : ∃ c, Forking R c 0 := by
  have hfree : ∀ f : Nat, 0x100 ≤ f → f ≤ 0x120 → boot.mem.CanTake f := by
    intro f hlow hhigh
    refine ⟨⟨hlow, Nat.lt_of_le_of_lt hhigh (by decide)⟩, if_neg ?_⟩
    rintro (hlt | hge)
    · exact absurd hlow (Nat.not_le.mpr hlt)
    · exact absurd (Nat.le_trans hge hhigh) (by decide)
  have hcalm : ∀ t pages, boot.procs t ≠ .args pages := by
    intro t pages
    show (if t = 0 then Proc.user else .none) ≠ _
    split <;> exact Proc.noConfusion
  have hstart : FromBoot R boot := ⟨.refl, boot_start.inv, hcalm⟩
  have hcalm₁ := calm_if (calm_if hcalm (q := .child) (fun _ => Proc.noConfusion) 1) (q := .fork 1 0 none)
    (fun _ => Proc.noConfusion) 0
  have hrun := hstart.step hR (.fork (t := 0) (n := 1) rfl (by decide) (by decide) rfl) (.inl rfl) hcalm₁
  refine ⟨_, hrun.step hR (.forkTable (t := 0) (n := 1) (k := 0) (f := 0x120) rfl (by decide) (by decide)
    (hfree _ (by decide) (by decide))) (.inl rfl) (calm_if hrun.calm (fun _ => Proc.noConfusion) 0), rfl, rfl, rfl, ?_,
    ?_, ?_, ?_, ?_⟩
  · funext t
    show (if t = 1 then boot.tasks 0 else boot.tasks t) = _
    split <;> rfl
  · exact Option.some_ne_none _
  · intro x hx
    have hcounts := boot_start.inv.counts
    exact (congrFun (congrFun (hcounts.entry_newTable (hfree 0x120 (by decide) (by decide)) rfl) 0) x).trans
      (if_pos ⟨rfl, Nat.lt_trans hx (by decide)⟩)
  · exact fun x hx => absurd hx (Nat.not_lt_zero x)
  · intro f hlow hhigh
    have hf := hfree f hlow (Nat.le_of_lt hhigh)
    exact ⟨hf.1, (if_neg (Nat.ne_of_lt hhigh)).trans hf.2⟩

theorem Forking.next {c : Config} {i : Nat} (h : Forking R c i) (hi : i < 0xA0) : ∃ c', Forking R c' (i + 1) := by
  have hlow : i < LOW_MEM := Nat.lt_trans hi (by decide)
  have hset := h.inv.counts.tables.entry_setEntry h.table i (.page i false false)
  have hstep : Step loads c .quiet _ := .forkPage (n := 1) h.parent hi (h.first i hi)
  simp only [if_pos hlow] at hstep
  refine ⟨_, h.toFromBoot.step hR hstep (.inl rfl) (calm_if h.calm (fun _ => Proc.noConfusion) 0), rfl, h.child,
    h.third, h.tasks, ?_, fun x hx => ?_, fun x hx => ?_, fun f hf hf' => ?_⟩
  · exact fun hd => h.table ((congrFun (dir_setEntry _ _ _ _) 16).symm.trans hd)
  · refine (hset 0 x).trans ((if_neg fun hc => ?_).trans (h.first x hx))
    exact absurd hc.1 (by decide)
  · refine (hset 16 x).trans ?_
    split
    · rename_i hc
      rw [hc.2]
    · rename_i hc
      have hne : x ≠ i := fun heq => hc ⟨rfl, heq⟩
      exact h.copied x (by omega)
  · obtain ⟨hmanaged, hzero⟩ := h.free f hf hf'
    have hsame := untouched_setEntry c.mem 16 i (.page i false false)
    exact ⟨(congrFun hsame.managed f).mpr hmanaged, (congrFun (memMap_setEntry _ _ _ _) f).trans hzero⟩

theorem forking_done : ∃ c, Forking R c 0xA0 := by
  have hall : ∀ i ≤ 0xA0, ∃ c, Forking R c i := by
    intro i
    induction i with
    | zero => exact fun _ => forking_start hR
    | succ i ih =>
        intro hi
        obtain ⟨c, hc⟩ := ih (Nat.le_of_lt hi)
        exact hc.next hR hi
  exact hall 0xA0 (Nat.le_refl _)

/-- The second task runs. -/
structure Forked (R : Config → Config → Prop) (c : Config) : Prop extends FromBoot R c where
  second : c.procs 1 = .user
  third : c.procs 2 = .none
  tasks : c.tasks = boot.tasks
  parent : c.mem.at 0 0 = .page 0 true false
  child : c.mem.at 1 0 = .page 0 false false
  free : ∀ f : Nat, 0x100 ≤ f → f < 0x120 → c.mem.CanTake f

theorem forked : ∃ c, Forked R c := by
  obtain ⟨c, h⟩ := forking_done hR
  have hnext : Step loads c .quiet _ := .forkNext (n := 1) h.parent (Nat.le_refl _)
  have hdone : Step loads (c.setProc 0 (.fork 1 1 none)) (.forked 0 1) _ :=
    .forkDone rfl (by
      show (c.tasks 0).tables ≤ 1
      rw [h.tasks]
      exact Nat.le_refl _)
  have hrun := h.toFromBoot.step hR hnext (.inl rfl) (calm_if h.calm (fun _ => Proc.noConfusion) 0)
  have hcalm := calm_if (calm_if hrun.calm (q := .user) (fun _ => Proc.noConfusion) 0) (q := .user)
    (fun _ => Proc.noConfusion) 1
  exact ⟨_, hrun.step hR hdone (.inr ⟨_, _, rfl⟩) hcalm, rfl, h.third, h.tasks, h.first 0 (by decide),
    h.copied 0 (by decide), h.free⟩

/-- The second task has called `exec`, and has made a third one. -/
structure Execed (R : Config → Config → Prop) (c : Config) : Prop extends FromBoot R c where
  second : c.procs 1 = .user
  third : c.procs 2 = .user
  program₁ : c.tasks 1 = program
  program₂ : c.tasks 2 = program
  dir₁ : c.mem.dir 16 = none
  dir₂ : c.mem.dir 32 = none
  free : ∀ f : Nat, 0x100 ≤ f → f < 0x120 → c.mem.CanTake f

/-- `copy_page_tables` has nothing to copy. -/
theorem FromBoot.skip {t n k : Nat} (h : FromBoot R c) (hp : c.procs t = .fork n k none)
    (hd : ∀ j, k ≤ j → j < (c.tasks t).tables → c.mem.dir (TASK_TABLES * t + j) = none) (m : Nat)
    (hm : k + m ≤ (c.tasks t).tables) : FromBoot R (c.setProc t (.fork n (k + m) none)) := by
  have hset : ∀ q q', (c.setProc t q).setProc t q' = c.setProc t q' := by
    intro q q'
    unfold Config.setProc
    congr 1
    funext u
    dsimp only
    split <;> rfl
  induction m with
  | zero =>
      have hself : c.setProc t (.fork n (k + 0) none) = c := by
        unfold Config.setProc
        congr 1
        funext u
        split
        · rename_i hu
          rw [hu, hp]
          rfl
        · rfl
      rw [hself]
      exact h
  | succ m ih =>
      have hskip : Step loads (c.setProc t (.fork n (k + m) none)) .quiet _ :=
        .forkSkip (if_pos rfl) (Nat.lt_of_succ_le hm) (hd (k + m) (Nat.le_add_right k m) (Nat.lt_of_succ_le hm))
      rw [hset] at hskip
      exact (ih (Nat.le_of_succ_le hm)).step hR hskip (.inl rfl) (calm_if h.calm (fun _ => Proc.noConfusion) t)

theorem execed : ∃ c, Execed R c := by
  obtain ⟨c, h⟩ := forked hR
  have hinv := h.inv
  have htables : ∀ t, (c.tasks t).tables = 1 := fun t => by rw [h.tasks]; rfl
  have hexec : Step loads c .quiet _ := .exec (t := 1) (by decide) h.second
  have hargs : Step loads ((c.setProc 1 (.args [])).setVerified 1 fun _ => false) (.cleared 1) _ :=
    .argsDone (t := 1) program rfl rfl
  have hbegun := h.run.tail (hR hexec ⟨.inl rfl, fun t ht => absurd ht (h.calm t [])⟩)
  -- only the second task is in `exec`, and it does not fail
  have hsucceeds : ∀ t, (if t = 1 then Proc.args [] else c.procs t) = .args [] →
      (if t = 1 then Proc.putArgs [] else if t = 1 then Proc.args [] else c.procs t) ≠ .user := by
    intro t ht
    split
    · exact Proc.noConfusion
    · rename_i hne
      rw [if_neg hne] at ht
      exact absurd ht (h.calm t [])
  have hcalm : ∀ t pages, (if t = 1 then Proc.putArgs [] else if t = 1 then Proc.args [] else c.procs t) ≠
      .args pages := by
    intro t pages
    split
    · exact Proc.noConfusion
    · exact h.calm t pages
  have hput : FromBoot R _ :=
    ⟨hbegun.tail (hR hargs ⟨.inr (.inr ⟨1, rfl, rfl⟩), hsucceeds⟩), (h.inv.step hexec).step hargs, hcalm⟩
  have hrun := hput.step hR (.execDone (t := 1) rfl) (.inl rfl) (calm_if hput.calm (fun _ => Proc.noConfusion) 1)
  have hfork := hrun.step hR (.fork (t := 1) (n := 2) rfl (by decide) (by decide) h.third) (.inl rfl)
    (calm_if (calm_if hrun.calm (fun _ => Proc.noConfusion) 2) (fun _ => Proc.noConfusion) 1)
  have hdir : ∀ j < TASK_TABLES, (c.mem.freePageTables 16 (c.tasks 1).tables).dir (16 + j) = none := by
    intro j hj
    rw [dir_freePageTables, htables]
    split
    · rfl
    · exact hinv.beyond 1 (by decide) j (by rw [htables]; omega) hj
  have hskips := hfork.skip hR (t := 1) (n := 2) (k := 0) rfl (fun j _ hj => hdir j hj) TASK_TABLES
      (Nat.le_refl _)
  have hcalm₂ := calm_if (calm_if hskips.calm (q := .user) (fun _ => Proc.noConfusion) 1)
    (q := .user) (fun _ => Proc.noConfusion) 2
  refine ⟨_, hskips.step hR (.forkDone (t := 1) (n := 2) rfl (Nat.le_refl _)) (.inr ⟨_, _, rfl⟩) hcalm₂, rfl, rfl, rfl,
    rfl, hdir 0 (by decide), ?_, fun f hf hf' => ?_⟩
  · show (c.mem.freePageTables 16 (c.tasks 1).tables).dir 32 = none
    rw [dir_freePageTables, htables]
    exact hinv.bare 2 (by decide) h.third 0 (by decide)
  · obtain ⟨hmanaged, hzero⟩ := h.free f hf hf'
    have hless := Fewer.freePageTables hinv.counts (c.tasks 1).tables (d := 16) (Nat.le_refl _)
    refine ⟨(congrFun (untouched_freePageTables c.mem 16 (c.tasks 1).tables).managed f).mpr hmanaged, ?_⟩
    exact Nat.le_zero.mp (hzero ▸ hless.memMap f)

end Booting

/-- Executables that are all zeros. -/
abbrev zeros : Task → Nat → Page → Prop := fun _ _ p => p = fun _ => 0

theorem clear_allows : Allows zeros fun c c' => ∃ e, Step zeros c e c' ∧ Clear c e := by
  rintro c c' e hs ⟨rfl | ⟨t, n, rfl⟩ | ⟨t, rfl, -⟩, -⟩
  · exact ⟨_, hs, trivial⟩
  · exact ⟨_, hs, trivial⟩
  · exact ⟨_, hs, trivial⟩

/-- The second task has read its page. -/
structure Loaded (c : Config) : Prop where
  run : ClearRun zeros boot c
  second : c.procs 1 = .user
  third : c.procs 2 = .user
  program₁ : c.tasks 1 = program
  program₂ : c.tasks 2 = program
  page : c.mem.at 1 0 = .page 0x101 true false
  managed : c.mem.Managed 0x101
  data : c.mem.data 0x101 = fun _ => 0
  dir₂ : c.mem.dir 32 = none
  free : c.mem.CanTake 0x102

theorem loaded : ∃ c, Loaded c := by
  obtain ⟨c, h⟩ := execed clear_allows
  have hrun : ClearRun zeros boot c := h.run
  have habsent : ∀ f rw b, c.mem.at 1 0 ≠ .page f rw b := by
    intro f rw b
    have hnone : c.mem.at 1 0 = .none := entry_of_no_dir c.mem h.dir₁ 0
    rw [hnone]
    exact Entry.noConfusion
  have hfault := hrun.step (.fault (t := 1) (v := 0) (by decide) h.second (by rw [h.program₁]; decide) habsent) trivial
  have htable := hfault.step (.faultDir (t := 1) (v := 0) (f := 0x100) rfl h.dir₁
      (h.free 0x100 (by decide) (by decide)))
    trivial
  have hpage := (h.free 0x101 (by decide) (by decide)).other (f := 0x100) (by decide)
  have hfree := (h.free 0x102 (by decide) (by decide)).other (f := 0x100) (by decide)
  obtain ⟨c₀, hrun, hp, hp', hk, hk', hdir, hdir', hpage, hfree⟩ : ∃ c₀, ClearRun zeros boot c₀ ∧
      c₀.procs 1 = .noPage 0 ∧ c₀.procs 2 = .user ∧ c₀.tasks 1 = program ∧ c₀.tasks 2 = program ∧
      c₀.mem.dir 16 = some 0x100 ∧ c₀.mem.dir 32 = none ∧ c₀.mem.CanTake 0x101 ∧ c₀.mem.CanTake 0x102 :=
    ⟨_, htable, rfl, h.third, h.program₁, h.program₂, rfl, h.dir₂, hpage, hfree⟩
  have hfile : (c₀.tasks 1).file 0 = some 7 := by
    rw [hk]
    rfl
  have hload := hrun.step (.load (t := 1) (v := 0) hp hfile hpage) trivial
  have hread := hload.step (.loaded (t := 1) (v := 0) (f := 0x101) rfl rfl) trivial
  have hfree := hfree.other (f := 0x101) (by decide)
  obtain ⟨c₁, hrun, hp, hp', hk, hk', hdir, hdir', hmap, hzero, hmanaged, hfree⟩ : ∃ c₁, ClearRun zeros boot c₁ ∧
      c₁.procs 1 = .put 0 0x101 ∧ c₁.procs 2 = .user ∧ c₁.tasks 1 = program ∧ c₁.tasks 2 = program ∧
      c₁.mem.dir 16 = some 0x100 ∧ c₁.mem.dir 32 = none ∧ c₁.mem.memMap 0x101 = 1 ∧
      c₁.mem.data 0x101 = (fun _ => 0) ∧ c₁.mem.Managed 0x101 ∧ c₁.mem.CanTake 0x102 :=
    ⟨_, hread, rfl, hp', hk, hk', hdir, hdir', rfl, rfl, hpage.1, hfree⟩
  have hpresent : c₁.mem.dir 16 ≠ none := by simp [hdir]
  have hput := hrun.step (.put (t := 1) (v := 0) hp hmap hpresent) trivial
  have hsame := untouched_setEntry c₁.mem 16 0 (.page 0x101 true false)
  refine ⟨_, hput, rfl, hp', hk, hk', entry_setEntry_self c₁.mem hpresent _ _, ?_, ?_, ?_, ?_⟩
  · exact (congrFun hsame.managed 0x101).mpr hmanaged
  · exact (congrFun hsame.data 0x101).trans hzero
  · exact (congrFun (dir_setEntry _ _ _ _) 32).trans hdir'
  · exact ⟨(congrFun hsame.managed 0x102).mpr hfree.1, (congrFun (memMap_setEntry _ _ _ _) 0x102).trans hfree.2⟩

theorem Run.writable {c₀ : Config} (hstart : Start c₀) (hrun : Run loads c₀ c) : Writable c.mem := by
  induction hrun with
  | refl => exact hstart.safe.writable
  | tail hrun hstep ih =>
      obtain ⟨e, hstep⟩ := hstep
      have hinv := Run.inv hstart hrun
      obtain ⟨U, K, hch⟩ := hstep.changes hinv
      exact ih.changes hinv.counts hch

/-- **A page that is mapped for writing has no other reference**, in any run: no second entry of a page table, no page
    directory and not the kernel. -/
theorem writable_private {c₀ : Config} (hstart : Start c₀) (hrun : Run loads c₀ c) {d i : Nat} {f : Frame} {b : Bool}
    (hd : TASK_TABLES ≤ d) (he : c.mem.entry d i = .page f true b) :
    c.mem.memMap f = 1 ∧ refs c.mem.target f = {.entry d i} := by
  have hcounts := (Run.inv hstart hrun).counts
  obtain ⟨hlow, hone⟩ := hrun.writable hstart d i f b hd he
  have htarget := target_entry hd he
  refine ⟨hone, Set.eq_singleton_iff_unique_mem.mpr ⟨htarget, fun r hr => ?_⟩⟩
  exact hcounts.counted.one (hcounts.tables.managed hd he hlow) hone hr htarget

theorem writable_private_loaded : ∃ c, Run zeros boot c ∧ refs c.mem.target 0x101 = {.entry 16 0} := by
  obtain ⟨c, h⟩ := loaded
  exact ⟨c, h.run.run, (writable_private boot_start h.run.run (Nat.le_refl _) h.page).2⟩

end Vm
end Mm
end Linux095
