import Linux095.Mm.PageTables

/-!
# `Mm.Change` — what a step does to the memory

* `Change` — the ways the memory changes, with the tasks whose page tables a change is about, the pages that the
  kernel gives away in it and the entries that get a page of another entry;
* `Counts.change` — **each of them keeps the counts**;
* `Stays`, `Change.stays` — the other tasks lose nothing but pages, and get nothing;
* `Change.kernel` — the kernel keeps the other pages it holds.
-/

namespace Linux095
namespace Mm
namespace Vm

/-- **A change of the memory**, for tasks in `U`, pages in `K` and entries in `S`. -/
inductive Change (U : Nat → Prop) (K : Frame → Prop) (S : Nat → Nat → Nat → Prop) (s : Paging) : Paging → Prop
  | take {f : Frame} (hf : s.CanTake f) : Change U K S s (s.take f)
  | read {f : Frame} (n : Nat) (hf : s.CanTake f) :
      Change U K S s { s.take f with queue := s.queue ++ [.read n f] }
  | table {f : Frame} {d : Nat} (hf : s.CanTake f) (hd : s.dir d = none) (hd16 : TASK_TABLES ≤ d) (hlt : d < 1024)
      (hu : U (d / TASK_TABLES)) : Change U K S s (((s.take f).setKernel f false).setDir d (some f))
  | release {f : Frame} (hk : s.kernel f) (hK : K f) : Change U K S s (s.release f)
  | fill {f : Frame} (p : Page) (hk : s.kernel f) (hK : K f) : Change U K S s (s.setData f p)
  | map {f : Frame} {d i : Nat} (rw b : Bool) (hk : s.kernel f) (hK : K f) (hd : s.dir d ≠ none)
      (hd16 : TASK_TABLES ≤ d) (hi : i < 1024) (he : s.entry d i = .none) (hu : U (d / TASK_TABLES)) :
      Change U K S s ((s.setEntry d i (.page f rw b)).setKernel f false)
  | swapIn {f : Frame} {d i n : Nat} (hk : s.kernel f) (hK : K f) (hd16 : TASK_TABLES ≤ d)
      (he : s.entry d i = .swap n) (hu : U (d / TASK_TABLES)) :
      Change U K S s (((s.swapFree n).setEntry d i (.page f true true)).setKernel f false)
  | flags {f : Frame} {d i : Nat} {rw b : Bool} (rw' b' : Bool) (hd16 : TASK_TABLES ≤ d)
      (he : s.entry d i = .page f rw b) (hrw : rw' = true → LOW_MEM ≤ f ∧ s.memMap f = 1) :
      Change U K S s (s.setEntry d i (.page f rw' b'))
  /-- Entry `d` becomes another entry for the page of entry `d'`. -/
  | share {f : Frame} {d d' i : Nat} {rw b : Bool} (hf : s.Managed f) (hd : s.dir d ≠ none)
      (hd16 : TASK_TABLES ≤ d) (hd16' : TASK_TABLES ≤ d') (he : s.entry d i = .none)
      (he' : s.entry d' i = .page f rw b) (hplace : d % TASK_TABLES = d' % TASK_TABLES) (hu : U (d / TASK_TABLES))
      (hS : S d d' i) :
      Change U K S s (((s.setEntry d' i (.page f false b)).setEntry d i (.page f false b)).share f)
  /-- A page of the low memory is shared with the first task. -/
  | low {f : Frame} {d i : Nat} (b : Bool) (hf : f < LOW_MEM) (hd : s.dir d ≠ none) (hd16 : TASK_TABLES ≤ d)
      (hi : i < 1024) (he : s.entry d i = .none) (hu : U (d / TASK_TABLES)) (hS : ∃ d', S d d' i) :
      Change U K S s (s.setEntry d i (.page f false b))
  | copy {f g : Frame} {d i : Nat} {rw b : Bool} (hk : s.kernel g) (hK : K g) (hd16 : TASK_TABLES ≤ d)
      (he : s.entry d i = .page f rw b) :
      Change U K S s ((((s.setData g (s.data f)).setEntry d i (.page g true b)).setKernel g false).freePage f)
  /-- Entry `d'` gets the slot of entry `d`, and entry `d` what was in it. -/
  | move {f : Frame} {d d' i n : Nat} (hk : s.kernel f) (hK : K f) (hd : s.dir d' ≠ none) (hd16 : TASK_TABLES ≤ d)
      (hd16' : TASK_TABLES ≤ d') (hne : d' ≠ d) (he : s.entry d i = .swap n) (he' : s.entry d' i = .none)
      (hu : U (d / TASK_TABLES)) (hu' : U (d' / TASK_TABLES)) :
      Change U K S s (((s.setEntry d' i (.swap n)).setEntry d i (.page f true true)).setKernel f false)
  | clear (d n : Nat) (hd16 : TASK_TABLES ≤ d) (hu : ∀ k < n, U ((d + k) / TASK_TABLES)) :
      Change U K S s (s.freePageTables d n)
  | swapOut {d i : Nat} {s' : Paging} (hd16 : TASK_TABLES ≤ d) (hs : s.tryToSwapOut d i = some s') : Change U K S s s'
  | complete {s' : Paging} (hs : s.complete = some s') : Change U K S s s'
  | store {f : Frame} {d i : Nat} {rw b : Bool} (o : Nat) (x : Byte) (hd16 : TASK_TABLES ≤ d)
      (he : s.entry d i = .page f rw b) : Change U K S s ((s.setEntry d i (.page f rw true)).setByte f o x)

/-! ## Counts -/

theorem setEntry_freePage (s : Paging) (d i : Nat) (e : Entry) (f : Frame) :
    (s.setEntry d i e).freePage f = (s.freePage f).setEntry d i e := by
  unfold Paging.setEntry
  rw [dir_freePage]
  cases s.dir d with
  | none => rfl
  | some T =>
      unfold Paging.freePage
      show (if f < LOW_MEM then _ else if f < s.highMem then _ else _) = Paging.setTable _ T i e
      split
      · rfl
      · split <;> rfl

theorem setEntry_setEntry (s : Paging) (d i : Nat) (e e' : Entry) :
    (s.setEntry d i e).setEntry d i e' = s.setEntry d i e' := by
  cases hd : s.dir d with
  | none =>
      have hnone : ∀ e, s.setEntry d i e = s := by
        intro e
        unfold Paging.setEntry
        rw [hd]
      rw [hnone, hnone]
  | some T =>
      rw [setEntry_of_dir (s.setEntry d i e) (by rw [dir_setEntry]; exact hd), setEntry_of_dir s hd,
        setEntry_of_dir s hd]
      unfold Paging.setTable
      congr 1
      funext t j
      show (if t = T ∧ j = i then e' else if t = T ∧ j = i then e else s.table t j) = _
      split <;> rfl

theorem setKernel_freePage (s : Paging) (g f : Frame) (b : Bool) :
    (s.setKernel g b).freePage f = (s.freePage f).setKernel g b := by
  unfold Paging.freePage
  show (if f < LOW_MEM then _ else if f < s.highMem then _ else _) = _
  split
  · rfl
  · split <;> rfl

theorem Counts.setData {s : Paging} (h : Counts s) (f : Frame) (p : Page) : Counts (s.setData f p) :=
  h.congr rfl rfl rfl rfl rfl rfl rfl

theorem Counts.swapFree {s : Paging} (h : Counts s) (n : Nat) : Counts (s.swapFree n) :=
  h.congr (startMem_swapFree _ _) (highMem_swapFree _ _) (dir_swapFree _ _) (table_swapFree _ _)
    (kernel_swapFree _ _) (memMap_swapFree _ _) (badPage_swapFree _ _)

theorem Counts.copy {s : Paging} (h : Counts s) {f g : Frame} {d i : Nat} {rw b : Bool} (hk : s.kernel g)
    (hd16 : TASK_TABLES ≤ d) (he : s.entry d i = .page f rw b) :
    Counts (((s.setEntry d i (.page g true b)).setKernel g false).freePage f) := by
  have hne : s.entry d i ≠ .none := by rw [he]; exact Entry.noConfusion
  obtain ⟨T, hT⟩ := dir_of_entry hne
  have hd : s.dir d ≠ none := by simp [hT]
  -- the old page is given up before the new one is mapped
  have hdrop := h.drop (e := .none) hd16 he rfl
  have hentry : ((s.setEntry d i .none).freePage f).entry d i = .none := by
    rw [entry_freePage, h.tables.entry_setEntry hd]
    exact if_pos ⟨rfl, rfl⟩
  have hhole : ∀ x, (((s.setEntry d i .none).freePage f).entry d i).frame = some x →
      ¬((s.setEntry d i .none).freePage f).Managed x := by
    intro x hx
    rw [hentry] at hx
    cases hx
  have hmap : Counts ((((s.setEntry d i .none).freePage f).setEntry d i (.page g true b)).setKernel g false) :=
    hdrop.install (by simpa using hk) (by simpa using hd) hd16 (h.tables.index_lt hne) hhole
  rw [← setEntry_freePage, setEntry_setEntry, ← setKernel_freePage] at hmap
  exact hmap

/-- What `try_to_swap_out` has done. -/
theorem swapOut_cases {s s' : Paging} {d i : Nat} (hs : s.tryToSwapOut d i = some s') :
    ∃ f rw b, s.entry d i = .page f rw b ∧ LOW_MEM ≤ f ∧
      ((s.memMap f = 1 ∧ ∃ n, s.getSwapPage = some n ∧
        s' = { ((s.setFree n false).setEntry d i (.swap n)).setKernel f true with
          queue := s.queue ++ [.write n f]
          saved := fun x => if x = n then s.data f else s.saved x }) ∨
      s' = (s.setEntry d i .none).freePage f) := by
  unfold Paging.tryToSwapOut at hs
  split at hs
  · rename_i f rw b he
    refine ⟨f, rw, b, he, ?_⟩
    split at hs
    · cases hs
    · rename_i hf
      refine ⟨Nat.le_of_not_lt fun hlt => hf (.inl hlt), ?_⟩
      split at hs
      · split at hs
        · cases hs
        · rename_i hone
          split at hs
          · cases hs
          · rename_i n hn
            refine .inl ⟨by simpa using hone, n, hn, (Option.some.inj hs).symm⟩
      · exact .inr (Option.some.inj hs).symm
  · cases hs

theorem complete_cases {s s' : Paging} (hs : s.complete = some s') :
    (∃ n f q, s.queue = .write n f :: q ∧
      s' = { s with disk := fun x => if x = n then s.data f else s.disk x, queue := q }) ∨
    (∃ n f q, s.queue = .read n f :: q ∧ s' = { s.setData f (s.disk n) with queue := q }) := by
  unfold Paging.complete at hs
  split at hs
  · cases hs
  · exact .inl ⟨_, _, _, ‹_›, (Option.some.inj hs).symm⟩
  · exact .inr ⟨_, _, _, ‹_›, (Option.some.inj hs).symm⟩

theorem Counts.swapOut {s s' : Paging} (h : Counts s) {d i : Nat} (hd16 : TASK_TABLES ≤ d)
    (hs : s.tryToSwapOut d i = some s') : Counts s' := by
  obtain ⟨f, rw, b, he, hlow, ⟨hone, n, -, rfl⟩ | rfl⟩ := swapOut_cases hs
  · have hf : s.Managed f := by
      rcases h.tables.entryFrame d i f rw b hd16 he with hf | hf
      · exact absurd hf (Nat.not_lt.mpr hlow)
      · exact hf
    have hfree : Counts (s.setFree n false) := h.congr rfl rfl rfl rfl rfl rfl rfl
    have hhold := hfree.hold (e := .swap n) hd16 he hf hone rfl
    exact hhold.congr rfl rfl rfl rfl rfl rfl rfl
  · exact h.drop hd16 he rfl

variable {U : Nat → Prop} {K : Frame → Prop} {S : Nat → Nat → Nat → Prop} {s s' : Paging}

/-- An empty entry comes to name a slot. -/
theorem Counts.setSlot (h : Counts s) {d i : Nat} (hd : s.dir d ≠ none) (hd16 : TASK_TABLES ≤ d) (hi : i < 1024)
    (he : s.entry d i = .none) (n : Nat) : Counts (s.setEntry d i (.swap n)) := by
  refine h.setUnmanaged hd hd16 hi (fun f hf => ?_) fun f hf => ?_
  · rw [he] at hf
    cases hf
  · cases hf

/-- **Every change keeps the counts.** -/
theorem Counts.change (h : Counts s) (hch : Change U K S s s') : Counts s' := by
  cases hch with
  | take hf => exact h.take hf
  | read n hf => exact (h.take hf).congr rfl rfl rfl rfl rfl rfl rfl
  | table hf hd hd16 hlt hu => exact h.newTable hf hd hd16 hlt
  | release hk hK => exact h.release hk
  | fill p hk hK => exact h.setData _ p
  | map rw b hk hK hd hd16 hi he hu =>
      refine h.install hk hd hd16 hi fun g hg => ?_
      rw [he] at hg
      cases hg
  | @swapIn f d i n hk hK hd16 he hu =>
      have hne : s.entry d i ≠ .none := by rw [he]; exact Entry.noConfusion
      obtain ⟨T, hT⟩ := dir_of_entry hne
      refine (h.swapFree n).install (by simpa using hk) (by simp [hT]) hd16 (h.tables.index_lt hne) fun g hg => ?_
      rw [entry_swapFree, he] at hg
      cases hg
  | flags rw' b' hd16 he hrw => exact h.setFlags rw' b' hd16 he
  | @share f d d' i rw b hf hd hd16 hd16' he he' hplace hu hS =>
      have hne : s.entry d' i ≠ .none := by rw [he']; exact Entry.noConfusion
      obtain ⟨T, hT⟩ := dir_of_entry hne
      have hd' : s.dir d' ≠ none := by simp [hT]
      have hdd : d ≠ d' := by
        rintro rfl
        exact hne he
      have hflags := h.setFlags false b hd16' he'
      have hent := h.tables.entry_setEntry hd' i (.page f false b)
      have hsource : (s.setEntry d' i (.page f false b)).entry d' i = .page f false b := by
        rw [hent, if_pos ⟨rfl, rfl⟩]
      have hhole : ((s.setEntry d' i (.page f false b)).entry d i).frame = none := by
        rw [hent, if_neg (fun hc => hdd hc.1), he]
        rfl
      have hm : (s.setEntry d' i (.page f false b)).Managed f := ⟨by simpa using hf.1, by simpa using hf.2⟩
      exact hflags.addEntry (by simpa using hd) hd16 (h.tables.index_lt hne) hhole hm hd16' hsource hplace
  | low b hf hd hd16 hi he hu hS =>
      refine h.setUnmanaged hd hd16 hi (fun g hg => ?_) fun g hg => ?_
      · rw [he] at hg
        cases hg
      · obtain rfl := Option.some.inj hg
        exact hf
  | copy hk hK hd16 he => exact (h.setData _ _).copy hk hd16 he
  | @move f d d' i n hk hK hd hd16 hd16' hne he he' hu hu' =>
      have hsome : s.entry d i ≠ .none := by rw [he]; exact Entry.noConfusion
      obtain ⟨T, hT⟩ := dir_of_entry hsome
      have hslot := h.setSlot hd hd16' (h.tables.index_lt hsome) he' n
      refine hslot.install (by simpa using hk) (by simp [hT]) hd16 (h.tables.index_lt hsome) fun g hg => ?_
      rw [h.tables.entry_setEntry hd, if_neg (fun hc => hne hc.1.symm), he] at hg
      cases hg
  | clear d n hd16 hu => exact h.freePageTables hd16
  | swapOut hd16 hs => exact h.swapOut hd16 hs
  | complete hs =>
      rcases complete_cases hs with ⟨n, f, q, -, rfl⟩ | ⟨n, f, q, -, rfl⟩
      · exact h.congr rfl rfl rfl rfl rfl rfl rfl
      · exact h.congr rfl rfl rfl rfl rfl rfl rfl
  | store o x hd16 he => exact (h.setFlags _ true hd16 he).setData _ _

/-! ## What stays -/

/-- The tables of task `u` stay, and have the same entries but for pages. -/
structure Stays (s s' : Paging) (u : Nat) : Prop where
  dir : ∀ d, d / TASK_TABLES = u → s'.dir d = s.dir d
  hole : ∀ d i, d / TASK_TABLES = u → (s.entry d i).frame = none → s'.entry d i = s.entry d i

theorem Stays.refl (s : Paging) (u : Nat) : Stays s s u := ⟨fun _ _ => rfl, fun _ _ _ _ => rfl⟩

theorem Stays.trans {s'' : Paging} {u : Nat} (h : Stays s s' u) (h' : Stays s' s'' u) : Stays s s'' u := by
  constructor
  · intro d hd
    rw [h'.dir d hd, h.dir d hd]
  · intro d i hd he
    have hmid := h.hole d i hd he
    rw [h'.hole d i hd (by rw [hmid]; exact he), hmid]

theorem Stays.of_eq {u : Nat} (hd : s'.dir = s.dir) (ht : s'.entry = s.entry) : Stays s s' u :=
  ⟨fun _ _ => by rw [hd], fun _ _ _ _ => by rw [ht]⟩

/-- An entry of another task, or of a page, is set. -/
theorem Stays.setEntry {u d i : Nat} (h : Tables s) (e : Entry)
    (hu : d / TASK_TABLES ≠ u ∨ (s.entry d i).frame ≠ none) : Stays s (s.setEntry d i e) u := by
  constructor
  · intro d' _
    rw [dir_setEntry]
  · intro d' i' hd' he
    by_cases hd : s.dir d = none
    · unfold Paging.setEntry
      rw [hd]
    · rw [h.entry_setEntry hd, if_neg]
      rintro ⟨rfl, rfl⟩
      rcases hu with hu | hu
      · exact hu hd'
      · exact hu he

theorem Stays.drop {u d : Nat} (h : Tables s) (i : Nat) (hu : d / TASK_TABLES ≠ u) : Stays s (s.dropEntry d i) u := by
  constructor
  · intro d' _
    rw [dir_dropEntry]
  · intro d' i' hd' _
    rw [h.entry_dropEntry, if_neg]
    rintro ⟨rfl, -⟩
    exact hu hd'

theorem Stays.freePageTables {u d n : Nat} (h : Counts s) (hd16 : TASK_TABLES ≤ d)
    (hu : ∀ k < n, (d + k) / TASK_TABLES ≠ u) : Stays s (s.freePageTables d n) u := by
  have hboth : Counts (s.freePageTables d n) ∧ Stays s (s.freePageTables d n) u := by
    refine freePageTables_induct (P := fun s' => Counts s' ∧ Stays s s' u) (fun s' hs' => hs'.1.tables) ?_ ?_
      ⟨h, Stays.refl s u⟩
    · rintro s' k i hk ⟨hc, hst⟩
      exact ⟨hc.dropEntry (by omega) i, hst.trans (Stays.drop hc.tables i (hu k hk))⟩
    · rintro s' k T hk ⟨hc, hst⟩ hT hempty
      refine ⟨hc.removeTable hT (by omega) hempty, hst.trans ?_⟩
      constructor
      · intro d' hd'
        rw [dir_freePage]
        refine if_neg ?_
        rintro rfl
        exact hu k hk hd'
      · intro d' i' _ _
        rw [entry_freePage, entry_setDir_none hempty]
  exact hboth.2

/-- **A change leaves the tables of the other tasks alone**, but that they may lose pages. -/
theorem Change.stays (h : Counts s) (hch : Change U K S s s') {u : Nat} (hu : ¬U u) : Stays s s' u := by
  have hne : ∀ {d}, U (d / TASK_TABLES) → d / TASK_TABLES ≠ u := by
    rintro d hd rfl
    exact hu hd
  have hpage : ∀ {d i f rw b}, s.entry d i = .page f rw b → (s.entry d i).frame ≠ none := by
    intro d i f rw b he
    rw [he]
    exact Option.some_ne_none f
  cases hch with
  | take hf => exact .of_eq rfl (h.entry_take hf)
  | read n hf => exact .of_eq rfl (h.entry_take hf)
  | @table f d hf hd hd16 hlt hud =>
      constructor
      · intro d' hd'
        refine if_neg ?_
        rintro rfl
        exact hne hud hd'
      · intro d' i _ _
        rw [h.entry_newTable hf hd]
  | release hk hK => exact .of_eq (dir_freePage _ _) (entry_freePage _ _)
  | fill p hk hK => exact .of_eq rfl rfl
  | map rw b hk hK hd hd16 hi he hud => exact (Stays.setEntry h.tables _ (.inl (hne hud))).trans (.of_eq rfl rfl)
  | @swapIn f d i n hk hK hd16 he hud =>
      have hfree : Stays s (s.swapFree n) u := .of_eq (dir_swapFree _ _) (entry_swapFree _ _)
      exact hfree.trans ((Stays.setEntry (h.swapFree n).tables _ (.inl (hne hud))).trans (.of_eq rfl rfl))
  | flags rw' b' hd16 he hrw => exact Stays.setEntry h.tables _ (.inr (hpage he))
  | @share f d d' i rw b hf hd hd16 hd16' he he' hplace hud hS =>
      have hflags := h.setFlags false b hd16' he'
      exact (Stays.setEntry h.tables _ (.inr (hpage he'))).trans
        ((Stays.setEntry hflags.tables _ (.inl (hne hud))).trans (.of_eq rfl rfl))
  | low b hf hd hd16 hi he hud hS => exact Stays.setEntry h.tables _ (.inl (hne hud))
  | @copy f g d i rw b hk hK hd16 he =>
      have hdata : Stays s (s.setData g (s.data f)) u := .of_eq rfl rfl
      have hset : Stays (s.setData g (s.data f)) ((s.setData g (s.data f)).setEntry d i (.page g true b)) u :=
        Stays.setEntry (h.setData g (s.data f)).tables _ (.inr (hpage he))
      refine hdata.trans (hset.trans (.of_eq ?_ ?_))
      · rw [dir_freePage]
        rfl
      · rw [entry_freePage]
        rfl
  | @move f d d' i n hk hK hd hd16 hd16' hdd he he' hud hud' =>
      have hi : i < 1024 := h.tables.index_lt (by rw [he]; exact Entry.noConfusion)
      have hslot := h.setSlot hd hd16' hi he' n
      exact (Stays.setEntry h.tables _ (.inl (hne hud'))).trans
        ((Stays.setEntry hslot.tables _ (.inl (hne hud))).trans (.of_eq rfl rfl))
  | clear d n hd16 hud => exact Stays.freePageTables h hd16 fun k hk => hne (hud k hk)
  | @swapOut d i _ hd16 hs =>
      obtain ⟨f, rw, b, he, -, ⟨-, n, -, rfl⟩ | rfl⟩ := swapOut_cases hs
      · have hfree : Counts (s.setFree n false) := h.congr rfl rfl rfl rfl rfl rfl rfl
        have hbit : Stays s (s.setFree n false) u := .of_eq rfl rfl
        have hset : Stays (s.setFree n false) ((s.setFree n false).setEntry d i (.swap n)) u :=
          Stays.setEntry hfree.tables _ (.inr (hpage he))
        exact hbit.trans (hset.trans (.of_eq rfl rfl))
      · exact (Stays.setEntry h.tables _ (.inr (hpage he))).trans (.of_eq (dir_freePage _ _) (entry_freePage _ _))
  | complete hs =>
      rcases complete_cases hs with ⟨n, f, q, -, rfl⟩ | ⟨n, f, q, -, rfl⟩
      · exact .of_eq rfl rfl
      · exact .of_eq rfl rfl
  | store o x hd16 he => exact (Stays.setEntry h.tables _ (.inr (hpage he))).trans (.of_eq rfl rfl)

/-- What `free_page` and `swap_free` do not look at. -/
structure Untouched (s s' : Paging) : Prop where
  managed : s'.Managed = s.Managed
  kernel : s'.kernel = s.kernel
  data : s'.data = s.data
  queue : s'.queue = s.queue
  disk : s'.disk = s.disk
  saved : s'.saved = s.saved
  /-- Slots are freed, and none is taken. -/
  free : ∀ n, s'.free n = false → s.free n = false

theorem Untouched.refl (s : Paging) : Untouched s s := ⟨rfl, rfl, rfl, rfl, rfl, rfl, fun _ h => h⟩

theorem Untouched.trans {s'' : Paging} (h : Untouched s s') (h' : Untouched s' s'') : Untouched s s'' :=
  ⟨h'.managed.trans h.managed, h'.kernel.trans h.kernel, h'.data.trans h.data, h'.queue.trans h.queue,
    h'.disk.trans h.disk, h'.saved.trans h.saved, fun n hn => h.free n (h'.free n hn)⟩

theorem untouched_setTable (s : Paging) (T : Frame) (i : Nat) (e : Entry) : Untouched s (s.setTable T i e) :=
  ⟨rfl, rfl, rfl, rfl, rfl, rfl, fun _ hn => hn⟩

theorem untouched_setDir (s : Paging) (d : Nat) (t : Option Frame) : Untouched s (s.setDir d t) :=
  ⟨rfl, rfl, rfl, rfl, rfl, rfl, fun _ hn => hn⟩

theorem untouched_setEntry (s : Paging) (d i : Nat) (e : Entry) : Untouched s (s.setEntry d i e) := by
  unfold Paging.setEntry
  split
  · exact .refl s
  · exact untouched_setTable _ _ _ _

theorem untouched_freePage (s : Paging) (f : Frame) : Untouched s (s.freePage f) := by
  refine ⟨?_, kernel_freePage _ _, data_freePage _ _, queue_freePage _ _, disk_freePage _ _, saved_freePage _ _,
    fun n hn => by rwa [free_freePage] at hn⟩
  unfold Paging.Managed
  rw [startMem_freePage, highMem_freePage]

theorem untouched_swapFree (s : Paging) (n : Nat) : Untouched s (s.swapFree n) := by
  refine ⟨?_, kernel_swapFree _ _, data_swapFree _ _, queue_swapFree _ _, disk_swapFree _ _, saved_swapFree _ _, ?_⟩
  · unfold Paging.Managed
    rw [startMem_swapFree, highMem_swapFree]
  intro m hm
  unfold Paging.swapFree at hm
  split at hm
  · exact hm
  · split at hm
    · have hm : (if m = n then true else s.free m) = false := hm
      split at hm
      · cases hm
      · exact hm
    · exact hm

theorem untouched_clearEntry (s : Paging) (T : Frame) (i : Nat) : Untouched s (Paging.clearEntry T s i) := by
  unfold Paging.clearEntry
  split
  · exact .refl s
  · exact (untouched_setTable s T i .none).trans (untouched_freePage _ _)
  · exact (untouched_setTable s T i .none).trans (untouched_swapFree _ _)

theorem untouched_freeDir (s : Paging) (d : Nat) : Untouched s (s.freeDir d) := by
  have hloop : ∀ (T : Frame) (l : List Nat) (s : Paging), Untouched s (l.foldl (Paging.clearEntry T) s) := by
    intro T l
    induction l with
    | nil => exact fun s => .refl s
    | cons i l ih => exact fun s => (untouched_clearEntry s T i).trans (ih _)
  unfold Paging.freeDir
  split
  · exact .refl s
  · exact ((untouched_setDir s d none).trans (hloop _ _ _)).trans (untouched_freePage _ _)

theorem untouched_freePageTables (s : Paging) (d n : Nat) : Untouched s (s.freePageTables d n) := by
  unfold Paging.freePageTables
  induction n with
  | zero => exact .refl s
  | succ n ih =>
      rw [List.range_succ, List.foldl_append]
      exact ih.trans (untouched_freeDir _ _)

theorem kernel_freePageTables (s : Paging) (d n : Nat) : (s.freePageTables d n).kernel = s.kernel :=
  (untouched_freePageTables s d n).kernel

/-- **The kernel keeps the pages it holds** but for those it gives away. -/
theorem Change.kernel (h : Counts s) (hch : Change U K S s s') {f : Frame} (hk : s.kernel f) (hK : ¬K f) :
    s'.kernel f := by
  have hset : ∀ {s : Paging} {g : Frame}, s.kernel f → K g → (s.setKernel g false).kernel f := by
    intro s g hk hg
    refine (if_neg ?_).trans hk
    rintro rfl
    exact hK hg
  cases hch with
  | take hf =>
      show (if f = _ then true else s.kernel f) = true
      rw [hk, ite_self]
  | read n hf =>
      show (if f = _ then true else s.kernel f) = true
      rw [hk, ite_self]
  | @table g d hf hd hd16 hlt hud =>
      have hfg : f ≠ g := by
        rintro rfl
        rw [h.not_kernel hf] at hk
        cases hk
      show (if f = g then false else if f = g then true else s.kernel f) = true
      rw [if_neg hfg, if_neg hfg]
      exact hk
  | release hk' hK' => rw [Paging.release, kernel_freePage]; exact hset hk hK'
  | fill p hk' hK' => exact hk
  | map rw b hk' hK' hd hd16 hi he hud => exact hset (by simpa using hk) hK'
  | swapIn hk' hK' hd16 he hud => exact hset (by simpa using hk) hK'
  | flags rw' b' hd16 he hrw => simpa using hk
  | share hf hd hd16 hd16' he he' hplace hud hS =>
      show ((s.setEntry _ _ _).setEntry _ _ _).kernel f = true
      simpa using hk
  | low b hf hd hd16 hi he hud hS => simpa using hk
  | copy hk' hK' hd16 he =>
      rw [kernel_freePage]
      exact hset ((congrFun (kernel_setEntry _ _ _ _) f).trans hk) hK'
  | move hk' hK' hd hd16 hd16' hdd he he' hud hud' => exact hset (by simpa using hk) hK'
  | clear d n hd16 hud => rw [kernel_freePageTables]; exact hk
  | swapOut hd16 hs =>
      obtain ⟨g, rw, b, he, -, ⟨-, n, -, rfl⟩ | rfl⟩ := swapOut_cases hs
      · show (if f = g then true else ((s.setFree n false).setEntry _ _ (.swap n)).kernel f) = true
        rw [kernel_setEntry]
        split
        · rfl
        · exact hk
      · simpa using hk
  | complete hs =>
      rcases complete_cases hs with ⟨n, f, q, -, rfl⟩ | ⟨n, f, q, -, rfl⟩
      · exact hk
      · exact hk
  | store o x hd16 he => exact (congrFun (kernel_setEntry _ _ _ _) f).trans hk

/-- A change that swaps nothing, as far as pages of the kernel and slots go. -/
structure Quiet (K : Frame → Prop) (s s' : Paging) : Prop where
  queue : s'.queue = s.queue
  disk : s'.disk = s.disk
  saved : s'.saved = s.saved
  free : ∀ n, s'.free n = false → s.free n = false
  kernel : ∀ f, s.kernel f → ¬K f → s'.kernel f
  data : ∀ f, s.kernel f → ¬K f → s'.data f = s.data f

theorem Quiet.refl (s : Paging) : Quiet K s s := ⟨rfl, rfl, rfl, fun _ h => h, fun _ h _ => h, fun _ _ _ => rfl⟩

theorem Quiet.trans {s'' : Paging} (h : Quiet K s s') (h' : Quiet K s' s'') : Quiet K s s'' :=
  ⟨h'.queue.trans h.queue, h'.disk.trans h.disk, h'.saved.trans h.saved, fun n hn => h.free n (h'.free n hn),
    fun f hf hK => h'.kernel f (h.kernel f hf hK) hK,
    fun f hf hK => (h'.data f (h.kernel f hf hK) hK).trans (h.data f hf hK)⟩

theorem Quiet.of_untouched {s₁ : Paging} (h : Untouched s s₁) (hq : s'.queue = s₁.queue) (hd : s'.disk = s₁.disk)
    (hs : s'.saved = s₁.saved) (hf : s'.free = s₁.free) (hdata : ∀ f, s.kernel f → ¬K f → s'.data f = s₁.data f)
    (hk : ∀ f, s.kernel f → ¬K f → s'.kernel f) : Quiet K s s' :=
  ⟨hq.trans h.queue, hd.trans h.disk, hs.trans h.saved, fun n hn => h.free n (hf ▸ hn), hk,
    fun f hf hK => (hdata f hf hK).trans (congrFun h.data f)⟩

/-- **A change that makes no request** leaves the pages that the kernel keeps as they are. -/
theorem Change.quiet (h : Counts s) (hch : Change U K S s s') (hq : s'.queue = s.queue) : Quiet K s s' := by
  have hkernel : ∀ f, s.kernel f → ¬K f → s'.kernel f := fun f hk hK => hch.kernel h hk hK
  have hfresh : ∀ {f g}, s.CanTake f → s.kernel g → g ≠ f := by
    rintro f g hf hg rfl
    rw [h.not_kernel hf] at hg
    cases hg
  cases hch with
  | take hf => exact .of_untouched (.refl s) rfl rfl rfl rfl (fun g hg _ => if_neg (hfresh hf hg)) hkernel
  | read n hf => exact absurd hq (by simp)
  | table hf hd hd16 hlt hu =>
      exact .of_untouched (.refl s) rfl rfl rfl rfl (fun g hg _ => if_neg (hfresh hf hg)) hkernel
  | @release f hk hK =>
      have hfree := untouched_freePage (s.setKernel f false) f
      exact ⟨hfree.queue, hfree.disk, hfree.saved, hfree.free, hkernel, fun g _ _ => congrFun hfree.data g⟩
  | fill p hk hK =>
      refine .of_untouched (.refl s) rfl rfl rfl rfl (fun g _ hg => if_neg ?_) hkernel
      rintro rfl
      exact hg hK
  | map rw b hk hK hd hd16 hi he hu =>
      exact .of_untouched (untouched_setEntry s _ _ _) rfl rfl rfl rfl (fun _ _ _ => rfl) hkernel
  | @swapIn f d i n hk hK hd16 he hu =>
      exact .of_untouched ((untouched_swapFree s n).trans (untouched_setEntry _ _ _ _)) rfl rfl rfl rfl
        (fun _ _ _ => rfl) hkernel
  | flags rw' b' hd16 he hrw =>
      exact .of_untouched (untouched_setEntry s _ _ _) rfl rfl rfl rfl (fun _ _ _ => rfl) hkernel
  | share hf hd hd16 hd16' he he' hplace hu hS =>
      exact .of_untouched ((untouched_setEntry s _ _ _).trans (untouched_setEntry _ _ _ _)) rfl rfl rfl rfl
        (fun _ _ _ => rfl) hkernel
  | low b hf hd hd16 hi he hu hS =>
      exact .of_untouched (untouched_setEntry s _ _ _) rfl rfl rfl rfl (fun _ _ _ => rfl) hkernel
  | @copy f g d i rw b hk hK hd16 he =>
      have hset := untouched_setEntry (s.setData g (s.data f)) d i (.page g true b)
      have hfree := untouched_freePage (((s.setData g (s.data f)).setEntry d i (.page g true b)).setKernel g false) f
      refine ⟨hfree.queue.trans hset.queue, hfree.disk.trans hset.disk, hfree.saved.trans hset.saved,
        fun n hn => hset.free n (hfree.free n hn), hkernel, fun x _ hx => ?_⟩
      refine (congrFun (hfree.data.trans hset.data) x).trans (if_neg ?_)
      rintro rfl
      exact hx hK
  | move hk hK hd hd16 hd16' hne he he' hu hu' =>
      exact .of_untouched ((untouched_setEntry s _ _ _).trans (untouched_setEntry _ _ _ _)) rfl rfl rfl rfl
        (fun _ _ _ => rfl) hkernel
  | clear d n hd16 hu =>
      exact .of_untouched (untouched_freePageTables s d n) rfl rfl rfl rfl (fun _ _ _ => rfl) hkernel
  | swapOut hd16 hs =>
      obtain ⟨f, rw, b, he, -, ⟨-, n, -, rfl⟩ | rfl⟩ := swapOut_cases hs
      · exact absurd hq (by simp)
      · exact .of_untouched ((untouched_setEntry s _ _ .none).trans (untouched_freePage _ f)) rfl rfl rfl rfl
          (fun _ _ _ => rfl) hkernel
  | complete hs =>
      rcases complete_cases hs with ⟨n, f, q, hcons, rfl⟩ | ⟨n, f, q, hcons, rfl⟩
      · have hq : q = s.queue := hq
        rw [hcons] at hq
        exact absurd hq (by simp)
      · have hq : q = s.queue := hq
        rw [hcons] at hq
        exact absurd hq (by simp)
  | @store f d i rw b o x hd16 he =>
      refine .of_untouched (untouched_setEntry s d i (.page f rw true)) rfl rfl rfl rfl
        (fun g hg _ => if_neg ?_) hkernel
      rintro rfl
      exact h.kernel_not_entry hg hd16 he

end Vm
end Mm
end Linux095
