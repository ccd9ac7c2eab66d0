import Linux095.Mm.PageCounts

/-!
# `Mm.SwapSlots` — the slots of the swap device

* `Slots` — a slot that is not free is in one entry of the page tables, and the other way round;
* `Slots.change` — the changes of the memory keep that, whichever tasks they are made for;
* `Paging.content` — what a slot will hold when the requests before it are served;
* `Swaps`, `Swaps.step` — reads, writes and the pages they are for, over every step;
* `swap_slots` — **slots are named once, freed once, and give back what was swapped out**.
-/

namespace Linux095
namespace Mm
namespace Vm

open Relation

/-- **The slots**, among those that were there to begin with. -/
structure Slots (ok : Nat → Prop) (s : Paging) : Prop where
  named : ∀ d i n, TASK_TABLES ≤ d → s.entry d i = .swap n → n ≠ 0 ∧ n < SWAP_BITS ∧ ok n ∧ s.free n = false
  once : ∀ d d' i i' n, TASK_TABLES ≤ d → TASK_TABLES ≤ d' → s.entry d i = .swap n → s.entry d' i' = .swap n →
    d = d' ∧ i = i'
  /-- No slot is lost. -/
  kept : ∀ n, ok n → s.free n = false → ∃ d i, TASK_TABLES ≤ d ∧ s.entry d i = .swap n
  free : ∀ n, n ≠ 0 → n < SWAP_BITS → s.free n = true → ok n
  /-- No slot was freed twice. -/
  good : s.badSlot = false

section
variable {ok : Nat → Prop} {s s' : Paging}

theorem Slots.congr (h : Slots ok s)
    (he : ∀ d i n, TASK_TABLES ≤ d → (s'.entry d i = .swap n ↔ s.entry d i = .swap n)) (hf : s'.free = s.free)
    (hb : s'.badSlot = s.badSlot) : Slots ok s' := by
  constructor
  · intro d i n hd hn
    rw [hf]
    exact h.named d i n hd ((he d i n hd).mp hn)
  · intro d d' i i' n hd hd' hn hn'
    exact h.once d d' i i' n hd hd' ((he d i n hd).mp hn) ((he d' i' n hd').mp hn')
  · intro n hn hfree
    rw [hf] at hfree
    obtain ⟨d, i, hd, hent⟩ := h.kept n hn hfree
    exact ⟨d, i, hd, (he d i n hd).mpr hent⟩
  · rw [hf]
    exact h.free
  · rw [hb]
    exact h.good

/-- An entry gives up its slot, which is freed. -/
theorem Slots.release (h : Slots ok s) {d i n : Nat} (hd : TASK_TABLES ≤ d) (hn : s.entry d i = .swap n)
    (he : ∀ d' i' m, TASK_TABLES ≤ d' →
      (s'.entry d' i' = .swap m ↔ s.entry d' i' = .swap m ∧ ¬(d' = d ∧ i' = i)))
    (hf : s'.free = fun x => if x = n then true else s.free x) (hb : s'.badSlot = (s.badSlot || s.free n)) :
    Slots ok s' := by
  obtain ⟨hn0, hlt, hok, hused⟩ := h.named d i n hd hn
  constructor
  · intro d' i' m hd' hm
    obtain ⟨hm, hne⟩ := (he d' i' m hd').mp hm
    have hmn : m ≠ n := by
      rintro rfl
      exact hne (h.once d' d i' i m hd' hd hm hn)
    rw [hf]
    simp only [if_neg hmn]
    exact h.named d' i' m hd' hm
  · intro d1 d2 i1 i2 m h1 h2 hm1 hm2
    exact h.once d1 d2 i1 i2 m h1 h2 ((he d1 i1 m h1).mp hm1).1 ((he d2 i2 m h2).mp hm2).1
  · intro m hm hfree
    rw [hf] at hfree
    have hmn : m ≠ n := by
      rintro rfl
      simp at hfree
    simp only [if_neg hmn] at hfree
    obtain ⟨d', i', hd', hent⟩ := h.kept m hm hfree
    refine ⟨d', i', hd', (he d' i' m hd').mpr ⟨hent, ?_⟩⟩
    rintro ⟨rfl, rfl⟩
    rw [hn] at hent
    exact hmn (Entry.swap.inj hent).symm
  · intro m hm0 hmlt hfree
    rw [hf] at hfree
    by_cases hmn : m = n
    · rw [hmn]
      exact hok
    · simp only [if_neg hmn] at hfree
      exact h.free m hm0 hmlt hfree
  · rw [hb, hused, h.good]
    rfl

/-- A free slot is given to an entry. -/
theorem Slots.alloc (h : Slots ok s) {d i n : Nat} (hd : TASK_TABLES ≤ d) (hn0 : n ≠ 0) (hlt : n < SWAP_BITS)
    (hn : s.free n = true)
    (he : ∀ d' i' m, TASK_TABLES ≤ d' →
      (s'.entry d' i' = .swap m ↔ (d' = d ∧ i' = i ∧ m = n) ∨ (s.entry d' i' = .swap m ∧ ¬(d' = d ∧ i' = i))))
    (hold : ∀ m, s.entry d i ≠ .swap m)
    (hf : s'.free = fun x => if x = n then false else s.free x) (hb : s'.badSlot = s.badSlot) : Slots ok s' := by
  have hother : ∀ {d' i' m}, TASK_TABLES ≤ d' → s.entry d' i' = .swap m → m ≠ n := by
    rintro d' i' m hd' hm rfl
    rw [(h.named d' i' m hd' hm).2.2.2] at hn
    cases hn
  constructor
  · intro d' i' m hd' hm
    rw [hf]
    rcases (he d' i' m hd').mp hm with ⟨-, -, rfl⟩ | ⟨hm, -⟩
    · exact ⟨hn0, hlt, h.free m hn0 hlt hn, if_pos rfl⟩
    · simp only [if_neg (hother hd' hm)]
      exact h.named d' i' m hd' hm
  · intro d1 d2 i1 i2 m h1 h2 hm1 hm2
    rcases (he d1 i1 m h1).mp hm1 with ⟨rfl, rfl, rfl⟩ | ⟨hm1, -⟩
    · rcases (he d2 i2 m h2).mp hm2 with ⟨rfl, rfl, -⟩ | ⟨hm2, -⟩
      · exact ⟨rfl, rfl⟩
      · exact absurd rfl (hother h2 hm2)
    · rcases (he d2 i2 m h2).mp hm2 with ⟨rfl, rfl, rfl⟩ | ⟨hm2, -⟩
      · exact absurd rfl (hother h1 hm1)
      · exact h.once d1 d2 i1 i2 m h1 h2 hm1 hm2
  · intro m hm hfree
    by_cases hmn : m = n
    · exact ⟨d, i, hd, (he d i m hd).mpr (.inl ⟨rfl, rfl, hmn⟩)⟩
    · rw [hf] at hfree
      simp only [if_neg hmn] at hfree
      obtain ⟨d', i', hd', hent⟩ := h.kept m hm hfree
      refine ⟨d', i', hd', (he d' i' m hd').mpr (.inr ⟨hent, ?_⟩)⟩
      rintro ⟨rfl, rfl⟩
      exact hold m hent
  · intro m hm0 hmlt hfree
    rw [hf] at hfree
    by_cases hmn : m = n
    · rw [hmn]
      exact h.free n hn0 hlt hn
    · simp only [if_neg hmn] at hfree
      exact h.free m hm0 hmlt hfree
  · rw [hb]
    exact h.good

/-- A slot passes from one entry to another. -/
theorem Slots.move (h : Slots ok s) {d d' i n : Nat} (hd : TASK_TABLES ≤ d) (hd' : TASK_TABLES ≤ d')
    (hn : s.entry d i = .swap n) (hold : ∀ m, s.entry d' i ≠ .swap m)
    (he : ∀ x j m, TASK_TABLES ≤ x →
      (s'.entry x j = .swap m ↔ (x = d' ∧ j = i ∧ m = n) ∨ (s.entry x j = .swap m ∧ ¬(x = d ∧ j = i))))
    (hf : s'.free = s.free) (hb : s'.badSlot = s.badSlot) : Slots ok s' := by
  constructor
  · intro x j m hx hm
    rw [hf]
    rcases (he x j m hx).mp hm with ⟨-, -, rfl⟩ | ⟨hm, -⟩
    · exact h.named d i m hd hn
    · exact h.named x j m hx hm
  · intro x y j k m hx hy hmx hmy
    rcases (he x j m hx).mp hmx with ⟨rfl, rfl, rfl⟩ | ⟨hmx, hne⟩
    · rcases (he y k m hy).mp hmy with ⟨rfl, rfl, -⟩ | ⟨hmy, hne⟩
      · exact ⟨rfl, rfl⟩
      · exact absurd (h.once y d k j m hy hd hmy hn) hne
    · rcases (he y k m hy).mp hmy with ⟨rfl, rfl, rfl⟩ | ⟨hmy, -⟩
      · exact absurd (h.once x d j k m hx hd hmx hn) hne
      · exact h.once x y j k m hx hy hmx hmy
  · intro m hm hfree
    rw [hf] at hfree
    obtain ⟨x, j, hx, hent⟩ := h.kept m hm hfree
    by_cases hc : x = d ∧ j = i
    · obtain ⟨rfl, rfl⟩ := hc
      rw [hn] at hent
      exact ⟨d', j, hd', (he d' j m hd').mpr (.inl ⟨rfl, rfl, (Entry.swap.inj hent).symm⟩)⟩
    · exact ⟨x, j, hx, (he x j m hx).mpr (.inr ⟨hent, hc⟩)⟩
  · rw [hf]
    exact h.free
  · rw [hb]
    exact h.good

/-- Entries without slots come and go. -/
theorem Tables.swap_setEntry (h : Tables s) {d i : Nat} {e : Entry} (hd : s.dir d ≠ none)
    (hold : ∀ m, s.entry d i ≠ .swap m) (hnew : ∀ m, e ≠ .swap m) (d' i' m : Nat) :
    (s.setEntry d i e).entry d' i' = .swap m ↔ s.entry d' i' = .swap m := by
  rw [h.entry_setEntry hd]
  by_cases hc : d' = d ∧ i' = i
  · rw [if_pos hc, hc.1, hc.2]
    exact ⟨fun he => absurd he (hnew m), fun he => absurd he (hold m)⟩
  · rw [if_neg hc]

theorem Slots.setEntry (h : Slots ok s) (ht : Tables s) {d i : Nat} {e : Entry} (hd : s.dir d ≠ none)
    (hold : ∀ m, s.entry d i ≠ .swap m) (hnew : ∀ m, e ≠ .swap m) : Slots ok (s.setEntry d i e) :=
  h.congr (fun d' i' m _ => ht.swap_setEntry hd hold hnew d' i' m) (free_setEntry _ _ _ _) (badSlot_setEntry _ _ _ _)

theorem page_not_swap {e : Entry} {f : Frame} {rw b : Bool} (he : e = .page f rw b) (m : Nat) : e ≠ .swap m := by
  rw [he]
  exact Entry.noConfusion

theorem none_not_swap {e : Entry} (he : e = .none) (m : Nat) : e ≠ .swap m := by
  rw [he]
  exact Entry.noConfusion

theorem free_swapFree {n : Nat} (h0 : n ≠ 0) (hlt : n < SWAP_BITS) :
    (s.swapFree n).free = fun x => if x = n then true else s.free x := by
  unfold Paging.swapFree
  rw [if_neg h0, if_pos hlt]
  rfl

theorem badSlot_swapFree {n : Nat} (h0 : n ≠ 0) (hlt : n < SWAP_BITS) :
    (s.swapFree n).badSlot = (s.badSlot || s.free n) := by
  unfold Paging.swapFree
  rw [if_neg h0, if_pos hlt]

/-- An entry gives up its slot for something else. -/
theorem Slots.giveUp (h : Slots ok s) (ht : Tables s) {d i n : Nat} {e : Entry} (hd : TASK_TABLES ≤ d)
    (hn : s.entry d i = .swap n) (hnew : ∀ m, e ≠ .swap m) : Slots ok ((s.swapFree n).setEntry d i e) := by
  obtain ⟨hn0, hlt, -, -⟩ := h.named d i n hd hn
  have hdir : (s.swapFree n).dir d ≠ none := by
    obtain ⟨T, hT⟩ := dir_of_entry (s := s) (d := d) (i := i) (by rw [hn]; exact Entry.noConfusion)
    simp [hT]
  have ht' : Tables (s.swapFree n) := ht.congr (startMem_swapFree _ _) (highMem_swapFree _ _) (dir_swapFree _ _)
    (table_swapFree _ _) fun f hf => .inl (by rwa [kernel_swapFree] at hf)
  refine h.release hd hn (fun d' i' m _ => ?_) ((free_setEntry _ _ _ _).trans (free_swapFree hn0 hlt))
    ((badSlot_setEntry _ _ _ _).trans (badSlot_swapFree hn0 hlt))
  rw [ht'.entry_setEntry hdir, entry_swapFree]
  by_cases hc : d' = d ∧ i' = i
  · rw [if_pos hc]
    exact ⟨fun he => absurd he (hnew m), fun he => absurd hc he.2⟩
  · rw [if_neg hc]
    exact ⟨fun he => ⟨he, hc⟩, And.left⟩

theorem setEntry_swapFree (s : Paging) (d i n : Nat) (e : Entry) :
    (s.setEntry d i e).swapFree n = (s.swapFree n).setEntry d i e := by
  unfold Paging.setEntry
  rw [dir_swapFree]
  cases s.dir d with
  | none => rfl
  | some T =>
      unfold Paging.swapFree
      show (if n = 0 then _ else if n < SWAP_BITS then _ else _) = Paging.setTable _ T i e
      split
      · rfl
      · split <;> rfl

theorem Slots.dropEntry (h : Slots ok s) (ht : Tables s) {d : Nat} (hd : TASK_TABLES ≤ d) (i : Nat) :
    Slots ok (s.dropEntry d i) := by
  unfold Paging.dropEntry
  cases he : s.entry d i with
  | none => exact h
  | page f rw b =>
      refine (h.setEntry (e := .none) ht (dir_of_page he) (page_not_swap he) (none_not_swap rfl)).congr
        (fun d' i' m _ => ?_) (free_freePage _ _) (badSlot_freePage _ _)
      rw [entry_freePage]
  | swap n =>
      show Slots ok ((s.setEntry d i .none).swapFree n)
      rw [setEntry_swapFree]
      exact h.giveUp ht hd he (none_not_swap rfl)

theorem Slots.freePageTables (h : Slots ok s) (hc : Counts s) {d n : Nat} (hd : TASK_TABLES ≤ d) :
    Slots ok (s.freePageTables d n) := by
  have hboth : Counts (s.freePageTables d n) ∧ Slots ok (s.freePageTables d n) := by
    refine freePageTables_induct (P := fun s => Counts s ∧ Slots ok s) (fun s hs => hs.1.tables) ?_ ?_ ⟨hc, h⟩
    · rintro s k i - ⟨hc, h⟩
      exact ⟨hc.dropEntry (by omega) i, h.dropEntry hc.tables (by omega) i⟩
    · rintro s k T - ⟨hc, h⟩ hT hempty
      refine ⟨hc.removeTable hT (by omega) hempty, h.congr (fun d' i m _ => ?_) (free_freePage _ _)
        (badSlot_freePage _ _)⟩
      rw [entry_freePage, entry_setDir_none hempty]
  exact hboth.2

theorem getSwapPage_spec {n : Nat} (hn : s.getSwapPage = some n) : n ≠ 0 ∧ n < SWAP_BITS ∧ s.free n = true := by
  unfold Paging.getSwapPage at hn
  have hfind := List.find?_some hn
  have hmem := List.mem_of_find?_eq_some hn
  rw [List.mem_range] at hmem
  simp only [ne_eq, decide_not, Bool.and_eq_true, Bool.not_eq_true', decide_eq_false_iff_not] at hfind
  exact ⟨hfind.1, hmem, hfind.2⟩

/-- **Every change of the memory keeps the slots.** -/
theorem Slots.change {U : Nat → Prop} {K : Frame → Prop} {S : Nat → Nat → Nat → Prop} (h : Slots ok s) (hc : Counts s)
    (hch : Change U K S s s') : Slots ok s' := by
  cases hch with
  | take hf => exact h.congr (fun d i n _ => by rw [hc.entry_take hf]) rfl rfl
  | read n hf =>
      refine h.congr (fun d i m _ => ?_) rfl rfl
      show (s.take _).entry d i = _ ↔ _
      rw [hc.entry_take hf]
  | table hf hd hd16 hlt hu => exact h.congr (fun d i n _ => by rw [hc.entry_newTable hf hd]) rfl rfl
  | release hk hK =>
      refine h.congr (fun d i n _ => ?_) (free_freePage _ _) (badSlot_freePage _ _)
      rw [Paging.release, entry_freePage]
      rfl
  | fill p hk hK => exact h.congr (fun _ _ _ _ => Iff.rfl) rfl rfl
  | map rw b hk hK hd hd16 hi he hu =>
      exact (h.setEntry hc.tables hd (none_not_swap he) (page_not_swap rfl)).congr (fun _ _ _ _ => Iff.rfl) rfl rfl
  | swapIn hk hK hd16 he hu =>
      exact (h.giveUp hc.tables hd16 he (page_not_swap rfl)).congr (fun _ _ _ _ => Iff.rfl) rfl rfl
  | flags rw' b' hd16 he hrw => exact h.setEntry hc.tables (dir_of_page he) (page_not_swap he) (page_not_swap rfl)
  | @share f d d' i rw b hf hd hd16 hd16' he he' hplace hu hS =>
      have hflags := hc.setFlags false b hd16' he'
      have hdd : d ≠ d' := by
        rintro rfl
        rw [he] at he'
        cases he'
      have hsource : Slots ok (s.setEntry d' i (.page f false b)) :=
        h.setEntry hc.tables (dir_of_page he') (page_not_swap he') (page_not_swap rfl)
      have hhole : ∀ m, (s.setEntry d' i (.page f false b)).entry d i ≠ .swap m := by
        rw [hc.tables.entry_setEntry (dir_of_page he'), if_neg (fun hc => hdd hc.1)]
        exact none_not_swap he
      exact (hsource.setEntry hflags.tables (by simpa using hd) hhole (page_not_swap rfl)).congr
        (fun _ _ _ _ => Iff.rfl) rfl rfl
  | low b hf hd hd16 hi he hu hS => exact h.setEntry hc.tables hd (none_not_swap he) (page_not_swap rfl)
  | @copy f g d i rw b hk hK hd16 he =>
      have hdata : Slots ok (s.setData g (s.data f)) := h.congr (fun _ _ _ _ => Iff.rfl) rfl rfl
      have hset : Slots ok ((s.setData g (s.data f)).setEntry d i (.page g true b)) :=
        hdata.setEntry (hc.setData _ _).tables (dir_of_page he) (page_not_swap he) (page_not_swap rfl)
      refine hset.congr (fun d' i' m _ => ?_) (free_freePage _ _) (badSlot_freePage _ _)
      rw [entry_freePage]
      rfl
  | @move f d d' i n hk hK hd hd16 hd16' hne he he' hu hu' =>
      have hslot := hc.setSlot hd hd16' (hc.tables.index_lt (by rw [he]; exact Entry.noConfusion)) he' n
      have hdir : (s.setEntry d' i (.swap n)).dir d ≠ none := by
        obtain ⟨T, hT⟩ := dir_of_entry (s := s) (d := d) (i := i) (by rw [he]; exact Entry.noConfusion)
        simp [hT]
      refine h.move hd16 hd16' he (none_not_swap he') (fun x j m _ => ?_)
        ((free_setEntry _ _ _ _).trans (free_setEntry _ _ _ _))
        ((badSlot_setEntry _ _ _ _).trans (badSlot_setEntry _ _ _ _))
      show ((s.setEntry d' i (.swap n)).setEntry d i (.page f true true)).entry x j = _ ↔ _
      rw [hslot.tables.entry_setEntry hdir, hc.tables.entry_setEntry hd]
      by_cases h1 : x = d ∧ j = i
      · rw [if_pos h1]
        constructor
        · exact fun hc => Entry.noConfusion hc
        · rintro (⟨rfl, -, -⟩ | ⟨-, hno⟩)
          · exact absurd h1.1 hne
          · exact absurd h1 hno
      · rw [if_neg h1]
        by_cases h2 : x = d' ∧ j = i
        · rw [if_pos h2]
          constructor
          · intro hm
            exact .inl ⟨h2.1, h2.2, (Entry.swap.inj hm).symm⟩
          · rintro (⟨-, -, rfl⟩ | ⟨hm, -⟩)
            · rfl
            · rw [h2.1, h2.2, he'] at hm
              cases hm
        · rw [if_neg h2]
          constructor
          · exact fun hm => .inr ⟨hm, h1⟩
          · rintro (⟨hx, hj, -⟩ | ⟨hm, -⟩)
            · exact absurd ⟨hx, hj⟩ h2
            · exact hm
  | clear d n hd16 hu => exact h.freePageTables hc hd16
  | @swapOut d i s' hd16 hs =>
      obtain ⟨f, rw, b, he, -, ⟨-, n, hn, rfl⟩ | rfl⟩ := swapOut_cases hs
      · obtain ⟨hn0, hlt, hfree⟩ := getSwapPage_spec hn
        have hbit : Counts (s.setFree n false) := hc.congr rfl rfl rfl rfl rfl rfl rfl
        refine h.alloc hd16 hn0 hlt hfree (fun d' i' m _ => ?_) (page_not_swap he) (free_setEntry _ _ _ _)
          (badSlot_setEntry _ _ _ _)
        show ((s.setFree n false).setEntry d i (.swap n)).entry d' i' = _ ↔ _
        rw [hbit.tables.entry_setEntry (dir_of_page (s := s) he)]
        by_cases hx : d' = d ∧ i' = i
        · rw [if_pos hx]
          constructor
          · intro hm
            exact .inl ⟨hx.1, hx.2, (Entry.swap.inj hm).symm⟩
          · rintro (⟨-, -, rfl⟩ | ⟨-, hno⟩)
            · rfl
            · exact absurd hx hno
        · rw [if_neg hx]
          constructor
          · exact fun hm => .inr ⟨hm, hx⟩
          · rintro (⟨h1, h2, -⟩ | ⟨hm, -⟩)
            · exact absurd ⟨h1, h2⟩ hx
            · exact hm
      · refine (h.setEntry (e := .none) hc.tables (dir_of_page he) (page_not_swap he) (none_not_swap rfl)).congr
          (fun d' i' m _ => ?_) (free_freePage _ _) (badSlot_freePage _ _)
        rw [entry_freePage]
  | complete hs =>
      rcases complete_cases hs with ⟨n, f, q, -, rfl⟩ | ⟨n, f, q, -, rfl⟩
      · exact h.congr (fun _ _ _ _ => Iff.rfl) rfl rfl
      · exact h.congr (fun _ _ _ _ => Iff.rfl) rfl rfl
  | store o x hd16 he =>
      exact (h.setEntry hc.tables (dir_of_page he) (page_not_swap he) (page_not_swap rfl)).congr
        (fun _ _ _ _ => Iff.rfl) rfl rfl

theorem Slots.changes {U : Nat → Prop} {K : Frame → Prop} {S : Nat → Nat → Nat → Prop} (h : Slots ok s) (hc : Counts s)
    (hch : ReflTransGen (Change U K S) s s') : Slots ok s' := by
  induction hch with
  | refl => exact h
  | tail hfirst hlast ih => exact ih.change (Changes.counts hfirst hc) hlast

end

/-! ## Requests -/

def Req.frame : Req → Frame
  | write _ f => f
  | read _ f => f

/-- The pages that are to be written to a slot. -/
def written (n : Nat) : List Req → List Frame
  | [] => []
  | .write m f :: q => if m = n then f :: written n q else written n q
  | .read _ _ :: q => written n q

/-- **What a slot will hold** when the requests before it are served. -/
def Paging.content (s : Paging) (n : Nat) : Page :=
  match (written n s.queue).getLast? with
  | some f => s.data f
  | none => s.disk n

/-- The slot a task reads, and the page it reads it into. -/
def Proc.reading : Proc → Option (Nat × Frame)
  | swapRead _ n f | forkRead _ _ _ n f => some (n, f)
  | _ => Option.none

theorem written_self (n : Nat) (f : Frame) (q : List Req) : written n (.write n f :: q) = f :: written n q := if_pos rfl

theorem written_other {n m : Nat} (h : m ≠ n) (f : Frame) (q : List Req) :
    written m (.write n f :: q) = written m q := if_neg (Ne.symm h)

theorem written_append (n : Nat) : ∀ q q' : List Req, written n (q ++ q') = written n q ++ written n q'
  | [], _ => rfl
  | .write m f :: q, q' => by
      have ih := written_append n q q'
      by_cases hm : n = m
      · subst hm
        rw [List.cons_append, written_self, written_self, ih, List.cons_append]
      · rw [List.cons_append, written_other hm, written_other hm, ih]
  | .read _ _ :: q, q' => written_append n q q'

theorem mem_written {n : Nat} {f : Frame} : ∀ {q : List Req}, f ∈ written n q ↔ .write n f ∈ q
  | [] => by simp [written]
  | .write m g :: q => by
      have ih := mem_written (n := n) (f := f) (q := q)
      by_cases hm : n = m
      · subst hm
        rw [written_self, List.mem_cons, List.mem_cons, ih]
        simp
      · rw [written_other hm, ih, List.mem_cons]
        simp [hm]
  | .read m g :: q => by
      show f ∈ written n q ↔ _
      rw [mem_written, List.mem_cons]
      simp

theorem Proc.frames_of_reading {q : Proc} {n : Nat} {f : Frame} (h : q.reading = some (n, f)) : q.frames = [f] := by
  cases q with
  | swapRead v m g =>
      obtain ⟨-, rfl⟩ := Prod.mk.inj (Option.some.inj h)
      rfl
  | forkRead c k i m g =>
      obtain ⟨-, rfl⟩ := Prod.mk.inj (Option.some.inj h)
      rfl
  | _ => cases h

/-- A slot that is read is in an entry. -/
theorem Inv.reading_named {c : Config} (h : Inv c) {t n : Nat} {f : Frame} (hr : (c.procs t).reading = some (n, f)) :
    ∃ d i, TASK_TABLES ≤ d ∧ c.mem.entry d i = .swap n := by
  have hknow := h.knows t
  cases hp : c.procs t with
  | swapRead v m g =>
      rw [hp] at hr hknow
      obtain ⟨rfl, -⟩ := Prod.mk.inj (Option.some.inj hr)
      exact ⟨_, _, dirOf_ge hknow.1, hknow.2.2⟩
  | forkRead x k i m g =>
      rw [hp] at hr hknow
      obtain ⟨rfl, -⟩ := Prod.mk.inj (Option.some.inj hr)
      exact ⟨_, _, table_ge hknow.1, hknow.2.2.2.2⟩
  | _ =>
      rw [hp] at hr
      cases hr

/-- **The requests to the swap device.** -/
structure Content (c : Config) : Prop where
  slot : ∀ d i n, TASK_TABLES ≤ d → c.mem.entry d i = .swap n → c.mem.content n = c.mem.saved n
  /-- A page that is written belongs to the kernel, and no task has it. -/
  writes : ∀ n f, .write n f ∈ c.mem.queue → c.mem.kernel f ∧ ∀ t, f ∉ (c.procs t).frames
  reads : ∀ n f, .read n f ∈ c.mem.queue → ∃ t, (c.procs t).reading = some (n, f)
  nodup : (c.mem.queue.map Req.frame).Nodup
  /-- Nothing is written to a slot that is to be read. -/
  after : ∀ l l' n f, c.mem.queue = l ++ .read n f :: l' → written n l' = []
  done : ∀ t n f, (c.procs t).reading = some (n, f) → .read n f ∉ c.mem.queue → c.mem.data f = c.mem.saved n

/-- Tasks and memory, slots and requests. -/
structure Swaps (ok : Nat → Prop) (c : Config) : Prop where
  inv : Inv c
  slots : Slots ok c.mem
  content : Content c

section
variable {ok : Nat → Prop} {c c' : Config}

theorem content_congr {s s' : Paging} (hq : s'.queue = s.queue) (hd : s'.disk = s.disk) (n : Nat)
    (hdata : ∀ f, .write n f ∈ s.queue → s'.data f = s.data f) : s'.content n = s.content n := by
  unfold Paging.content
  rw [hq, hd]
  cases hl : (written n s.queue).getLast? with
  | none => rfl
  | some f => exact hdata f (mem_written.mp (List.mem_of_getLast? hl))

/-- **Nothing is swapped**, and the tasks that stop reading have read. -/
theorem Content.quiet (h : Swaps ok c) (hslots : Slots ok c'.mem) {K : Frame → Prop} (hq : Quiet K c.mem c'.mem)
    (hK : ∀ f, K f → (∃ t, f ∈ (c.procs t).frames ∧ (c'.procs t).reading = none) ∨ c.Idle f)
    (hread : ∀ t x, (c'.procs t).reading = some x → (c.procs t).reading = some x)
    (hstop : ∀ t n f, (c.procs t).reading = some (n, f) → (c'.procs t).reading = some (n, f) ∨ .read n f ∉ c.mem.queue)
    (hframes : ∀ t f, f ∈ (c'.procs t).frames → f ∈ (c.procs t).frames ∨ c.mem.kernel f = false) : Content c' := by
  have hwrite : ∀ n f, .write n f ∈ c.mem.queue → ¬K f := by
    intro n f hw hf
    rcases hK f hf with ⟨t, ht, -⟩ | hidle
    · exact (h.content.writes n f hw).2 t ht
    · exact (hidle.2 n).1 hw
  constructor
  · intro d i n hd hn
    obtain ⟨-, -, hok, hused⟩ := hslots.named d i n hd hn
    obtain ⟨d', i', hd', hn'⟩ := h.slots.kept n hok (hq.free n hused)
    rw [content_congr hq.queue hq.disk n fun f hw => hq.data f (h.content.writes n f hw).1 (hwrite n f hw), hq.saved]
    exact h.content.slot d' i' n hd' hn'
  · intro n f hw
    rw [hq.queue] at hw
    obtain ⟨hk, hnot⟩ := h.content.writes n f hw
    refine ⟨hq.kernel f hk (hwrite n f hw), fun t ht => ?_⟩
    rcases hframes t f ht with hold | hnew
    · exact hnot t hold
    · rw [hk] at hnew
      cases hnew
  · intro n f hr
    rw [hq.queue] at hr
    obtain ⟨t, ht⟩ := h.content.reads n f hr
    rcases hstop t n f ht with hstill | hno
    · exact ⟨t, hstill⟩
    · exact absurd hr hno
  · rw [hq.queue]
    exact h.content.nodup
  · rw [hq.queue]
    exact h.content.after
  · intro t n f ht hno
    rw [hq.queue] at hno
    have hold := hread t (n, f) ht
    have hmem : f ∈ (c.procs t).frames := by simp [Proc.frames_of_reading hold]
    rw [hq.saved, hq.data f (h.inv.held t f hmem), h.content.done t n f hold hno]
    intro hf
    rcases hK f hf with ⟨t', ht', hnone⟩ | hidle
    · rw [h.inv.apart t t' f hmem ht', hnone] at ht
      cases ht
    · exact hidle.1 t hmem

/-- A task goes on without a request. -/
theorem Content.act (h : Swaps ok c) {t : Nat} {q : Proc} {s' : Paging} {K : Frame → Prop} (hslots : Slots ok s')
    (hq : Quiet K c.mem s') (hK : ∀ f, K f → f ∈ (c.procs t).frames) (hnone : q.reading = none)
    (hstop : ∀ n f, (c.procs t).reading = some (n, f) → .read n f ∉ c.mem.queue)
    (hframes : ∀ f ∈ q.frames, f ∈ (c.procs t).frames ∨ c.mem.kernel f = false) : Content (c.goto t q s') := by
  have hother : ∀ {u}, u ≠ t → (c.goto t q s').procs u = c.procs u := fun hu => if_neg hu
  have hhere : (c.goto t q s').procs t = q := if_pos rfl
  refine Content.quiet h hslots hq (fun f hf => .inl ⟨t, hK f hf, by rw [hhere, hnone]⟩) ?_ ?_ ?_
  · intro u x hx
    by_cases hu : u = t
    · rw [hu, hhere, hnone] at hx
      cases hx
    · rwa [hother hu] at hx
  · intro u n f hf
    by_cases hu : u = t
    · rw [hu] at hf
      exact .inr (hstop n f hf)
    · rw [hother hu]
      exact .inl hf
  · intro u f hf
    by_cases hu : u = t
    · rw [hu, hhere] at hf
      rw [hu]
      exact hframes f hf
    · rw [hother hu] at hf
      exact .inl hf

/-- A task asks for a slot to be read. -/
theorem Content.read (h : Swaps ok c) {t n : Nat} {q : Proc} {f : Frame} (hf : c.mem.CanTake f)
    (hnone : (c.procs t).reading = none)
    (hq : q.reading = some (n, f)) :
    Content (c.goto t q { c.mem.take f with queue := c.mem.queue ++ [.read n f] }) := by
  have hother : ∀ {u s'}, u ≠ t → (c.goto t q s').procs u = c.procs u := fun hu => if_neg hu
  have hhere : ∀ {s'}, (c.goto t q s').procs t = q := if_pos rfl
  have hfree := h.inv.counts.not_kernel hf
  have hfresh : ∀ r ∈ c.mem.queue, r.frame ≠ f := by
    intro r hr hrf
    cases r with
    | write m g =>
        have hg : g = f := hrf
        rw [← hg, (h.content.writes m g hr).1] at hfree
        cases hfree
    | read m g =>
        have hg : g = f := hrf
        obtain ⟨u, hu⟩ := h.content.reads m g hr
        rw [← hg, h.inv.held u g (by simp [Proc.frames_of_reading hu])] at hfree
        cases hfree
  have hdata : ∀ {g}, g ≠ f → (c.mem.take f).data g = c.mem.data g := fun hg => if_neg hg
  have hwritten : ∀ m, written m (c.mem.queue ++ [.read n f]) = written m c.mem.queue := by
    intro m
    rw [written_append]
    exact List.append_nil _
  constructor
  · intro d' i' m hd' hm
    have hm : (c.mem.take f).entry d' i' = .swap m := hm
    rw [h.inv.counts.entry_take hf] at hm
    refine Eq.trans ?_ (h.content.slot d' i' m hd' hm)
    show (match (written m (c.mem.queue ++ [.read n f])).getLast? with
      | some g => (c.mem.take f).data g
      | none => c.mem.disk m) = _
    rw [hwritten]
    unfold Paging.content
    cases hl : (written m c.mem.queue).getLast? with
    | none => rfl
    | some g => exact hdata (hfresh _ (mem_written.mp (List.mem_of_getLast? hl)))
  · intro m g hw
    have hw : .write m g ∈ c.mem.queue := by
      rcases List.mem_append.mp hw with hw | hw
      · exact hw
      · simp at hw
    obtain ⟨hk, hnot⟩ := h.content.writes m g hw
    refine ⟨?_, fun u hu => ?_⟩
    · show (if g = f then true else c.mem.kernel g) = true
      rw [hk, ite_self]
    · by_cases hut : u = t
      · rw [hut, hhere, Proc.frames_of_reading hq, List.mem_singleton] at hu
        exact hfresh _ hw hu
      · rw [hother hut] at hu
        exact hnot u hu
  · intro m g hr
    rcases List.mem_append.mp hr with hr | hr
    · obtain ⟨u, hu⟩ := h.content.reads m g hr
      have hut : u ≠ t := by
        rintro rfl
        rw [hnone] at hu
        cases hu
      exact ⟨u, by rw [hother hut]; exact hu⟩
    · obtain ⟨rfl, rfl⟩ := Req.read.inj (List.mem_singleton.mp hr)
      exact ⟨t, by rw [hhere]; exact hq⟩
  · show ((c.mem.queue ++ [Req.read n f]).map Req.frame).Nodup
    rw [List.map_append, List.nodup_append]
    refine ⟨h.content.nodup, List.nodup_singleton _, fun a ha b hb => ?_⟩
    obtain ⟨r, hr, rfl⟩ := List.mem_map.mp ha
    obtain rfl := List.mem_singleton.mp hb
    exact hfresh r hr
  · intro l l' m g hsplit
    have hsplit : c.mem.queue ++ [Req.read n f] = l ++ Req.read m g :: l' := hsplit
    rcases List.append_eq_append_iff.mp hsplit with ⟨a, ha, hb⟩ | ⟨a, ha, hb⟩
    · cases a with
      | nil =>
          have hb : [Req.read n f] = Req.read m g :: l' := hb
          have hl : l' = [] := (List.cons.inj hb).2.symm
          rw [hl]
          rfl
      | cons r a =>
          have hb : [Req.read n f] = r :: (a ++ Req.read m g :: l') := hb
          exact absurd (List.cons.inj hb).2.symm (by simp)
    · cases a with
      | nil =>
          have hb : Req.read m g :: l' = [Req.read n f] := hb
          rw [(List.cons.inj hb).2]
          rfl
      | cons r a =>
          have hb : Req.read m g :: l' = r :: (a ++ [Req.read n f]) := hb
          obtain ⟨rfl, rfl⟩ := List.cons.inj hb
          rw [written_append, h.content.after l a m g ha]
          rfl
  · intro u m g hu hno
    by_cases hut : u = t
    · rw [hut, hhere, hq] at hu
      obtain ⟨rfl, rfl⟩ := Prod.mk.inj (Option.some.inj hu)
      exact absurd (List.mem_append_right _ (List.mem_singleton.mpr rfl)) hno
    · rw [hother hut] at hu
      have hmem : g ∈ (c.procs u).frames := by simp [Proc.frames_of_reading hu]
      have hg : g ≠ f := by
        rintro rfl
        rw [h.inv.held u g hmem] at hfree
        cases hfree
      show (c.mem.take f).data g = c.mem.saved m
      rw [hdata hg]
      exact h.content.done u m g hu fun hr => hno (List.mem_append_left _ hr)

/-- The pages of requests that wait belong to the kernel. -/
theorem Swaps.frame_kernel (h : Swaps ok c) {r : Req} (hr : r ∈ c.mem.queue) : c.mem.kernel r.frame := by
  cases r with
  | write m g => exact (h.content.writes m g hr).1
  | read m g =>
      obtain ⟨u, hu⟩ := h.content.reads m g hr
      exact h.inv.held u g (by simp [Proc.frames_of_reading hu])

/-- A page goes to the swap device. -/
theorem Content.swapOut (h : Swaps ok c) {d i n : Nat} {f : Frame} {rw b : Bool} (hd : TASK_TABLES ≤ d)
    (he : c.mem.entry d i = .page f rw b) (hfree : c.mem.free n = true) :
    Content { c with mem := { ((c.mem.setFree n false).setEntry d i (.swap n)).setKernel f true with
      queue := c.mem.queue ++ [.write n f]
      saved := fun x => if x = n then c.mem.data f else c.mem.saved x } } := by
  have hnk : c.mem.kernel f = false := by
    cases hk : c.mem.kernel f with
    | false => rfl
    | true => exact absurd he (h.inv.counts.kernel_not_entry hk hd)
  have hfresh : ∀ r ∈ c.mem.queue, r.frame ≠ f := by
    intro r hr hrf
    have hk := h.frame_kernel hr
    rw [hrf, hnk] at hk
    cases hk
  have hold : ∀ {d' i' m}, TASK_TABLES ≤ d' → c.mem.entry d' i' = .swap m → m ≠ n := by
    rintro d' i' m hd' hm rfl
    rw [(h.slots.named d' i' m hd' hm).2.2.2] at hfree
    cases hfree
  have hbit : Tables (c.mem.setFree n false) := h.inv.counts.tables.congr rfl rfl rfl rfl fun g hg => .inl hg
  have hwritten : ∀ {m}, m ≠ n → written m (c.mem.queue ++ [.write n f]) = written m c.mem.queue := by
    intro m hm
    rw [written_append]
    rw [written_other hm]
    exact List.append_nil _
  have hkernel : ∀ {g}, c.mem.kernel g →
      (if g = f then true else ((c.mem.setFree n false).setEntry d i (.swap n)).kernel g) = true := by
    intro g hg
    rw [kernel_setEntry]
    split
    · rfl
    · exact hg
  constructor
  · intro d' i' m hd' hm
    have hm : ((c.mem.setFree n false).setEntry d i (.swap n)).entry d' i' = .swap m := hm
    rw [hbit.entry_setEntry (dir_of_page (s := c.mem) he)] at hm
    show (match (written m (c.mem.queue ++ [.write n f])).getLast? with
      | some g => ((c.mem.setFree n false).setEntry d i (.swap n)).data g
      | none => ((c.mem.setFree n false).setEntry d i (.swap n)).disk m) =
        if m = n then c.mem.data f else c.mem.saved m
    rw [data_setEntry, disk_setEntry]
    split at hm
    · obtain rfl := Entry.swap.inj hm
      have hlast : written n (c.mem.queue ++ [.write n f]) = written n c.mem.queue ++ [f] := by
        rw [written_append, written_self]
        rfl
      rw [hlast, List.getLast?_concat, if_pos rfl]
      rfl
    · have hmn := hold hd' hm
      rw [hwritten hmn, if_neg hmn]
      exact h.content.slot d' i' m hd' hm
  · intro m g hw
    rcases List.mem_append.mp hw with hw | hw
    · obtain ⟨hk, hnot⟩ := h.content.writes m g hw
      exact ⟨hkernel hk, hnot⟩
    · obtain ⟨rfl, rfl⟩ := Req.write.inj (List.mem_singleton.mp hw)
      refine ⟨if_pos rfl, fun t ht => ?_⟩
      rw [h.inv.held t g ht] at hnk
      cases hnk
  · intro m g hr
    rcases List.mem_append.mp hr with hr | hr
    · exact h.content.reads m g hr
    · simp at hr
  · show ((c.mem.queue ++ [Req.write n f]).map Req.frame).Nodup
    rw [List.map_append, List.nodup_append]
    refine ⟨h.content.nodup, List.nodup_singleton _, fun a ha b hb => ?_⟩
    obtain ⟨r, hr, rfl⟩ := List.mem_map.mp ha
    obtain rfl := List.mem_singleton.mp hb
    exact hfresh r hr
  · intro l l' m g hsplit
    have hsplit : c.mem.queue ++ [Req.write n f] = l ++ Req.read m g :: l' := hsplit
    -- the slot that is read is in an entry, and `n` was free
    have hmn : Req.read m g ∈ c.mem.queue → m ≠ n := by
      intro hr
      obtain ⟨u, hu⟩ := h.content.reads m g hr
      obtain ⟨d', i', hd', hm⟩ := h.inv.reading_named hu
      exact hold hd' hm
    rcases List.append_eq_append_iff.mp hsplit with ⟨a, ha, hb⟩ | ⟨a, ha, hb⟩
    · cases a with
      | nil =>
          have hb : [Req.write n f] = Req.read m g :: l' := hb
          cases (List.cons.inj hb).1
      | cons r a =>
          have hb : [Req.write n f] = r :: (a ++ Req.read m g :: l') := hb
          exact absurd (List.cons.inj hb).2.symm (by simp)
    · cases a with
      | nil =>
          have hb : Req.read m g :: l' = [Req.write n f] := hb
          cases (List.cons.inj hb).1
      | cons r a =>
          have hb : Req.read m g :: l' = r :: (a ++ [Req.write n f]) := hb
          obtain ⟨rfl, rfl⟩ := List.cons.inj hb
          have hmem : Req.read m g ∈ c.mem.queue := by
            rw [ha]
            exact List.mem_append_right _ (List.mem_cons_self ..)
          rw [written_append, h.content.after l a m g ha, written_other (hmn hmem)]
          rfl
  · intro u m g hu hno
    obtain ⟨d', i', hd', hm⟩ := h.inv.reading_named hu
    have hdone := h.content.done u m g hu fun hr => hno (List.mem_append_left _ hr)
    show ((c.mem.setFree n false).setEntry d i (.swap n)).data g = if m = n then c.mem.data f else c.mem.saved m
    rw [data_setEntry, if_neg (hold hd' hm)]
    exact hdone

/-- The swap device has served a request. -/
theorem Content.complete (h : Swaps ok c) {s' : Paging} (hs : c.mem.complete = some s') :
    Content { c with mem := s' } := by
  rcases complete_cases hs with ⟨n, f, q, hq, rfl⟩ | ⟨n, f, q, hq, rfl⟩
  · have hin : ∀ {r}, r ∈ q → r ∈ c.mem.queue := fun hr => by
      rw [hq]
      exact List.mem_cons_of_mem _ hr
    constructor
    · intro d i m hd hm
      have hold := h.content.slot d i m hd hm
      unfold Paging.content at hold ⊢
      rw [hq] at hold
      dsimp only
      by_cases hmn : n = m
      · subst hmn
        rw [written_self] at hold
        rw [if_pos rfl]
        cases hl : (written n q).getLast? with
        | none =>
            rw [List.getLast?_eq_none_iff.mp hl] at hold
            exact hold
        | some g =>
            rw [List.getLast?_cons, hl] at hold
            exact hold
      · rw [written_other (Ne.symm hmn)] at hold
        rw [if_neg (Ne.symm hmn)]
        exact hold
    · exact fun m g hw => h.content.writes m g (hin hw)
    · exact fun m g hr => h.content.reads m g (hin hr)
    · have hnodup := h.content.nodup
      rw [hq, List.map_cons, List.nodup_cons] at hnodup
      exact hnodup.2
    · exact fun l l' m g hsplit => h.content.after (.write n f :: l) l' m g (hq.trans (congrArg _ hsplit))
    · intro u m g hu hno
      refine h.content.done u m g hu fun hr => ?_
      rw [hq] at hr
      rcases List.mem_cons.mp hr with he | hr
      · cases he
      · exact hno hr
  · have hin : ∀ {r}, r ∈ q → r ∈ c.mem.queue := fun hr => by
      rw [hq]
      exact List.mem_cons_of_mem _ hr
    have hnodup := h.content.nodup
    rw [hq, List.map_cons, List.nodup_cons] at hnodup
    have hdata : ∀ {r}, r ∈ q → (if r.frame = f then c.mem.disk n else c.mem.data r.frame) = c.mem.data r.frame := by
      intro r hr
      refine if_neg fun he => hnodup.1 (List.mem_map.mpr ⟨r, hr, he⟩)
    have hread : Req.read n f ∈ c.mem.queue := by
      rw [hq]
      exact List.mem_cons_self ..
    obtain ⟨t, ht⟩ := h.content.reads n f hread
    constructor
    · intro d i m hd hm
      refine Eq.trans ?_ (h.content.slot d i m hd hm)
      unfold Paging.content
      rw [hq]
      show (match (written m q).getLast? with
        | some g => if g = f then c.mem.disk n else c.mem.data g
        | none => c.mem.disk m) = (match (written m q).getLast? with
        | some g => c.mem.data g
        | none => c.mem.disk m)
      cases hl : (written m q).getLast? with
      | none => rfl
      | some g => exact hdata (mem_written.mp (List.mem_of_getLast? hl))
    · exact fun m g hw => h.content.writes m g (hin hw)
    · exact fun m g hr => h.content.reads m g (hin hr)
    · exact hnodup.2
    · exact fun l l' m g hsplit => h.content.after (.read n f :: l) l' m g (hq.trans (congrArg _ hsplit))
    · intro u m g hu hno
      show (if g = f then c.mem.disk n else c.mem.data g) = c.mem.saved m
      have hg : g ∈ (c.procs u).frames := by simp [Proc.frames_of_reading hu]
      by_cases hgf : g = f
      · -- the task that asked for it, and nothing else is to be written to the slot
        subst hgf
        obtain rfl := h.inv.apart u t g hg (by simp [Proc.frames_of_reading ht])
        rw [ht] at hu
        obtain ⟨rfl, -⟩ := Prod.mk.inj (Option.some.inj hu)
        obtain ⟨d, i, hd, hn⟩ := h.inv.reading_named ht
        have hslot := h.content.slot d i n hd hn
        have hcons : written n (.read n g :: q) = [] := h.content.after [] q n g hq
        unfold Paging.content at hslot
        rw [hq, hcons] at hslot
        rw [if_pos rfl]
        exact hslot
      · rw [if_neg hgf]
        refine h.content.done u m g hu fun hr => ?_
        rw [hq] at hr
        rcases List.mem_cons.mp hr with he | hr
        · exact hgf (Req.read.inj he).2
        · exact hno hr

/-! ## Every step -/

/-- The tasks go on, and the memory stays. -/
theorem Content.same (h : Swaps ok c) (hmem : c'.mem = c.mem)
    (hread : ∀ t, (c'.procs t).reading = (c.procs t).reading)
    (hframes : ∀ t f, f ∈ (c'.procs t).frames → f ∈ (c.procs t).frames) : Content c' := by
  refine Content.quiet (K := fun _ => False) h (by rw [hmem]; exact h.slots) (by rw [hmem]; exact .refl _)
    (fun _ hf => hf.elim) (fun t x hx => by rwa [hread] at hx) (fun t n f hf => .inl (by rwa [hread]))
    fun t f hf => .inl (hframes t f hf)

/-- A task goes on, and the memory stays. -/
theorem Content.go (h : Swaps ok c) {t : Nat} {q : Proc} (hread : q.reading = (c.procs t).reading)
    (hframes : ∀ f ∈ q.frames, f ∈ (c.procs t).frames) : Content (c.setProc t q) := by
  refine Content.same h rfl (fun u => ?_) fun u f hf => ?_
  · show (if u = t then q else c.procs u).reading = _
    split
    · rename_i hu
      rw [hu]
      exact hread
    · rfl
  · have hf : f ∈ (if u = t then q else c.procs u).frames := hf
    split at hf
    · rename_i hu
      rw [hu]
      exact hframes f hf
    · exact hf

/-- A task takes a page. -/
theorem Content.take (h : Swaps ok c) {t : Nat} {q : Proc} {f : Frame} (hf : c.mem.CanTake f)
    (hnone : q.reading = none) (hold : (c.procs t).reading = none)
    (hframes : ∀ g ∈ q.frames, g = f ∨ g ∈ (c.procs t).frames) :
    Content (c.goto t q (c.mem.take f)) := by
  have hch : Change (fun _ => False) (fun _ => False) (fun _ _ _ => False) c.mem (c.mem.take f) := .take hf
  refine Content.act h (h.slots.change h.inv.counts hch) (hch.quiet h.inv.counts rfl) (fun _ hc => hc.elim) hnone
    (fun n g hg => by rw [hold] at hg; cases hg) fun g hg => ?_
  rcases hframes g hg with rfl | hg
  · exact .inr (h.inv.counts.not_kernel hf)
  · exact .inl hg

/-- A task goes on with no request of its own. -/
theorem Content.change (h : Swaps ok c) {U : Nat → Prop} {S : Nat → Nat → Nat → Prop} {t : Nat} {q : Proc} {s' : Paging}
    (hch : Change U (· ∈ (c.procs t).frames) S c.mem s') (hq : s'.queue = c.mem.queue) (hnone : q.reading = none)
    (hstop : ∀ n f, (c.procs t).reading = some (n, f) → .read n f ∉ c.mem.queue)
    (hframes : ∀ f ∈ q.frames, f ∈ (c.procs t).frames) : Content (c.goto t q s') :=
  Content.act h (h.slots.change h.inv.counts hch) (hch.quiet h.inv.counts hq) (fun _ hf => hf) hnone hstop
    fun f hf => .inl (hframes f hf)

/-- The memory changes on its own. -/
theorem Content.env (h : Swaps ok c) {U : Nat → Prop} {K : Frame → Prop} {S : Nat → Nat → Nat → Prop} {s' : Paging}
    (hch : Change U K S c.mem s') (hq : s'.queue = c.mem.queue) (hK : ∀ f, K f → c.Idle f) :
    Content { c with mem := s' } :=
  Content.quiet h (h.slots.change h.inv.counts hch) (hch.quiet h.inv.counts hq) (fun f hf => .inr (hK f hf))
    (fun _ _ hx => hx) (fun _ _ _ hf => .inl hf) fun _ _ hf => .inl hf

theorem Content.setVerified (h : Content c) (t : Nat) (g : Nat → Bool) : Content (c.setVerified t g) :=
  ⟨h.slot, h.writes, h.reads, h.nodup, h.after, h.done⟩

theorem Content.setTask (h : Content c) (t : Nat) (k : Task) : Content (c.setTask t k) :=
  ⟨h.slot, h.writes, h.reads, h.nodup, h.after, h.done⟩

/-- `un_wp_page` returns. -/
theorem Content.unWpDone (h : Swaps ok c) {U : Nat → Prop} {S : Nat → Nat → Nat → Prop} {t v : Nat}
    {new new' : Option Frame} {ver : Bool} {s' : Paging} (hp : c.procs t = .unWp v new ver)
    (hch : ReflTransGen (Change U (· ∈ (c.procs t).frames) S) c.mem s')
    (hquiet : Quiet (· ∈ (c.procs t).frames) c.mem s')
    (hnew : ∀ g, new' = some g → g ∈ (c.procs t).frames ∧ s'.kernel g) : Content (c.unWpDone t v new' ver s') := by
  have hmain : ∀ {s''}, ReflTransGen (Change U (· ∈ (c.procs t).frames) S) c.mem s'' →
      Quiet (· ∈ (c.procs t).frames) c.mem s'' → Content (c.unWpDone t v none ver s'') := by
    intro s'' hch hquiet
    have hgo : Content (c.goto t .user s'') :=
      Content.act h (h.slots.changes h.inv.counts hch) hquiet (fun _ hf => hf) rfl
      (fun n f hf => by rw [hp] at hf; cases hf) fun f hf => by simp [Proc.frames] at hf
    unfold Config.unWpDone
    dsimp only
    split
    · exact hgo.setVerified t _
    · exact hgo
  cases new' with
  | none => exact hmain hch hquiet
  | some g =>
      obtain ⟨hg, hk⟩ := hnew g rfl
      have hrelease : Change U (· ∈ (c.procs t).frames) S s' (s'.release g) := .release hk hg
      exact hmain (hch.tail hrelease)
        (hquiet.trans (hrelease.quiet (Changes.counts hch h.inv.counts) (queue_freePage _ _)))

/-- A child begins, is finished, or given up. -/
theorem Content.two (h : Swaps ok c) {t n : Nat} {q q' : Proc} {s' : Paging} {K : Frame → Prop} (hslots : Slots ok s')
    (hquiet : Quiet K c.mem s') (hK : ∀ f, ¬K f) (ht : (c.procs t).reading = none) (hn : (c.procs n).reading = none)
    (hq : q.reading = none ∧ q.frames = []) (hq' : q'.reading = none ∧ q'.frames = [])
    (hmem : c'.mem = s') (hprocs : c'.procs = fun x => if x = n then q' else if x = t then q else c.procs x) :
    Content c' := by
  refine Content.quiet h (by rwa [hmem]) (by rwa [hmem]) (fun f hf => absurd hf (hK f)) ?_ ?_ ?_
  · intro u x hx
    rw [hprocs] at hx
    dsimp only at hx
    split at hx
    · rw [hq'.1] at hx
      cases hx
    · split at hx
      · rw [hq.1] at hx
        cases hx
      · exact hx
  · intro u m f hf
    rw [hprocs]
    dsimp only
    split
    · rename_i hu
      rw [hu, hn] at hf
      cases hf
    · split
      · rename_i hu
        rw [hu, ht] at hf
        cases hf
      · exact .inl hf
  · intro u f hf
    rw [hprocs] at hf
    dsimp only at hf
    split at hf
    · rw [hq'.2] at hf
      cases hf
    · split at hf
      · rw [hq.2] at hf
        cases hf
      · exact .inl hf

/-- **Every step keeps the slots and what is in them.** -/
theorem Swaps.step (h : Swaps ok c) {loads : Task → Nat → Page → Prop} {e : Event} (hs : Step loads c e c') :
    Swaps ok c' := by
  obtain ⟨U, K, hch⟩ := hs.changes h.inv
  refine ⟨h.inv.step hs, h.slots.changes h.inv.counts hch, ?_⟩
  have hclear : ∀ d n, (c.mem.freePageTables d n).queue = c.mem.queue :=
    fun d n => (untouched_freePageTables _ d n).queue
  cases hs with
  | fault ht hp hv he => exact Content.go h (by rw [hp]; rfl) fun f hf => by simp [Proc.frames] at hf
  | faultSwap hp he hf => exact Content.read h hf (by rw [hp]; rfl) rfl
  | @faultDir t v f hp hd hf =>
      have hknow := h.inv.knows t
      rw [hp] at hknow
      exact Content.change (S := fun _ _ _ => False) h
        (h.inv.faultDir_change hknow.1 hknow.2.1 hd hf (by simp [hp])) rfl rfl
        (fun n g hg => by rw [hp] at hg; cases hg) fun g hg => by simp [Proc.frames] at hg
  | faultNone hp hd he => exact Content.go h (by rw [hp]; rfl) fun f hf => by simp [Proc.frames] at hf
  | @swapIn t v n f hp hq =>
      refine Content.change (S := fun _ _ _ => False) h (h.inv.swapIn_change hp)
        ((queue_setEntry _ _ _ _).trans (queue_swapFree _ _)) rfl (fun m g hg => ?_)
        fun g hg => by simp [Proc.frames] at hg
      rw [hp] at hg
      obtain ⟨rfl, rfl⟩ := Prod.mk.inj (Option.some.inj hg)
      exact hq
  | empty hp hfile hf =>
      exact Content.take h hf rfl (by rw [hp]; rfl) fun g hg => .inl (List.mem_singleton.mp hg)
  | load hp hfile hf =>
      exact Content.take h hf rfl (by rw [hp]; rfl) fun g hg => .inl (List.mem_singleton.mp hg)
  | @loaded t v f pg hp hl =>
      have hf : f ∈ (c.procs t).frames := by simp [hp, Proc.frames]
      exact Content.change (U := fun _ => False) (S := fun _ _ _ => False) h (.fill pg (h.inv.held t f hf) hf) rfl rfl
        (fun n g hg => by rw [hp] at hg; cases hg) fun g hg => by rw [hp]; exact hg
  | put hp hm hd =>
      exact Content.change (S := fun _ _ _ => False) h (h.inv.put_change hp) (queue_setEntry _ _ _ _) rfl
        (fun n g hg => by rw [hp] at hg; cases hg) fun g hg => by simp [Proc.frames] at hg
  | @putDir t v f g hp hm hd hg =>
      have hknow := h.inv.knows t
      rw [hp] at hknow
      exact absurd hd hknow.2.2.2
  | @putFail t v f hp hno =>
      have hf : f ∈ (c.procs t).frames := by simp [hp, Proc.frames]
      exact Content.change (U := fun _ => False) (S := fun _ _ _ => False) h (.release (h.inv.held t f hf) hf)
        (queue_freePage _ _) rfl (fun n g hg => by rw [hp] at hg; cases hg) fun g hg => by simp [Proc.frames] at hg
  | share hp hfile hother hhas hs hd =>
      exact Content.change (S := fun _ _ _ => True) h (h.inv.share_change hp hother.2.1 hs trivial)
        ((queue_setEntry _ _ _ _).trans (queue_setEntry _ _ _ _)) rfl (fun n g hg => by rw [hp] at hg; cases hg)
        fun g hg => by simp [Proc.frames] at hg
  | @shareDir t v p ino f g hp hfile hother hhas hs hd hg =>
      have hknow := h.inv.knows t
      rw [hp] at hknow
      exact absurd hd hknow.2.2.2
  | @shareLate t v p f hp =>
      have hknow := h.inv.knows t
      rw [hp] at hknow
      exact hknow.elim
  | wpFault ht hp hv he => exact Content.go h (by rw [hp]; rfl) fun f hf => by simp [Proc.frames] at hf
  | writeVerify ht hp he => exact Content.go h (by rw [hp]; rfl) fun f hf => by simp [Proc.frames] at hf
  | verified ht hp hv he => exact h.content.setVerified _ _
  | @unWpGone t v new ver hp he =>
      refine Content.unWpDone (U := fun _ => False) (S := fun _ _ _ => False) h hp .refl (.refl _) fun g hg => ?_
      have hmem : g ∈ (c.procs t).frames := by simp [hp, Proc.frames, hg]
      exact ⟨hmem, h.inv.held t g hmem⟩
  | @unWpAlone t v new ver rw d f hp he hf hm =>
      have hflags : Change (fun _ => False) (· ∈ (c.procs t).frames) (fun _ _ _ => False) c.mem
          (c.mem.setAt t v (.page f true d)) :=
        .flags true d (dirOf_ge (h.inv.unWp_ne hp)) he fun _ => ⟨hf, hm⟩
      refine Content.unWpDone h hp (.single hflags) (hflags.quiet h.inv.counts (queue_setEntry _ _ _ _)) fun g hg => ?_
      have hmem : g ∈ (c.procs t).frames := by simp [hp, Proc.frames, hg]
      exact ⟨hmem, (congrFun (kernel_setEntry _ _ _ _) g).trans (h.inv.held t g hmem)⟩
  | unWpTake hp he hf hg =>
      exact Content.take h hg rfl (by rw [hp]; rfl) fun g hg => .inl (List.mem_singleton.mp hg)
  | unWpCopy hp he hf =>
      have hcopy := h.inv.unWpCopy_change (S := fun _ _ _ => False) hp he
      exact Content.unWpDone h hp (.single hcopy)
        (hcopy.quiet h.inv.counts ((queue_freePage _ _).trans (queue_setEntry _ _ _ _))) fun _ hc => absurd hc (by simp)
  | @fork t n hp hn hn0 hfree =>
      have htwo : Content (((c.setProc n .child).setTask n (c.tasks t)).setProc t (.fork n 0 none)) := by
        refine Content.two (t := n) (n := t) (K := fun _ => False) h h.slots (.refl _) (fun _ hf => hf)
          (by rw [hfree]; rfl) (by rw [hp]; rfl) ⟨rfl, rfl⟩ ⟨rfl, rfl⟩ rfl rfl
      exact (htwo.setVerified _ _).setVerified _ _
  | forkSkip hp hk hd => exact Content.go h (by rw [hp]; rfl) fun f hf => by simp [Proc.frames] at hf
  | forkTable hp hk hd hf =>
      exact Content.change (S := fun _ _ _ => False) h (h.inv.forkTable_change hp hk hf) rfl rfl
        (fun n g hg => by rw [hp] at hg; cases hg) fun g hg => by simp [Proc.frames] at hg
  | forkNone hp hi he => exact Content.go h (by rw [hp]; rfl) fun f hf => by simp [Proc.frames] at hf
  | @forkPage t n k i f rw d hp hi he =>
      refine Content.change (S := fun _ _ _ => True) h (h.inv.forkPage_change hp hi he trivial) ?_ rfl
        (fun n g hg => by rw [hp] at hg; cases hg) fun g hg => by simp [Proc.frames] at hg
      dsimp only
      split
      · exact queue_setEntry _ _ _ _
      · exact (queue_setEntry _ _ _ _).trans (queue_setEntry _ _ _ _)
  | forkSwap hp hi he hf => exact Content.read h hf (by rw [hp]; rfl) rfl
  | @forkSwapped t n k i m f hp hq =>
      refine Content.change (S := fun _ _ _ => False) h (h.inv.forkSwapped_change hp)
        ((queue_setEntry _ _ _ _).trans (queue_setEntry _ _ _ _)) rfl (fun m' g hg => ?_)
        fun g hg => by simp [Proc.frames] at hg
      rw [hp] at hg
      obtain ⟨rfl, rfl⟩ := Prod.mk.inj (Option.some.inj hg)
      exact hq
  | forkNext hp hi => exact Content.go h (by rw [hp]; rfl) fun f hf => by simp [Proc.frames] at hf
  | @forkDone t n k hp hk =>
      have hchild := (h.inv.child t n (by simp [hp, Proc.making])).1
      exact Content.two (t := t) (n := n) (K := fun _ => False) h h.slots (.refl _) (fun _ hf => hf)
        (by rw [hp]; rfl) (by rw [hchild]; rfl) ⟨rfl, rfl⟩ ⟨rfl, rfl⟩ rfl rfl
  | @forkFail t n k i hp =>
      have hchild := (h.inv.child t n (by simp [hp, Proc.making])).1
      have hfail := h.inv.forkFail_change (S := fun _ _ _ => False) hp
      refine Content.two (t := t) (n := n) h (h.slots.change h.inv.counts hfail)
        (hfail.quiet h.inv.counts (hclear _ _)) (fun f hf => ?_) (by rw [hp]; rfl) (by rw [hchild]; rfl) ⟨rfl, rfl⟩
        ⟨rfl, rfl⟩ rfl rfl
      simp [hp, Proc.frames] at hf
  | @exit t ht hp =>
      have hnone : (c.procs t).reading = none := by
        cases hq : c.procs t <;> rw [hq] at hp <;> first | rfl | cases hp
      have hgo := Content.change (q := .none) (S := fun _ _ _ => False) h
        (Inv.clear_change (d := 0) ht (by simpa using h.inv.tables t)) (hclear _ _) rfl
        (fun n f hf => by rw [hnone] at hf; cases hf) fun g hg => by simp [Proc.frames] at hg
      exact hgo.setVerified _ _
  | exec ht hp =>
      have hgo := Content.go (q := .args []) h (by rw [hp]; rfl) fun f hf => by simp [Proc.frames] at hf
      exact hgo.setVerified _ _
  | @argsTake t v f pages hp hv hnew hf =>
      refine Content.take h hf rfl (by rw [hp]; rfl) fun g hg => ?_
      rw [hp]
      exact List.mem_cons.mp hg
  | @argsFree t v f pages hp =>
      have hf : f ∈ (c.procs t).frames := by simp [hp, Proc.frames]
      refine Content.change (U := fun _ => False) (S := fun _ _ _ => False) h (.release (h.inv.held t f hf) hf)
        (queue_freePage _ _) rfl (fun n g hg => by rw [hp] at hg; cases hg) fun g hg => ?_
      rw [hp]
      exact List.mem_cons_of_mem f hg
  | argsFail hp => exact Content.go h (by rw [hp]; rfl) fun f hf => by simp [Proc.frames] at hf
  | argsInode ino hp => exact h.content.setTask _ _
  | @argsDone t pages k hp hk =>
      have hknow := h.inv.knows t
      rw [hp] at hknow
      have hgo := Content.change (q := .putArgs pages) (S := fun _ _ _ => False) h
        (Inv.clear_change (d := 0) hknow.1 (by simpa using h.inv.tables t)) (hclear _ _) rfl
        (fun n f hf => by rw [hp] at hf; cases hf) fun g hg => by rw [hp]; exact hg
      exact hgo.setTask _ _
  | @putArg t v f pages hp hd =>
      have hknow := h.inv.knows t
      rw [hp] at hknow
      obtain ⟨ht, -, -, hall⟩ := hknow
      obtain ⟨hv, he⟩ := hall v (by simp)
      have hf : f ∈ (c.procs t).frames := by simp [hp, Proc.frames]
      refine Content.change (S := fun _ _ _ => False) h (h.inv.map_change true true hf ht hv he hd)
        (queue_setEntry _ _ _ _) rfl (fun n g hg => by rw [hp] at hg; cases hg) fun g hg => ?_
      rw [hp]
      exact List.mem_cons_of_mem f hg
  | @putArgDir t v f g pages hp hd hg =>
      have hknow := h.inv.knows t
      rw [hp] at hknow
      obtain ⟨ht, hk, -, hall⟩ := hknow
      exact Content.change (S := fun _ _ _ => False) h
        (h.inv.faultDir_change ht (by rw [hk]; exact (hall v (by simp)).1) hd hg (by simp [hp])) rfl rfl
        (fun n f hf => by rw [hp] at hf; cases hf) fun f hf => by rw [hp]; exact hf
  | @putArgFail t v f pages hp hd =>
      refine Content.go h (by rw [hp]; rfl) fun g hg => ?_
      rw [hp]
      exact List.mem_cons_of_mem f hg
  | execDone hp => exact Content.go h (by rw [hp]; rfl) fun f hf => by simp [Proc.frames] at hf
  | useLib lib ht hp hk =>
      have hgo := Content.change (q := .user) (S := fun _ _ _ => False) h
        (Inv.clear_change (d := LIBRARY_OFFSET / 1024) (n := 1) ht (by decide)) (hclear _ _) rfl
        (fun n f hf => by rw [hp] at hf; cases hf) fun g hg => by simp [Proc.frames] at hg
      exact (hgo.setTask _ _).setVerified _ _
  | @swapOut d i s hd hi hs =>
      have hswap : Change (fun _ => False) (fun _ => False) (fun _ _ _ => False) c.mem s := .swapOut hd hs
      obtain ⟨f, rw, b, he, -, ⟨-, n, hn, rfl⟩ | rfl⟩ := swapOut_cases hs
      · exact Content.swapOut h hd he (getSwapPage_spec hn).2.2
      · exact Content.env h hswap ((queue_freePage _ _).trans (queue_setEntry _ _ _ _)) fun _ hf => hf.elim
  | complete hs => exact Content.complete h hs
  | @kernelTake f hf =>
      have htake : Change (fun _ => False) (fun _ => False) (fun _ _ _ => False) c.mem (c.mem.take f) := .take hf
      exact Content.env h htake rfl fun _ hf => hf.elim
  | @kernelFree f hf hidle =>
      have hrelease : Change (fun _ => False) (· = f) (fun _ _ _ => False) c.mem (c.mem.release f) := .release hf rfl
      exact Content.env h hrelease (queue_freePage _ _) fun g hg => hg ▸ hidle
  | @store t v o f d b ht hp hv ho he =>
      have hstore : Change (fun _ => False) (fun _ => False) (fun _ _ _ => False) c.mem
          ((c.mem.setAt t v (.page f true true)).setByte f o b) := .store o b (dirOf_ge ht) he
      exact Content.env h hstore (queue_setEntry _ _ _ _) fun _ hf => hf.elim
  | @kstore t v o f rw d b ht hp hv ho hver he =>
      have hstore : Change (fun _ => False) (fun _ => False) (fun _ _ _ => False) c.mem
          ((c.mem.setAt t v (.page f rw true)).setByte f o b) := .store o b (dirOf_ge ht) he
      exact Content.env h hstore (queue_setEntry _ _ _ _) fun _ hf => hf.elim
  | leave hp => exact h.content.setVerified _ _

/-- What was saved in a slot stays while the slot is not free. -/
theorem Step.saved {loads : Task → Nat → Page → Prop} {e : Event} (hs : Step loads c e c') {n : Nat}
    (hn : c.mem.free n = false) : c'.mem.saved n = c.mem.saved n := by
  have hdone : ∀ {t v new ver s'}, s'.saved = c.mem.saved → (c.unWpDone t v new ver s').mem.saved = c.mem.saved := by
    intro t v new ver s' hs
    unfold Config.unWpDone
    cases new <;> cases ver
    · exact hs
    · exact hs
    · exact (saved_freePage _ _).trans hs
    · exact (saved_freePage _ _).trans hs
  have hclear : ∀ d k, (c.mem.freePageTables d k).saved n = c.mem.saved n := fun d k =>
    congrFun (untouched_freePageTables _ d k).saved n
  cases hs with
  | swapIn => exact congrFun ((saved_setEntry _ _ _ _).trans (saved_swapFree _ _)) n
  | put => exact congrFun (saved_setEntry _ _ _ _) n
  | putFail => exact congrFun (saved_freePage _ _) n
  | share => exact congrFun ((saved_setEntry _ _ _ _).trans (saved_setEntry _ _ _ _)) n
  | shareLate => exact congrFun ((saved_setEntry _ _ _ _).trans (saved_setEntry _ _ _ _)) n
  | unWpGone => exact congrFun (hdone rfl) n
  | unWpAlone => exact congrFun (hdone (saved_setEntry _ _ _ _)) n
  | unWpCopy =>
      refine congrFun (hdone ?_) n
      rw [saved_freePage]
      exact saved_setEntry _ _ _ _
  | forkPage =>
      dsimp only [Config.goto]
      split
      · exact congrFun (saved_setEntry _ _ _ _) n
      · exact congrFun ((saved_setEntry _ _ _ _).trans (saved_setEntry _ _ _ _)) n
  | forkSwapped => exact congrFun ((saved_setEntry _ _ _ _).trans (saved_setEntry _ _ _ _)) n
  | forkFail => exact hclear _ _
  | exit => exact hclear _ _
  | argsFree => exact congrFun (saved_freePage _ _) n
  | argsDone => exact hclear _ _
  | putArg => exact congrFun (saved_setEntry _ _ _ _) n
  | useLib => exact hclear _ _
  | swapOut hd hi hs =>
      obtain ⟨f, rw, b, he, -, ⟨-, m, hm, rfl⟩ | rfl⟩ := swapOut_cases hs
      · refine if_neg ?_
        rintro rfl
        rw [(getSwapPage_spec hm).2.2] at hn
        cases hn
      · exact congrFun ((saved_freePage _ _).trans (saved_setEntry _ _ _ _)) n
  | complete hs =>
      rcases complete_cases hs with ⟨m, f, q, -, rfl⟩ | ⟨m, f, q, -, rfl⟩
      · rfl
      · rfl
  | kernelFree => exact congrFun (saved_freePage _ _) n
  | store => exact congrFun (saved_setEntry _ _ _ _) n
  | kstore => exact congrFun (saved_setEntry _ _ _ _) n
  | _ => rfl

end

/-! ## Runs -/

/-- The slots that are free to begin with. -/
def Config.slots (c : Config) (n : Nat) : Prop := n ≠ 0 ∧ n < SWAP_BITS ∧ c.mem.free n = true

theorem Start.swaps {c : Config} (h : Start c) : Swaps c.slots c := by
  have hentry : ∀ d i, TASK_TABLES ≤ d → c.mem.entry d i = .none := fun d i hd => entry_of_no_dir _ (h.dirs d hd) i
  have hreading : ∀ t, (c.procs t).reading = none := by
    intro t
    rw [h.procs]
    split <;> rfl
  refine ⟨h.inv, ⟨?_, ?_, ?_, ?_, h.badSlot⟩, ⟨?_, ?_, ?_, ?_, ?_, ?_⟩⟩
  · intro d i n hd hn
    rw [hentry d i hd] at hn
    cases hn
  · intro d d' i i' n hd _ hn
    rw [hentry d i hd] at hn
    cases hn
  · intro n hn hfree
    rw [hn.2.2] at hfree
    cases hfree
  · exact fun n h0 hlt hfree => ⟨h0, hlt, hfree⟩
  · intro d i n hd hn
    rw [hentry d i hd] at hn
    cases hn
  · intro n f hw
    rw [h.queue] at hw
    cases hw
  · intro n f hr
    rw [h.queue] at hr
    cases hr
  · rw [h.queue]
    exact List.nodup_nil
  · intro l l' n f hsplit
    rw [h.queue] at hsplit
    exact absurd hsplit.symm (by simp)
  · intro t n f ht
    rw [hreading] at ht
    cases ht

theorem Run.swaps {loads : Task → Nat → Page → Prop} {c₀ c : Config} (hstart : Start c₀) (hrun : Run loads c₀ c) :
    Swaps c₀.slots c := by
  induction hrun with
  | refl => exact hstart.swaps
  | tail _ hstep ih =>
      obtain ⟨e, hstep⟩ := hstep
      exact ih.step hstep

end Vm
end Mm
end Linux095
