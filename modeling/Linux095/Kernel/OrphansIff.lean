import Linux095.Kernel.OrphanChildren

/-!
# `Kernel.OrphansIff` — when an exit hangs up the right groups (`kernel/exit.c`)

* `adopt_ends` — the loop over the children: it stops, or signals a group that is not due, unless each child is fine;
* `leave_ends`, `leaderExit_ends` — the two halves of `do_exit`;
* `orphans_iff` — **when `do_exit` does what is expected**; `exit_reads_empty_slot` is a table where it does not.
-/

namespace Linux095
namespace Kernel
namespace Orphans
open Seq Prog Links
open Sched.ProcessTree (Tasks Task TaskState NR_TASKS SIGHUP SIGKILL SIGCHLD SIGCONT slots deliver isOrphanedPgrp Quiet
  deliver_quiet page_set)

section

variable {s₀ s : Tasks} {current c x : Nat} {g : Int} {kids l l₂ : List Nat} {gs : List Int} {stop : Nat → Prop}

/-! ## The loop -/

theorem splice_ends {p : Nat} {s : State} (hchild : (s.tasks.page s.tasks.init).cptr ≠ none) :
    (splice current p).Ends s (fun _ => False) fun _ s' =>
      s'.sent = s.sent ∧ s'.tasks.task = s.tasks.task ∧
        ∀ x, (s'.tasks.page x).pid = (s.tasks.page x).pid ∧ (s'.tasks.page x).pgrp = (s.tasks.page x).pgrp ∧
          (s'.tasks.page x).session = (s.tasks.page x).session ∧ (s'.tasks.page x).leader = (s.tasks.page x).leader ∧
          (s'.tasks.page x).pptr = (s.tasks.page x).pptr ∧ (s'.tasks.page x).ptraced = (s.tasks.page x).ptraced ∧
          (s'.tasks.page x).state = (s.tasks.page x).state := by
  obtain ⟨c, hc⟩ := Option.ne_none_iff_exists'.1 hchild
  unfold splice
  refine .bind (.reads (.bind (.reads (.bind (.modify ?_)))))
  rw [hc]
  refine .bind (.modify (.bind (.modify (.modify ⟨rfl, rfl, fun x => ?_⟩))))
  simp only [page_set, apply_ite Task.pid, apply_ite Task.pgrp, apply_ite Task.session, apply_ite Task.leader,
    apply_ite Task.pptr, apply_ite Task.ptraced, apply_ite Task.state, ite_self, and_self]

theorem Left.splice {s s' : Tasks} {done : List Nat} (h : Left s₀ current done s) (htask : s'.task = s.task)
    (hpage : ∀ x, (s'.page x).pid = (s.page x).pid ∧ (s'.page x).pgrp = (s.page x).pgrp ∧
      (s'.page x).session = (s.page x).session ∧ (s'.page x).leader = (s.page x).leader ∧
      (s'.page x).pptr = (s.page x).pptr ∧ (s'.page x).ptraced = (s.page x).ptraced ∧
      (s'.page x).state = (s.page x).state) : Left s₀ current done s' where
  task := htask.trans h.task
  pid x := (hpage x).1.trans (h.pid x)
  pgrp x := (hpage x).2.1.trans (h.pgrp x)
  session x := (hpage x).2.2.1.trans (h.session x)
  leader x := (hpage x).2.2.2.1.trans (h.leader x)
  pptr x := (hpage x).2.2.2.2.1.trans (h.pptr x)
  ptraced x := (hpage x).2.2.2.2.2.1.trans (h.ptraced x)
  zombie x := by rw [(hpage x).2.2.2.2.2.2, h.zombie]

theorem Left.live {s : Tasks} {done : List Nat} (h : Left s₀ current done s) (T : Table s₀ current kids) :
    s.Live current := by
  unfold Tasks.Live
  rw [h.task]
  exact T.live

/-- The signals to process groups come in pairs. -/
theorem hangUp_log {p : Nat} {cut : State → Bool} {s : State} {done : List Nat} (T : Table s₀ current kids)
    (hd : During s₀ current done stop s.tasks) :
    (hangUp current p cut).Ends s (fun _ => True) fun _ s' =>
      (∃ stop', During s₀ current done stop' s'.tasks) ∧ ∃ gs, s'.sent = s.sent ++ hangUps gs := by
  have hnone : (∃ stop', During s₀ current done stop' s.tasks) ∧ ∃ gs, s.sent = s.sent ++ hangUps gs :=
    ⟨⟨stop, hd⟩, [], (List.append_nil _).symm⟩
  cases hcut : cut s with
  | false =>
      unfold Prog.Ends
      rw [hangUp_skip hcut]
      exact hnone
  | true =>
      refine (hangUp_ends (hd.live T) hcut rfl).weaken (fun _ _ => trivial) ?_
      rintro - s' ⟨-, hsent, hsame⟩
      by_cases hsend : 0 < (s.tasks.page p).pgrp ∧ Stopped s.tasks (s.tasks.page p).pgrp
      · obtain ⟨hlogged, hup⟩ := hsent hsend
        exact ⟨⟨_, hd.quiet hlogged.quiet (fun _ _ => .rfl) hup.can⟩, _, hlogged.sent⟩
      · rw [hsame hsend]
        exact hnone

/-- The rest of the loop, whatever has been sent. -/
theorem adopt_log {fuel : Nat} {s : State} (T : Table s₀ current kids) (hk : kids = l ++ c :: l₂)
    (hd : During s₀ current l stop s.tasks) :
    (adopt current fuel c).Ends s (fun _ => True) fun _ s' =>
      Left s₀ current kids s'.tasks ∧ ∃ gs, s'.sent = s.sent ++ hangUps gs := by
  induction fuel generalizing l c l₂ s stop with
  | zero => exact .halt trivial
  | succ fuel ih =>
      refine .bind (.modify (.bind (.mono (hangUp_log T (hd.inherit c)) ?_)))
      rintro - s₁ ⟨⟨stop', hd'⟩, gs, hgs⟩
      have hgs : s₁.sent = s.sent ++ hangUps gs := hgs
      refine .bind (.reads ?_)
      have hnext : (s₁.tasks.page c).osptr = l₂.head? := by
        rw [hd'.osptr]
        exact (hk ▸ T.leads).next_eq
      rw [hnext]
      cases l₂ with
      | nil =>
          have hchild : (s₁.tasks.page s₁.tasks.init).cptr ≠ none := by
            rw [hd'.init_eq, hd'.cptr]
            exact T.initChild
          refine (splice_ends hchild).weaken (fun _ h => h.elim) ?_
          rintro - s₂ ⟨hsent, htask, hpage⟩
          rw [hk]
          exact ⟨hd'.splice htask hpage, gs, hsent.trans hgs⟩
      | cons q l₃ =>
          have hk' : kids = (l ++ [c]) ++ q :: l₃ := by
            rw [hk]
            simp
          refine (ih hk' hd').mono ?_
          rintro - s₂ ⟨hleft, gs', hgs'⟩
          exact ⟨hleft, gs ++ gs', by rw [hgs', hgs, hangUps_append, List.append_assoc]⟩

theorem Bad.append {s s' : State} {pre : List (Int × Nat)} (h : Bad s₀ current pre s)
    (hlog : ∃ gs, s'.sent = s.sent ++ hangUps gs) : Bad s₀ current pre s' := by
  obtain ⟨gs, hgs, hbad⟩ := h
  obtain ⟨gs', hgs'⟩ := hlog
  refine ⟨gs ++ gs', ?_, fun hall => hbad ⟨(List.nodup_append.1 hall.1).1, fun g hg => ?_⟩⟩
  · rw [hgs', hgs, hangUps_append, List.append_assoc]
  · exact hall.2 g (List.mem_append_left _ hg)

/-- The children `rest`, which come after `l`, are fine. -/
def RestFine (s₀ : Tasks) (current : Nat) (l rest : List Nat) : Prop :=
  ∀ l₁ c l₂, rest = l₁ ++ c :: l₂ → ChildAsked s₀ current (l ++ l₁) c → ChildFine s₀ current (l ++ l₁) c

theorem restFine_cons : RestFine s₀ current l (c :: l₂) ↔
    (ChildAsked s₀ current l c → ChildFine s₀ current l c) ∧ RestFine s₀ current (l ++ [c]) l₂ := by
  constructor
  · refine fun h => ⟨?_, fun l₁ c' l₃ hl => ?_⟩
    · have hfirst := h [] c l₂ rfl
      rw [List.append_nil] at hfirst
      exact hfirst
    · rw [List.append_assoc]
      exact h (c :: l₁) c' l₃ (by rw [hl]; rfl)
  · rintro ⟨hfirst, hrest⟩ l₁ c' l₃ hl
    cases l₁ with
    | nil =>
        obtain ⟨rfl, -⟩ := List.cons.inj hl
        rw [List.append_nil]
        exact hfirst
    | cons b l₁ =>
        obtain ⟨rfl, htail⟩ := List.cons.inj hl
        have h := hrest l₁ c' l₃ htail
        rw [List.append_assoc] at h
        exact h

/-- All children are fine, and this is what has been done. -/
def Done (s₀ : Tasks) (current : Nat) (kids : List Nat) (pre : List (Int × Nat)) (s : State) : Prop :=
  ∃ gs stop, Inv s₀ current kids gs stop ∧ s.sent = pre ++ hangUps gs

/-- **The loop over the children**, from `c` on. -/
theorem adopt_ends {s : State} {pre : List (Int × Nat)} (T : Table s₀ current kids) {fuel : Nat}
    (hk : kids = l ++ c :: l₂) (hfuel : l₂.length < fuel) (hd : During s₀ current l stop s.tasks)
    (h : Inv s₀ current l gs stop) (hlog : s.sent = pre ++ hangUps gs) :
    (adopt current fuel c).Ends s (fun _ => ¬ RestFine s₀ current l (c :: l₂)) fun _ s' =>
      Left s₀ current kids s'.tasks ∧
        (RestFine s₀ current l (c :: l₂) ∧ Done s₀ current kids pre s' ∨
          ¬ RestFine s₀ current l (c :: l₂) ∧ Bad s₀ current pre s') := by
  induction fuel generalizing l c l₂ s gs stop with
  | zero => exact absurd hfuel (Nat.not_lt_zero _)
  | succ fuel ih =>
      rw [restFine_cons]
      refine .bind (.modify (.bind (.weaken (hangUp_child pre T hk (hd.inherit c) h hlog) ?_ ?_)))
      · exact fun e hno hf => hno hf.1
      · rintro - s₁ hs₁
        have hd' : ∃ stop', During s₀ current (l ++ [c]) stop' s₁.tasks := by
          rcases hs₁ with ⟨-, -, stop', hd', -⟩ | ⟨-, hd', -⟩
          · exact ⟨stop', hd'⟩
          · exact hd'
        obtain ⟨stop₁, hd₁⟩ := hd'
        refine .bind (.reads ?_)
        have hnext : (s₁.tasks.page c).osptr = l₂.head? := by
          rw [hd₁.osptr]
          exact (hk ▸ T.leads).next_eq
        rw [hnext]
        cases l₂ with
        | nil =>
            have hrest : RestFine s₀ current (l ++ [c]) [] := fun l₁ c' l₃ hl => absurd hl (by simp)
            have hchild : (s₁.tasks.page s₁.tasks.init).cptr ≠ none := by
              rw [hd₁.init_eq, hd₁.cptr]
              exact T.initChild
            refine (splice_ends hchild).weaken (fun _ hf => hf.elim) ?_
            rintro - s₂ ⟨hsent, htask, hpage⟩
            refine ⟨hk ▸ hd₁.splice htask hpage, ?_⟩
            rcases hs₁ with ⟨hfine, gs', stop', -, h', hlog'⟩ | ⟨hno, -, hbad⟩
            · exact .inl ⟨⟨hfine, hrest⟩, gs', stop', hk ▸ h', hsent.trans hlog'⟩
            · exact .inr ⟨fun hf => hno hf.1, hbad.append ⟨[], hsent.trans (List.append_nil _).symm⟩⟩
        | cons q l₃ =>
            have hk' : kids = (l ++ [c]) ++ q :: l₃ := by
              rw [hk]
              simp
            rcases hs₁ with ⟨hfine, gs', stop', hd', h', hlog'⟩ | ⟨hno, -, hbad⟩
            · refine (ih hk' (by simpa using hfuel) hd' h' hlog').weaken (fun e hno hf => hno hf.2) ?_
              rintro - s₂ ⟨hleft, ⟨hrest, hdone⟩ | ⟨hrest, hbad⟩⟩
              · exact ⟨hleft, .inl ⟨⟨hfine, hrest⟩, hdone⟩⟩
              · exact ⟨hleft, .inr ⟨fun hf => hrest hf.2, hbad⟩⟩
            · -- the signals are wrong, whatever comes now
              refine (adopt_log T hk' hd₁).weaken (fun _ _ hf => hno hf.1) ?_
              rintro - s₂ ⟨hleft, hlog'⟩
              exact ⟨hleft, .inr ⟨fun hf => hno hf.1, hbad.append hlog'⟩⟩

/-- The children fit into the table. -/
theorem Table.length_le (T : Table s₀ current kids) : kids.length < NR_TASKS := by
  have hsub : kids ⊆ slots.filterMap s₀.task := by
    intro p hp
    obtain ⟨nr, hnr, htask⟩ := live_iff.1 (T.kid p hp).1
    exact List.mem_filterMap.2 ⟨nr, hnr, htask⟩
  have hle := (T.nodup.subperm hsub).length_le
  have hslots : (slots.filterMap s₀.task).length ≤ slots.length := List.length_filterMap_le _ _
  have hlen : slots.length = 63 := by decide
  rw [NR_TASKS]
  omega

/-- **All the children.** -/
theorem adoptAll_ends {s : State} {pre : List (Int × Nat)} (T : Table s₀ current kids)
    (hd : During s₀ current [] stop s.tasks) (h : Inv s₀ current [] gs stop) (hlog : s.sent = pre ++ hangUps gs) :
    (adoptAll current).Ends s (fun _ => ¬ RestFine s₀ current [] kids) fun _ s' =>
      Left s₀ current kids s'.tasks ∧
        (RestFine s₀ current [] kids ∧ Done s₀ current kids pre s' ∨
          ¬ RestFine s₀ current [] kids ∧ Bad s₀ current pre s') := by
  refine .bind (.reads ?_)
  rw [hd.cptr, T.leads.head]
  cases kids with
  | nil => exact .pure ⟨hd.toLeft, .inl ⟨fun l₁ c l₂ hl => absurd hl (by simp), gs, stop, h, hlog⟩⟩
  | cons p rest =>
      have hlen := T.length_le
      rw [List.length_cons] at hlen
      exact adopt_ends T rfl (Nat.lt_of_succ_lt hlen) hd h hlog

theorem adoptAll_log {s : State} (T : Table s₀ current kids) (hd : During s₀ current [] stop s.tasks) :
    (adoptAll current).Ends s (fun _ => True) fun _ s' =>
      Left s₀ current kids s'.tasks ∧ ∃ gs, s'.sent = s.sent ++ hangUps gs := by
  refine .bind (.reads ?_)
  rw [hd.cptr, T.leads.head]
  cases kids with
  | nil => exact .pure ⟨hd.toLeft, [], (List.append_nil _).symm⟩
  | cons p rest => exact adopt_log T rfl hd

/-! ## The group of `current` -/

theorem own_stopped (T : Table s₀ current kids) (g : Int) : Stopped (s₀.setState current .zombie) g ↔ Stopped s₀ g := by
  have hd := During.start s₀ current
  refine exists_congr fun x => ?_
  rw [hd.member, setState_state]
  refine and_congr_right fun _ => ?_
  by_cases hx : x = current
  · rw [if_pos hx, hx, T.running]
    exact iff_of_false (by decide) (by decide)
  · rw [if_neg hx]

theorem ownFine_iff (T : Table s₀ current kids) :
    OwnFine s₀ current ↔ Readable (s₀.setState current .zombie) current (s₀.page current).pgrp ∧
      (0 < (s₀.page current).pgrp → Stopped s₀ (s₀.page current).pgrp → Tie s₀ (s₀.page current).pgrp current) := by
  have hd := During.start s₀ current
  have hgap : (NoGap (s₀.setState current .zombie) slots fun x =>
      ((s₀.setState current .zombie).page x).pgrp = (s₀.page current).pgrp ∧
        ((s₀.setState current .zombie).page x).state = .stopped) ↔
      NoGap s₀ slots fun x => (s₀.page x).pgrp = (s₀.page current).pgrp ∧ (s₀.page x).state = .stopped := by
    refine NoGap.congr rfl fun _ _ x _ => ?_
    rw [hd.pgrp, setState_state]
    refine and_congr_right fun _ => ?_
    by_cases hx : x = current
    · rw [if_pos hx, hx, T.running]
      exact iff_of_false (by decide) (by decide)
    · rw [if_neg hx]
  have hfalls : Falls (s₀.setState current .zombie) current (s₀.page current).pgrp current ↔
      (s₀.page current).ptraced = true := by
    unfold Falls
    rw [hd.pgrp, setState_ptraced]
    exact ⟨fun h => h.2.2, fun h => ⟨rfl, rfl, h⟩⟩
  unfold OwnFine Readable
  dsimp only
  rw [own_stopped T, hgap, hfalls]
  by_cases hcase : (s₀.page current).pgrp ≤ 0 ∧ Stopped s₀ (s₀.page current).pgrp
  · have hpos := Int.not_lt.2 hcase.1
    rw [if_pos hcase]
    exact ⟨fun h => ⟨⟨fun _ => h, fun hno => absurd hcase hno, fun hp => absurd hp hpos⟩, fun hp => absurd hp hpos⟩,
      fun h => h.1.1 hcase⟩
  · rw [if_neg hcase]
    constructor
    · rintro ⟨hfull, hrest⟩
      refine ⟨⟨fun h => absurd h hcase, fun _ => hfull, fun hp hs ht => ?_⟩, fun hp hs => (hrest hp hs).1⟩
      rw [(hrest hp hs).2] at ht
      cases ht
    · rintro ⟨⟨-, hfull, hstay⟩, htie⟩
      exact ⟨hfull hcase, fun hp hs => ⟨htie hp hs, Bool.eq_false_iff.2 (hstay hp hs)⟩⟩

/-- After case i. -/
theorem inv_start (hown : (s₀.page current).pgrp ∈ gs ↔
      0 < (s₀.page current).pgrp ∧ OwnAsked s₀ current ∧ Stopped s₀ (s₀.page current).pgrp)
    (hall : ∀ g ∈ gs, g = (s₀.page current).pgrp) (hnodup : gs.Nodup)
    (hdue : ∀ g ∈ gs, Loses s₀ current g ∧ Stopped s₀ g) : Inv s₀ current [] gs (Stops s₀ current) where
  nodup := hnodup
  due := hdue
  own := hown
  other g hg := by
    refine iff_of_false (fun hgs => hg (hall g hgs)) ?_
    rintro ⟨-, ⟨⟨c, hc, -⟩, -⟩, -⟩
    exact absurd hc List.not_mem_nil
  fresh _ _ _ _ := .rfl
  again _ _ hx hgs := absurd (hall _ hgs) hx

/-- **Case i.** -/
theorem hangUp_own {s : State} (T : Table s₀ current kids) (hs : s.tasks = s₀.setState current .zombie) :
    (hangUp current current (ownCut current)).Ends s
      (fun _ => ¬ (OwnAsked s₀ current → OwnFine s₀ current))
      fun _ s' =>
        During s₀ current [] (fun x => (s₀.page x).state = .stopped) s'.tasks ∧
          ((OwnAsked s₀ current → OwnFine s₀ current) ∧
            (∃ gs, Inv s₀ current [] gs (Stops s₀ current) ∧ s'.sent = s.sent ++ hangUps gs) ∨
          ¬ (OwnAsked s₀ current → OwnFine s₀ current) ∧ Bad s₀ current s.sent s') := by
  have hd : During s₀ current [] (fun x => (s₀.page x).state = .stopped) s.tasks := by
    rw [hs]
    exact During.start s₀ current
  have hcut := ownCut_iff hd.toLeft T.initPid
  by_cases hasked : OwnAsked s₀ current
  · have hfine := ownFine_iff T
    rw [← hs] at hfine
    refine (hangUp_ends (hd.live T) (hcut.2 hasked) (hd.pgrp current)).weaken ?_ ?_
    · exact fun e hno hf => hno (hfine.1 (hf hasked)).1
    · rintro - s' ⟨hread, hsent, hsame⟩
      rw [hs, own_stopped T] at hsent hsame
      by_cases hsend : 0 < (s₀.page current).pgrp ∧ Stopped s₀ (s₀.page current).pgrp
      · obtain ⟨hlogged, hup⟩ := hsent hsend
        rw [← hs] at hup
        refine ⟨hd.hungUp_own hlogged.quiet hup, ?_⟩
        by_cases htie : Tie s₀ (s₀.page current).pgrp current
        · refine .inl ⟨fun _ => hfine.2 ⟨hread, fun _ _ => htie⟩, [(s₀.page current).pgrp], ?_, hlogged.sent⟩
          refine inv_start (iff_of_true (List.mem_singleton.2 rfl) ⟨hsend.1, hasked, hsend.2⟩)
            (fun g hg => List.mem_singleton.1 hg) (List.nodup_singleton _) fun g hg => ?_
          rw [List.mem_singleton.1 hg]
          refine ⟨⟨⟨current, htie⟩, fun x hx => .inl ?_⟩, hsend.2⟩
          by_contra hne
          exact hasked.2.2 x hne (T.seen_of_tie hx)
        · refine .inr ⟨fun hf => htie ((hfine.1 (hf hasked)).2 hsend.1 hsend.2), _, hlogged.sent, fun hall => htie ?_⟩
          obtain ⟨⟨⟨x, hx⟩, -⟩, -⟩ := hall.2 _ (List.mem_singleton.2 rfl)
          have hxc : x = current := by
            by_contra hne
            exact hasked.2.2 x hne (T.seen_of_tie hx)
          exact hxc ▸ hx
      · rw [hsame hsend]
        refine ⟨hd, .inl ⟨fun _ => hfine.2 ⟨hread, fun hp hst => absurd ⟨hp, hst⟩ hsend⟩, [], ?_,
          (List.append_nil _).symm⟩⟩
        exact inv_start (iff_of_false List.not_mem_nil fun h => hsend ⟨h.1, h.2.2⟩)
          (fun g hg => absurd hg List.not_mem_nil) List.nodup_nil fun g hg => absurd hg List.not_mem_nil
  · have hskip : ownCut current s = false := by
      rw [← Bool.not_eq_true, hcut]
      exact hasked
    unfold Prog.Ends
    rw [hangUp_skip hskip]
    refine ⟨hd, .inl ⟨fun ha => absurd ha hasked, [], ?_, (List.append_nil _).symm⟩⟩
    exact inv_start (iff_of_false List.not_mem_nil fun h => hasked h.2.1)
      (fun g hg => absurd hg List.not_mem_nil) List.nodup_nil fun g hg => absurd hg List.not_mem_nil

/-- **`do_exit`, up to the terminal.** -/
theorem leave_ends {s : State} (T : Table s.tasks current kids) :
    (leave current).Ends s
      (fun _ => ¬ ((OwnAsked s.tasks current → OwnFine s.tasks current) ∧ RestFine s.tasks current [] kids))
      fun _ s' =>
        Left s.tasks current kids s'.tasks ∧
          (((OwnAsked s.tasks current → OwnFine s.tasks current) ∧ RestFine s.tasks current [] kids) ∧
            Done s.tasks current kids s.sent s' ∨
          ¬ ((OwnAsked s.tasks current → OwnFine s.tasks current) ∧ RestFine s.tasks current [] kids) ∧
            Bad s.tasks current s.sent s') := by
  refine .bind (.modify (.bind (.weaken (hangUp_own T rfl) ?_ ?_)))
  · exact fun e hno hf => hno hf.1
  · rintro - s₁ ⟨hd, hs₁⟩
    refine .bind (.reads ?_)
    have hpptr : (s₁.tasks.page current).pptr = (s.tasks.page current).pptr := by
      rw [hd.pptr, if_neg List.not_mem_nil]
    rw [hpptr]
    refine .bind ((sendSig_ends current SIGCHLD _ s₁).weaken (fun e he => absurd he.1 T.father) ?_)
    rintro - s₂ ⟨hsame, hsig, -⟩
    have hd₂ := hd.sigchld hsame.quiet T.father hsig
    have hsent : s₂.sent = s₁.sent := by rw [hsame.rest]
    rcases hs₁ with ⟨hfine, gs, hinv, hlog⟩ | ⟨hno, hbad⟩
    · refine (adoptAll_ends T hd₂ hinv (hsent.trans hlog)).weaken (fun e hno hf => hno hf.2) ?_
      rintro - s₃ ⟨hleft, ⟨hrest, hdone⟩ | ⟨hrest, hbad⟩⟩
      · exact ⟨hleft, .inl ⟨⟨hfine, hrest⟩, hdone⟩⟩
      · exact ⟨hleft, .inr ⟨fun hf => hrest hf.2, hbad⟩⟩
    · refine (adoptAll_log T hd₂).weaken (fun _ _ hf => hno hf.1) ?_
      rintro - s₃ ⟨hleft, gs, hgs⟩
      exact ⟨hleft, .inr ⟨fun hf => hno hf.1, hbad.append ⟨gs, by rw [hgs, hsent]⟩⟩⟩

/-! ## The terminal -/

/-- The terminals are as they were. -/
def Kept (s s' : State) : Prop := s'.tty = s.tty ∧ s'.ttyTable = s.ttyTable ∧ s'.fgConsole = s.fgConsole

theorem Kept.trans {s s' s'' : State} (h : Kept s s') (h' : Kept s' s'') : Kept s s'' :=
  ⟨h'.1.trans h.1, h'.2.1.trans h.2.1, h'.2.2.trans h.2.2⟩

theorem Same.kept {s s' : State} (h : Same s s') : Kept s s' := by
  rw [h.rest]
  exact ⟨rfl, rfl, rfl⟩

theorem Logged.kept {log : List (Int × Nat)} {s s' : State} (h : Logged log s s') : Kept s s' := by
  rw [h.rest]
  exact ⟨rfl, rfl, rfl⟩

theorem killPg_kept (current : Nat) (g : Int) (sig : Nat) (s : State) :
    (killPg current g sig).Ends s (fun _ => True) fun _ s' => Kept s s' := by
  by_cases hg : 0 < g
  · exact (killPg_ends _ hg).weaken (fun _ _ => trivial) fun _ _ h => h.1.kept
  · refine (killPg_same (Int.not_lt.1 hg)).mono ?_
    rintro - s' rfl
    exact ⟨rfl, rfl, rfl⟩

theorem hangUp_kept (current p : Nat) (cut : State → Bool) (s : State) :
    (hangUp current p cut).Ends s (fun _ => True) fun _ s' => Kept s s' := by
  refine .bind (.reads ?_)
  split
  · refine .bind (.reads (.bind ((hasStoppedJobs_ends _ s).weaken (fun _ _ => trivial) ?_)))
    rintro b s' ⟨rfl, -⟩
    split
    · exact .then_ (killPg_kept _ _ _ _) fun _ s₁ h => (killPg_kept _ _ _ _).mono fun _ _ h' => h.trans h'
    · exact .pure ⟨rfl, rfl, rfl⟩
  · exact .pure ⟨rfl, rfl, rfl⟩

theorem splice_kept (current p : Nat) (s : State) :
    (splice current p).Ends s (fun _ => True) fun _ s' => Kept s s' := by
  refine .bind (.reads (.bind (.reads (.bind (.modify ?_)))))
  cases (s.tasks.page s.tasks.init).cptr with
  | none => exact .halt trivial
  | some c => exact .bind (.modify (.bind (.modify (.modify ⟨rfl, rfl, rfl⟩))))

theorem adopt_kept (current : Nat) (fuel p : Nat) (s : State) :
    (adopt current fuel p).Ends s (fun _ => True) fun _ s' => Kept s s' := by
  induction fuel generalizing p s with
  | zero => exact .halt trivial
  | succ fuel ih =>
      refine .bind (.modify (.bind (.mono (hangUp_kept current p _ _) ?_)))
      rintro - s₁ h₁
      have h₁ : Kept s s₁ := h₁
      refine .bind (.reads ?_)
      cases (s₁.tasks.page p).osptr with
      | none => exact (splice_kept _ _ _).mono fun _ _ h => h₁.trans h
      | some q => exact (ih q s₁).mono fun _ _ h => h₁.trans h

theorem leave_kept (current : Nat) (s : State) : (leave current).Ends s (fun _ => True) fun _ s' => Kept s s' := by
  refine .bind (.modify (.bind (.mono (hangUp_kept current current _ _) ?_)))
  rintro - s₁ h₁
  have h₁ : Kept s s₁ := h₁
  refine .bind (.reads (.bind ((sendSig_ends current SIGCHLD _ s₁).weaken (fun _ _ => trivial) ?_)))
  rintro - s₂ ⟨hsame, -⟩
  have h₂ := h₁.trans hsame.kept
  refine .bind (.reads ?_)
  cases (s₂.tasks.page current).cptr with
  | none => exact .pure h₂
  | some p => exact (adopt_kept _ _ _ _).mono fun _ _ h => h₂.trans h

theorem disown_tasks (s : State) (session : Int) (p : Nat) : (s.disown session p).tasks = s.tasks := by
  unfold State.disown
  split <;> rfl

/-- The last loop of `do_exit`. -/
theorem disownSlots_ends (current : Nat) (l : List Nat) (s : State) :
    (disownSlots current l).Ends s (fun e => e = .emptySlot ∧ ∃ nr ∈ l, s.tasks.task nr = none)
      fun _ _ => ∀ nr ∈ l, s.tasks.task nr ≠ none := by
  induction l generalizing s with
  | nil => exact .pure fun nr h => absurd h List.not_mem_nil
  | cons nr l ih =>
      refine deref_ends (fun hnone => ⟨rfl, nr, List.mem_cons_self, hnone⟩) fun p hp => .bind (.modify ?_)
      have hrest := ih (s.disown (s.tasks.page current).session p)
      rw [disown_tasks] at hrest
      refine hrest.weaken ?_ ?_
      · rintro e ⟨he, i, hi, hnone⟩
        exact ⟨he, i, List.mem_cons_of_mem _ hi, hnone⟩
      · intro _ _ hall i hi hnone
        rcases List.mem_cons.1 hi with rfl | hi
        · rw [hp] at hnone
          cases hnone
        · exact hall i hi hnone

theorem disownAll_ends (current : Nat) (s : State) :
    (disownSlots current slots).Ends s (fun e => e = .emptySlot ∧ ¬ Full s.tasks) fun _ _ => Full s.tasks := by
  refine (disownSlots_ends current slots s).weaken ?_ fun _ _ h => h
  rintro e ⟨he, nr, hnr, hnone⟩
  exact ⟨he, fun hfull => hfull nr hnr hnone⟩

/-- **The end of `do_exit`** for a session leader. -/
theorem leaderExit_ends {s : State} (hlive : s.tasks.Live current) :
    (leaderExit current).Ends s
      (fun e => e = .emptySlot ∧ ¬ ((s.tasks.page current).leader = true → LeaderFine s current) ∨
        (∃ s', e = .gone s') ∧ ((s.tasks.page current).leader = true → LeaderFine s current))
      fun _ _ => (s.tasks.page current).leader = true → LeaderFine s current := by
  refine .bind (.reads ?_)
  by_cases hleader : (s.tasks.page current).leader = true
  · rw [if_pos hleader]
    refine .bind (.reads ?_)
    -- without a group to hang up, all slots are read
    have hplain : ∀ s₁ : State, s₁.tasks = s.tasks →
        (∀ nr, s.tty current = some nr → (s.ttyTable (s.ttyIndex nr)).pgrp ≤ 0) →
        (disownSlots current slots).Ends s₁
          (fun e => e = .emptySlot ∧ ¬ ((s.tasks.page current).leader = true → LeaderFine s current) ∨
            (∃ s', e = .gone s') ∧ ((s.tasks.page current).leader = true → LeaderFine s current))
          fun _ _ => (s.tasks.page current).leader = true → LeaderFine s current := by
      intro s₁ htasks hpgrp
      have hend := disownAll_ends current s₁
      rw [htasks] at hend
      refine hend.weaken ?_ fun _ _ hfull _ => .inl hfull
      rintro e ⟨rfl, hno⟩
      refine .inl ⟨rfl, fun hf => ?_⟩
      rcases hf hleader with hfull | ⟨-, hpos, ⟨nr, hnr, htty⟩, -⟩
      · exact hno hfull
      · have hle := hpgrp nr hnr
        rw [htty] at hle
        exact absurd hpos (Int.not_lt.2 hle)
    cases htty : s.tty current with
    | none =>
        refine .bind (.pure (hplain s rfl fun nr hnr => ?_))
        rw [htty] at hnr
        cases hnr
    | some nr =>
        refine .bind (.bind (.reads (.bind (.reads (.bind ?_)))))
        by_cases hpos : 0 < (s.ttyTable (s.ttyIndex nr)).pgrp
        · refine (killPg_ends _ hpos).weaken ?_ ?_
          · rintro e (⟨rfl, hno⟩ | ⟨hgone, hgap, -, hpgrp, ht⟩)
            · refine .inl ⟨rfl, fun hf => hno ?_⟩
              rcases hf hleader with hfull | ⟨ht, -, ⟨nr', hnr', hpgrp⟩, hgap⟩
              · exact NoGap.of_full hfull
              · rw [htty] at hnr'
                cases hnr'
                refine (NoGap.congr rfl fun _ _ x _ => ?_).2 hgap
                refine ⟨fun hx => hx.1, ?_⟩
                rintro rfl
                exact ⟨rfl, hpgrp.symm, ht⟩
            · refine .inr ⟨hgone, fun _ => .inr ⟨ht, hpgrp ▸ hpos, ⟨nr, htty, hpgrp.symm⟩, ?_⟩⟩
              refine (NoGap.congr rfl fun _ _ x _ => ?_).2 hgap
              refine ⟨?_, fun hx => hx.1⟩
              rintro rfl
              exact ⟨rfl, hpgrp, ht⟩
          · rintro - s₁ ⟨hlogged, -, hfull, -⟩
            have hfull₁ : Full s₁.tasks := by
              unfold Full
              rw [hlogged.quiet.task]
              exact hfull
            refine .modify ((disownAll_ends current _).weaken ?_ fun _ _ _ _ => .inl hfull)
            rintro e ⟨-, hno⟩
            exact absurd hfull₁ hno
        · have hle := Int.not_lt.1 hpos
          refine (killPg_same hle).mono ?_
          rintro - s₁ rfl
          refine .modify (hplain _ rfl fun nr' hnr' => ?_)
          rw [htty] at hnr'
          cases hnr'
          exact hle
  · rw [if_neg hleader]
    exact .pure fun h => absurd h hleader

/-! ## When it is so -/

theorem hangUps_injective {gs gs' : List Int} (h : hangUps gs = hangUps gs') : gs = gs' := by
  induction gs generalizing gs' with
  | nil =>
      cases gs' with
      | nil => rfl
      | cons g gs' => cases h
  | cons g gs ih =>
      cases gs' with
      | nil => cases h
      | cons g' gs' =>
          obtain ⟨hg, hrest⟩ := List.cons.inj h
          rw [(Prod.mk.inj hg).1, ih (List.cons.inj hrest).2]

/-- The groups that are due are those that lose their last tie. -/
theorem due_iff (T : Table s₀ current kids) (hleft : Left s₀ current kids s) :
    Due s₀ s g ↔ Loses s₀ current g ∧ Stopped s₀ g := by
  have hne : current ∉ kids := fun hc => T.father (T.kid current hc).2
  have halive : ∀ f, Alive s f ↔ Alive s₀ f ∧ f ≠ current := fun f => by
    unfold Alive
    rw [hleft.task, Ne, hleft.zombie, not_or]
    exact ⟨fun h => ⟨⟨h.1, h.2.2⟩, h.2.1⟩, fun h => ⟨h.1.1, h.2, h.1.2⟩⟩
  have htie : ∀ x, Tie s g x ↔ Tie s₀ g x ∧ x ≠ current ∧ (s₀.page x).pptr ≠ current := fun x => by
    by_cases hx : x ∈ kids
    · refine iff_of_false (fun ht => ht.notInit ?_) fun ht => ht.2.2 (T.kid x hx).2
      rw [hleft.pptr, if_pos hx, hleft.init_eq]
    · have hpptr : (s.page x).pptr = (s₀.page x).pptr := by rw [hleft.pptr, if_neg hx]
      constructor
      · rintro ⟨hm, ha, hf, hi, hp, hs⟩
        rw [hpptr] at hf hi hp hs
        rw [hleft.init_eq] at hi
        rw [hleft.pgrp] at hp
        rw [hleft.session, hleft.session] at hs
        rw [Ne, hleft.zombie, not_or] at ha
        have hf := (halive _).1 hf
        exact ⟨⟨(hleft.member g x).1 hm, ha.2, hf.1, hi, hp, hs⟩, ha.1, hf.2⟩
      · rintro ⟨⟨hm, ha, hf, hi, hp, hs⟩, hxc, hfc⟩
        refine ⟨(hleft.member g x).2 hm, ?_, ?_, ?_, ?_, ?_⟩
        · rw [Ne, hleft.zombie, not_or]
          exact ⟨hxc, ha⟩
        · rw [hpptr]
          exact (halive _).2 ⟨hf, hfc⟩
        · rw [hpptr, hleft.init_eq]
          exact hi
        · rw [hpptr, hleft.pgrp]
          exact hp
        · rw [hpptr, hleft.session, hleft.session]
          exact hs
  unfold Due Orphaned Loses
  rw [not_forall]
  simp only [not_not, htie]
  constructor
  · rintro ⟨hex, hall, hst⟩
    refine ⟨⟨hex, fun x hx => ?_⟩, hst⟩
    by_contra hno
    rw [not_or] at hno
    exact hall x ⟨hx, hno⟩
  · rintro ⟨⟨hex, hall⟩, hst⟩
    exact ⟨hex, fun x hx => (hall x hx.1).elim hx.2.1 hx.2.2, hst⟩

/-- A group that is due has been hung up, unless it is hidden. -/
theorem Inv.mem_iff (h : Inv s₀ current kids gs stop) (T : Table s₀ current kids) (hlose : Loses s₀ current g)
    (hstop : Stopped s₀ g) : g ∈ gs ↔ 0 < g ∧ ∀ x, Seen s₀ g x → x = current ∨ x ∈ kids := by
  obtain ⟨⟨t, ht⟩, hall⟩ := hlose
  by_cases hg : g = (s₀.page current).pgrp
  · have htc : t = current := by
      refine (hall t ht).resolve_right fun hf => ht.pgrp ?_
      rw [hf, hg]
    have hown : OwnAsked s₀ current ↔ ∀ x, Seen s₀ g x → x = current ∨ x ∈ kids := by
      rw [htc] at ht
      have hpgrp := ht.pgrp
      rw [hg] at hpgrp
      unfold OwnAsked
      dsimp only
      rw [← hg]
      constructor
      · intro ha x hs
        refine .inl ?_
        by_contra hne
        exact ha.2.2 x hne hs
      · refine fun ha => ⟨hg ▸ hpgrp, ht.session, fun x hne hs => ?_⟩
        have hx := (ha x hs).resolve_left hne
        apply hs.pgrp
        rw [(T.kid x hx).2, hg]
    have hmem := h.own
    rw [← hg] at hmem
    rw [hmem, hown]
    exact ⟨fun hm => ⟨hm.1, hm.2.1⟩, fun hm => ⟨hm.1, hm.2, hstop⟩⟩
  · rw [h.other g hg]
    have hhas : Has s₀ g (Stops s₀ current) := by
      obtain ⟨x, hx, hs⟩ := hstop
      exact ⟨x, hx, .inl hs⟩
    have htc : t ≠ current := by
      rintro rfl
      exact hg ht.member.2.symm
    constructor
    · rintro ⟨hpos, hlost, -⟩
      refine ⟨hpos, fun x hs => ?_⟩
      by_cases hx : x = current
      · exact .inl hx
      · exact .inr (hlost.2 x hx hs)
    · rintro ⟨hpos, hseen⟩
      have hkid : t ∈ kids := (hseen t (T.seen_of_tie ht)).resolve_left htc
      exact ⟨hpos, ⟨⟨t, hkid, (T.seen_kid hkid).1 (T.seen_of_tie ht)⟩, fun x hx hs => (hseen x hs).resolve_left hx⟩,
        hhas⟩

/-- The right groups are hung up, if the children are fine. -/
theorem rule_iff {s s' : State} (T : Table s.tasks current kids) (hleft : Left s.tasks current kids s'.tasks)
    (hdone : Done s.tasks current kids s.sent s') :
    Rule s s' ↔ ∀ g, Loses s.tasks current g → Stopped s.tasks g →
      0 < g ∧ ∀ x, Seen s.tasks g x → x = current ∨ x ∈ kids := by
  obtain ⟨gs, stop, hinv, hlog⟩ := hdone
  constructor
  · rintro ⟨gs', hlog', -, hmem⟩ g hlose hstop
    have heq : gs = gs' := hangUps_injective (List.append_cancel_left (hlog.symm.trans hlog'))
    rw [← hinv.mem_iff T hlose hstop, heq, hmem]
    exact (due_iff T hleft).2 ⟨hlose, hstop⟩
  · refine fun hall => ⟨gs, hlog, hinv.nodup, fun g => ?_⟩
    rw [due_iff T hleft]
    exact ⟨hinv.due g, fun hg => (hinv.mem_iff T hg.1 hg.2).2 (hall g hg.1 hg.2)⟩

theorem Bad.not_rule {s s' : State} (T : Table s.tasks current kids) (hleft : Left s.tasks current kids s'.tasks)
    (h : Bad s.tasks current s.sent s') : ¬ Rule s s' := by
  rintro ⟨gs', hlog', hnodup, hmem⟩
  obtain ⟨gs, hlog, hbad⟩ := h
  have heq : gs = gs' := hangUps_injective (List.append_cancel_left (hlog.symm.trans hlog'))
  subst heq
  exact hbad ⟨hnodup, fun g hg => (due_iff T hleft).1 ((hmem g).1 hg)⟩

/-- What the end of `do_exit` looks at is as it was. -/
theorem leaderFine_kept {s s' : State} (T : Table s.tasks current kids) (hleft : Left s.tasks current kids s'.tasks)
    (hkept : Kept s s') : ((s'.tasks.page current).leader = true → LeaderFine s' current) ↔
      ((s.tasks.page current).leader = true → LeaderFine s current) := by
  have hne : current ∉ kids := fun hc => T.father (T.kid current hc).2
  have hindex : ∀ nr, s'.ttyIndex nr = s.ttyIndex nr := fun nr => by
    unfold State.ttyIndex
    rw [hkept.2.2]
  unfold LeaderFine Full NoGap
  simp only [hleft.leader, hleft.task, hleft.pgrp, hleft.ptraced, if_neg hne, hkept.1, hkept.2.1, hindex]

theorem restFine_iff : RestFine s₀ current [] kids ↔
    ∀ l₁ c l₂, kids = l₁ ++ c :: l₂ → ChildAsked s₀ current l₁ c → ChildFine s₀ current l₁ c := .rfl

/-- **When `do_exit` reads no field of an empty slot, and hangs up the groups that are due**: it is not about to look
for stopped jobs with an empty slot in the table, no group is hung up that lost no tie, or twice, none is hidden, and no
traced task hangs itself up. -/
theorem orphans_iff {s : State} (T : Table s.tasks current kids) : Meets current s ↔ Fine current kids s := by
  constructor
  · rintro ⟨hslots, s', hleave, hrule⟩
    obtain ⟨hleft, ⟨⟨hown, hrest⟩, hdone⟩ | ⟨-, hbad⟩⟩ := (leave_ends T).ok_of hleave
    · have hkept := (leave_kept current s).ok_of hleave
      refine ⟨hown, restFine_iff.1 hrest, (rule_iff T hleft hdone).1 hrule, ?_⟩
      rw [← leaderFine_kept T hleft hkept]
      have hlive : s'.tasks.Live current := hleft.live T
      have hexit : doExit current s = leaderExit current s' := bind_ok hleave _
      rw [hexit] at hslots
      cases hrun : leaderExit current s' with
      | ok r => exact (leaderExit_ends hlive).ok_of hrun
      | error e =>
          rcases (leaderExit_ends hlive).error_of hrun with ⟨rfl, -⟩ | ⟨-, hfine⟩
          · exact absurd hrun hslots
          · exact hfine
    · exact absurd hrule (hbad.not_rule T hleft)
  · rintro ⟨hown, hchild, hdue, hleader⟩
    have hfine : (OwnAsked s.tasks current → OwnFine s.tasks current) ∧ RestFine s.tasks current [] kids :=
      ⟨hown, restFine_iff.2 hchild⟩
    cases hrun : leave current s with
    | error e => exact absurd hfine ((leave_ends T).error_of hrun)
    | ok r =>
        obtain ⟨⟨⟩, s'⟩ := r
        obtain ⟨hleft, ⟨-, hdone⟩ | ⟨hno, -⟩⟩ := (leave_ends T).ok_of hrun
        · refine ⟨?_, s', hrun, (rule_iff T hleft hdone).2 hdue⟩
          have hlive : s'.tasks.Live current := hleft.live T
          have hexit : doExit current s = leaderExit current s' := bind_ok hrun _
          rw [hexit]
          intro hslots
          rcases (leaderExit_ends hlive).error_of hslots with ⟨-, hno⟩ | ⟨⟨s'', hgone⟩, -⟩
          · rw [leaderFine_kept T hleft ((leave_kept current s).ok_of hrun)] at hno
            exact hno hleader
          · cases hgone
        · exact absurd hfine hno

end

/-! ## A shell -/

/-- Task 2, a child of init, has the child 3, which is in a process group of its own, and stopped. The tasks from 4 on
are children of init. -/
def shellPage (x : Nat) : Task :=
  if x = 2 then ⟨.running, 2, 2, 2, false, false, 1, some 3, none, some 4⟩
  else if x = 3 then ⟨.stopped, 3, 3, 2, false, false, 2, none, none, none⟩
  else ⟨.interruptible, x, x, x, true, false, if x < 2 then 0 else 1, if x < 2 then some (x + 1) else none, none, none⟩

/-- The tasks are in the slots up to `n`. -/
def shell (n : Nat) : State where
  tasks := { task := fun nr => if nr < n then some nr else none, page := shellPage }
  tty := fun _ => none
  ttyTable := fun _ => ⟨0, 0⟩
  fgConsole := 0
  sent := []

theorem shell_slot {n nr : Nat} (h : nr < n) : (shell n).tasks.task nr = some nr := if_pos h

theorem shell_init {n : Nat} (h : 4 ≤ n) : (shell n).tasks.init = 1 := by
  unfold Tasks.init
  rw [shell_slot (by omega)]
  rfl

theorem shell_table {n : Nat} (h : 4 ≤ n) : Table (shell n).tasks 2 [3] where
  init := by
    rw [shell_init h]
    exact shell_slot (by omega)
  initAlive := by
    rw [shell_init h]
    show (shellPage 1).state ≠ .zombie
    decide
  pid f _ := by
    rw [shell_init h]
    show (shellPage f).pid = 1 ↔ f = 1
    unfold shellPage
    split
    · rename_i h2
      rw [h2]
      decide
    · split
      · rename_i h3
        rw [h3]
        decide
      · exact Int.ofNat_inj
  live := ⟨2, by decide, by decide, shell_slot (by omega)⟩
  running := rfl
  notInit := by
    rw [shell_init h]
    decide
  father := show (shellPage 2).pptr ≠ 2 by decide
  leads := .cons .nil
  nodup := List.nodup_singleton 3
  kid p hp := by
    rw [List.mem_singleton.1 hp]
    exact ⟨⟨3, by decide, by decide, shell_slot (by omega)⟩, rfl⟩
  initChild := by
    rw [shell_init h]
    show (shellPage 1).cptr ≠ none
    decide

/-- The only one that `is_orphaned_pgrp` takes for a tie. -/
theorem shell_seen {g : Int} {x : Nat} (h : Seen (shell 64).tasks g x) : x = 3 ∧ g = 3 := by
  obtain ⟨⟨⟨nr, hpos, -, htask⟩, hg⟩, -, hpid, -, hsession⟩ := h
  have hx : x = nr := by
    unfold shell at htask
    dsimp only at htask
    split at htask
    · exact (Option.some.inj htask).symm
    · cases htask
  have hg : (shellPage x).pgrp = g := hg
  have hpid : (shellPage (shellPage x).pptr).pid ≠ 1 := hpid
  have hsession : (shellPage (shellPage x).pptr).session = (shellPage x).session := hsession
  by_cases h3 : x = 3
  · rw [h3] at hg
    exact ⟨h3, hg.symm⟩
  · by_cases h2 : x = 2
    · rw [h2] at hpid
      exact absurd rfl hpid
    · have hpptr : (shellPage x).pptr = if x < 2 then 0 else 1 := by
        unfold shellPage
        rw [if_neg h2, if_neg h3]
      by_cases h1 : x < 2
      · have hone : x = 1 := by omega
        rw [hone] at hsession
        cases hsession
      · rw [hpptr, if_neg h1] at hpid
        exact absurd rfl hpid

/-- There is no empty slot, and task 2 exits: the group 3 is hung up. -/
theorem orphans_iff_shell : Meets 2 (shell 64) := by
  refine (orphans_iff (shell_table (n := 64) (by decide))).2 ⟨fun h => ?_, fun l₁ c l₂ hk _ => ?_, fun g hl _ => ?_,
    fun h => ?_⟩
  · exact absurd h.2.1 (show (1 : Int) ≠ 2 by decide)
  · have hc : l₁ = [] ∧ c = 3 := by
      cases l₁ with
      | nil => exact ⟨rfl, (List.cons.inj hk).1.symm⟩
      | cons b l₁ => exact absurd (List.cons.inj hk).2 (by simp)
    rw [hc.1, hc.2]
    have hfull : Full (shell 64).tasks := fun nr hnr => by
      have htask : (shell 64).tasks.task nr = some nr := shell_slot (mem_slots.1 hnr).2
      rw [htask]
      exact Option.some_ne_none nr
    have hstopped : Stopped (shell 64).tasks 3 := ⟨3, ⟨⟨3, by decide, by decide, shell_slot (by decide)⟩, rfl⟩, rfl⟩
    show ChildFine (shell 64).tasks 2 [] 3
    unfold ChildFine
    dsimp only
    rw [if_neg fun hno => absurd hno.1 (show ¬ (3 : Int) ≤ 0 by decide)]
    refine ⟨hfull, fun _ => ?_⟩
    rw [if_neg (show ¬ ((shell 64).tasks.page 3).state = .zombie by decide)]
    exact fun _ => hstopped
  · obtain ⟨⟨x, hx⟩, -⟩ := hl
    have hg := (shell_seen ((shell_table (n := 64) (by decide)).seen_of_tie hx)).2
    exact ⟨hg ▸ by decide, fun y hy => .inr (List.mem_singleton.2 (shell_seen hy).1)⟩
  · cases h

/-- **There is an empty slot**: `has_stopped_jobs` reads its fields. -/
theorem exit_reads_empty_slot : Table (shell 4).tasks 2 [3] ∧ ¬ Meets 2 (shell 4) :=
  ⟨shell_table (by decide), fun h => h.1 rfl⟩

end Orphans
end Kernel
end Linux095
