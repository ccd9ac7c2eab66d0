import Linux095.Kernel.OrphanSignals

/-!
# `Kernel.OrphanChildren` — the children of a task that exits (`kernel/exit.c`)

* `During` — the tasks while `do_exit` goes on;
* `Inv` — **which groups have been hung up** when some of the children have been looked at;
* `hangUp_child` — a child is looked at: that stops, or signals a group that is not due, unless the child is fine.
-/

namespace Linux095
namespace Kernel
namespace Orphans
open Seq Prog Links
open Sched.ProcessTree (Tasks Task TaskState NR_TASKS SIGHUP SIGKILL SIGCHLD SIGCONT slots deliver isOrphanedPgrp Quiet
  deliver_quiet page_set)

/-! ## While `do_exit` goes on -/

/-- What `is_orphaned_pgrp` sees, when `current` has become a zombie and the children `done` have another parent. -/
structure Left (s₀ : Tasks) (current : Nat) (done : List Nat) (s : Tasks) : Prop where
  task : s.task = s₀.task
  pid : ∀ x, (s.page x).pid = (s₀.page x).pid
  pgrp : ∀ x, (s.page x).pgrp = (s₀.page x).pgrp
  session : ∀ x, (s.page x).session = (s₀.page x).session
  leader : ∀ x, (s.page x).leader = (s₀.page x).leader
  pptr : ∀ x, (s.page x).pptr = if x ∈ done then s₀.init else (s₀.page x).pptr
  ptraced : ∀ x, (s.page x).ptraced = if x ∈ done then false else (s₀.page x).ptraced
  zombie : ∀ x, (s.page x).state = .zombie ↔ x = current ∨ (s₀.page x).state = .zombie

/-- The tasks in the loop; `stop` holds of those that are stopped, `current`'s group apart. -/
structure During (s₀ : Tasks) (current : Nat) (done : List Nat) (stop : Nat → Prop) (s : Tasks) : Prop
    extends Left s₀ current done s where
  osptr : ∀ x, (s.page x).osptr = (s₀.page x).osptr
  cptr : ∀ x, (s.page x).cptr = (s₀.page x).cptr
  stop : ∀ x, (s₀.page x).pgrp ≠ (s₀.page current).pgrp → ((s.page x).state = .stopped ↔ stop x)
  can : ∀ x, x ≠ current → (CanStop (s.page x).state ↔ CanStop (s₀.page x).state)

section

variable {s₀ s s' : Tasks} {current c i : Nat} {g : Int} {kids l done : List Nat} {stop stop' : Nat → Prop}

theorem quiet_session (h : Quiet s s') (x : Nat) : (s'.page x).session = (s.page x).session := by
  obtain ⟨v, hv, -⟩ := h.page x
  rw [hv]

theorem quiet_pid (h : Quiet s s') (x : Nat) : (s'.page x).pid = (s.page x).pid := by
  obtain ⟨v, hv, -⟩ := h.page x
  rw [hv]

theorem quiet_leader (h : Quiet s s') (x : Nat) : (s'.page x).leader = (s.page x).leader := by
  obtain ⟨v, hv, -⟩ := h.page x
  rw [hv]

theorem Left.quiet (h : Left s₀ current done s) (hq : Quiet s s') : Left s₀ current done s' where
  task := hq.task.trans h.task
  pid x := (quiet_pid hq x).trans (h.pid x)
  pgrp x := (hq.pgrp x).trans (h.pgrp x)
  session x := (quiet_session hq x).trans (h.session x)
  leader x := (quiet_leader hq x).trans (h.leader x)
  pptr x := (hq.pptr x).trans (h.pptr x)
  ptraced x := (hq.ptraced x).trans (h.ptraced x)
  zombie x := (hq.zombie x).trans (h.zombie x)

/-- Signals come, after which the tasks that `stop'` holds of are stopped. -/
theorem During.quiet (h : During s₀ current done stop s) (hq : Quiet s s')
    (hstop : ∀ x, (s₀.page x).pgrp ≠ (s₀.page current).pgrp → ((s'.page x).state = .stopped ↔ stop' x))
    (hcan : ∀ x, CanStop (s'.page x).state ↔ CanStop (s.page x).state) : During s₀ current done stop' s' where
  toLeft := h.toLeft.quiet hq
  osptr x := (hq.osptr x).trans (h.osptr x)
  cptr x := (hq.cptr x).trans (h.cptr x)
  stop := hstop
  can x hx := (hcan x).trans (h.can x hx)

/-- `current->state = TASK_ZOMBIE`. -/
theorem During.start (s₀ : Tasks) (current : Nat) :
    During s₀ current [] (fun x => (s₀.page x).state = .stopped) (s₀.setState current .zombie) := by
  have hstate := fun x => setState_state s₀ current x .zombie
  refine ⟨⟨rfl, fun x => ?_, fun x => ?_, fun x => ?_, fun x => ?_, fun x => ?_,
    fun x => setState_ptraced s₀ current x .zombie, fun x => ?_⟩, fun x => ?_, fun x => ?_, fun x hx => ?_,
    fun x hx => ?_⟩
  · simp only [Tasks.setState, page_set, apply_ite Task.pid, ite_self]
  · simp only [Tasks.setState, page_set, apply_ite Task.pgrp, ite_self]
  · simp only [Tasks.setState, page_set, apply_ite Task.session, ite_self]
  · simp only [Tasks.setState, page_set, apply_ite Task.leader, ite_self]
  · simp only [Tasks.setState, page_set, apply_ite Task.pptr, ite_self, List.not_mem_nil, if_false]
  · rw [hstate]
    by_cases hx : x = current
    · simp [hx]
    · simp [hx]
  · simp only [Tasks.setState, page_set, apply_ite Task.osptr, ite_self]
  · simp only [Tasks.setState, page_set, apply_ite Task.cptr, ite_self]
  · have hne : x ≠ current := by
      rintro rfl
      exact hx rfl
    rw [hstate, if_neg hne]
  · rw [hstate, if_neg hx]

theorem Left.init_eq (h : Left s₀ current done s) : s.init = s₀.init := by
  unfold Tasks.init
  rw [h.task]

/-- A child becomes one of init. -/
theorem During.inherit (h : During s₀ current done stop s) (c : Nat) :
    During s₀ current (done ++ [c]) stop (s.set c fun t => { t with ptraced := false, pptr := s.init }) := by
  have hmem : ∀ x, x ∈ done ++ [c] ↔ x = c ∨ x ∈ done := fun x => by simp [or_comm]
  refine ⟨⟨h.task, fun x => ?_, fun x => ?_, fun x => ?_, fun x => ?_, fun x => ?_, fun x => ?_, fun x => ?_⟩,
    fun x => ?_, fun x => ?_, fun x hx => ?_, fun x hx => ?_⟩
  · simp only [page_set, apply_ite Task.pid, ite_self, h.pid]
  · simp only [page_set, apply_ite Task.pgrp, ite_self, h.pgrp]
  · simp only [page_set, apply_ite Task.session, ite_self, h.session]
  · simp only [page_set, apply_ite Task.leader, ite_self, h.leader]
  · simp only [page_set, apply_ite Task.pptr, h.pptr, h.init_eq, hmem, ite_or]
  · simp only [page_set, apply_ite Task.ptraced, h.ptraced, hmem, ite_or]
  · simp only [page_set, apply_ite Task.state, ite_self, h.zombie]
  · simp only [page_set, apply_ite Task.osptr, ite_self, h.osptr]
  · simp only [page_set, apply_ite Task.cptr, ite_self, h.cptr]
  · simp only [page_set, apply_ite Task.state, ite_self, h.stop x hx]
  · simp only [page_set, apply_ite Task.state, ite_self, h.can x hx]

theorem Left.member (h : Left s₀ current done s) (g : Int) (x : Nat) : Member s g x ↔ Member s₀ g x := by
  unfold Member Tasks.Live
  rw [h.task, h.pgrp]

/-- The children in `done` do not count any more, and neither does `current`. -/
theorem Left.seen_iff (h : Left s₀ current done s) (hinit : (s₀.page s₀.init).pid = 1) (g : Int) (x : Nat) :
    Seen s g x ↔ Seen s₀ g x ∧ x ≠ current ∧ x ∉ done := by
  by_cases hx : x ∈ done
  · refine iff_of_false (fun hs => hs.pid ?_) fun hs => hs.2.2 hx
    rw [h.pptr, if_pos hx, h.pid, hinit]
  · have hpptr : (s.page x).pptr = (s₀.page x).pptr := by rw [h.pptr, if_neg hx]
    constructor
    · rintro ⟨hm, ha, hpid, hpgrp, hsession⟩
      rw [hpptr] at hpid hpgrp hsession
      rw [Ne, h.zombie, not_or] at ha
      rw [h.pid] at hpid
      rw [h.pgrp] at hpgrp
      rw [h.session, h.session] at hsession
      exact ⟨⟨(h.member g x).1 hm, ha.2, hpid, hpgrp, hsession⟩, ha.1, hx⟩
    · rintro ⟨⟨hm, ha, hpid, hpgrp, hsession⟩, hne, -⟩
      refine ⟨(h.member g x).2 hm, ?_, ?_, ?_, ?_⟩
      · rw [Ne, h.zombie, not_or]
        exact ⟨hne, ha⟩
      · rw [hpptr, h.pid]
        exact hpid
      · rw [hpptr, h.pgrp]
        exact hpgrp
      · rw [hpptr, h.session, h.session]
        exact hsession

/-- `is_orphaned_pgrp` does not ask whether the parents are alive. -/
theorem isOrphanedPgrp_iff (s : Tasks) (g : Int) : isOrphanedPgrp s g = true ↔ ∀ x, ¬ Seen s g x := by
  unfold isOrphanedPgrp
  rw [Bool.not_eq_true', ← Bool.not_eq_true, List.any_eq_true]
  refine not_congr ⟨?_, ?_⟩ |>.trans not_exists
  · rintro ⟨nr, hnr, hany⟩
    obtain ⟨x, hx, htest⟩ := (Option.any_eq_true _ _).1 hany
    simp only [Bool.and_eq_true, beq_iff_eq, bne_iff_ne] at htest
    obtain ⟨⟨⟨⟨hg, ha⟩, hpid⟩, hpgrp⟩, hsession⟩ := htest
    exact ⟨x, ⟨live_iff.2 ⟨nr, hnr, hx⟩, hg⟩, ha, hpid, hpgrp, hsession⟩
  · rintro ⟨x, ⟨hlive, hg⟩, ha, hpid, hpgrp, hsession⟩
    obtain ⟨nr, hnr, hx⟩ := live_iff.1 hlive
    refine ⟨nr, hnr, (Option.any_eq_true _ _).2 ⟨x, hx, ?_⟩⟩
    simp only [Bool.and_eq_true, beq_iff_eq, bne_iff_ne]
    exact ⟨⟨⟨⟨hg, ha⟩, hpid⟩, hpgrp⟩, hsession⟩

theorem ownCut_iff {s : State} (h : Left s₀ current [] s.tasks) (hinit : (s₀.page s₀.init).pid = 1) :
    ownCut current s = true ↔ OwnAsked s₀ current := by
  have hpptr : (s.tasks.page current).pptr = (s₀.page current).pptr := by
    rw [h.pptr, if_neg List.not_mem_nil]
  simp only [ownCut, OwnAsked, Bool.and_eq_true, beq_iff_eq, bne_iff_ne, isOrphanedPgrp_iff, hpptr, h.pgrp, h.session,
    h.seen_iff hinit, and_assoc, not_and, List.not_mem_nil, not_false_eq_true, not_true_eq_false]
  refine and_congr_right fun _ => and_congr_right fun _ => forall_congr' fun x => ?_
  exact ⟨fun hx hne hs => hx hs hne, fun hx hs hne => hx hne hs⟩

theorem childCut_iff {s : State} (h : Left s₀ current (l ++ [c]) s.tasks) (hinit : (s₀.page s₀.init).pid = 1) :
    childCut current c s = true ↔ ChildAsked s₀ current l c := by
  simp only [childCut, ChildAsked, Outside, Bool.and_eq_true, beq_iff_eq, bne_iff_ne, isOrphanedPgrp_iff, h.pgrp,
    h.session, h.seen_iff hinit]
  refine and_congr_right fun _ => forall_congr' fun x => ?_
  exact ⟨fun hx hne hl hs => hx ⟨hs, hne, hl⟩, fun hx hs => hx hs.2.1 hs.2.2 hs.1⟩

/-- A group that is stopped now. -/
theorem During.stopped_iff (h : During s₀ current done stop s) (hg : g ≠ (s₀.page current).pgrp) :
    Stopped s g ↔ Has s₀ g stop := by
  refine exists_congr fun x => ?_
  rw [h.member]
  refine and_congr_right fun hm => h.stop x ?_
  rw [hm.2]
  exact hg

/-- What `has_stopped_jobs` reads of a group that is not `current`'s. -/
theorem During.readable_iff (h : During s₀ current done stop s) (hg : g ≠ (s₀.page current).pgrp) :
    Readable s current g ↔
      (g ≤ 0 ∧ Has s₀ g stop → NoGap s₀ slots fun x => (s₀.page x).pgrp = g ∧ stop x) ∧
        (¬ (g ≤ 0 ∧ Has s₀ g stop) → Full s₀) := by
  have hgap : (NoGap s slots fun x => (s.page x).pgrp = g ∧ (s.page x).state = .stopped) ↔
      NoGap s₀ slots fun x => (s₀.page x).pgrp = g ∧ stop x := by
    refine NoGap.congr h.task fun _ _ x _ => ?_
    rw [h.pgrp]
    refine and_congr_right fun hx => h.stop x ?_
    rw [hx]
    exact hg
  have hfull : Full s ↔ Full s₀ := by
    unfold Full
    rw [h.task]
  have hfalls : ¬ Falls s current g current := by
    rintro ⟨-, hpgrp, -⟩
    rw [h.pgrp] at hpgrp
    exact hg hpgrp.symm
  unfold Readable
  rw [h.stopped_iff hg, hgap, hfull]
  exact ⟨fun hr => ⟨hr.1, hr.2.1⟩, fun hr => ⟨hr.1, hr.2, fun _ _ => hfalls⟩⟩

/-- The group `g`, which is not `current`'s, is hung up. -/
theorem During.hungUp (h : During s₀ current done stop s) (hq : Quiet s s') (hup : HungUp g s s')
    (hg : g ≠ (s₀.page current).pgrp) :
    During s₀ current done
      (fun x => (Member s₀ g x → (s₀.page x).ptraced = true ∧ x ∉ done ∧ CanStop (s₀.page x).state) ∧
        (¬ Member s₀ g x → stop x)) s' := by
  refine h.quiet hq (fun x hx => ?_) hup.can
  by_cases hm : Member s₀ g x
  · have hmember := (h.member g x).2 hm
    have hne : x ≠ current := by
      rintro rfl
      exact hg hm.2.symm
    have hcond : ((Member s₀ g x → (s₀.page x).ptraced = true ∧ x ∉ done ∧ CanStop (s₀.page x).state) ∧
        (¬ Member s₀ g x → stop x)) ↔ (s₀.page x).ptraced = true ∧ x ∉ done ∧ CanStop (s₀.page x).state :=
      ⟨fun hc => hc.1 hm, fun hc => ⟨fun _ => hc, fun hno => absurd hm hno⟩⟩
    rw [hcond]
    have htraced := h.ptraced x
    by_cases hd : x ∈ done
    · rw [if_pos hd] at htraced
      exact iff_of_false (hup.free x hmember htraced) fun hc => hc.2.1 hd
    · rw [if_neg hd] at htraced
      cases ht : (s₀.page x).ptraced with
      | false =>
          rw [ht] at htraced
          exact iff_of_false (hup.free x hmember htraced) fun hc => absurd hc.1 (by decide)
      | true =>
          rw [ht] at htraced
          rw [hup.traced x hmember htraced, h.can x hne]
          exact ⟨fun hc => ⟨rfl, hd, hc⟩, fun hc => hc.2.2⟩
  · have hcond : ((Member s₀ g x → (s₀.page x).ptraced = true ∧ x ∉ done ∧ CanStop (s₀.page x).state) ∧
        (¬ Member s₀ g x → stop x)) ↔ stop x :=
      ⟨fun hc => hc.2 hm, fun hc => ⟨fun hno => absurd hno hm, fun _ => hc⟩⟩
    rw [hcond, hup.miss x fun hno => hm ((h.member g x).1 hno)]
    exact h.stop x hx

/-- The group of `current` is hung up. -/
theorem During.hungUp_own (h : During s₀ current done stop s) (hq : Quiet s s')
    (hup : HungUp (s₀.page current).pgrp s s') : During s₀ current done stop s' := by
  refine h.quiet hq (fun x hx => ?_) hup.can
  rw [hup.miss x fun hm => hx ((h.member _ x).1 hm).2]
  exact h.stop x hx

/-- SIGCHLD stops a father that is traced. -/
theorem During.sigchld (h : During s₀ current [] (fun x => (s₀.page x).state = .stopped) s) (hq : Quiet s s')
    (hfather : (s₀.page current).pptr ≠ current)
    (hsig : Signalled SIGCHLD (fun x => x = (s₀.page current).pptr) s s') :
    During s₀ current [] (Stops s₀ current) s' := by
  refine h.quiet hq (fun x hx => ?_) hsig.can
  have htraced := h.ptraced x
  rw [if_neg List.not_mem_nil] at htraced
  unfold Stops Halts
  by_cases hf : x = (s₀.page current).pptr
  · have hne : x ≠ current := fun hc => hfather (hf ▸ hc)
    cases ht : (s₀.page x).ptraced with
    | true =>
        rw [hsig.traced x hf (htraced.trans ht), h.can x hne, CanStop]
        simp only [← hf, true_and]
    | false =>
        rw [hsig.free x hf (htraced.trans ht), h.stop x hx]
        simp [SIGCHLD, SIGKILL, SIGCONT]
  · rw [hsig.miss x hf, h.stop x hx]
    simp only [hf, false_and, or_false]

end

/-! ## The groups of the children -/

namespace Table

variable {s₀ : Tasks} {current c x : Nat} {g : Int} {kids l l₂ : List Nat}

theorem initPid (T : Table s₀ current kids) : (s₀.page s₀.init).pid = 1 :=
  (T.pid _ ⟨⟨1, by decide, T.init⟩, T.initAlive⟩).2 rfl

theorem currentAlive (T : Table s₀ current kids) : Alive s₀ current := by
  obtain ⟨nr, hnr⟩ := T.live
  refine ⟨⟨nr, hnr.2⟩, ?_⟩
  rw [T.running]
  decide

theorem currentPid (T : Table s₀ current kids) : (s₀.page current).pid ≠ 1 :=
  fun h => T.notInit ((T.pid _ T.currentAlive).1 h)

theorem seen_of_tie (T : Table s₀ current kids) (h : Tie s₀ g x) : Seen s₀ g x :=
  ⟨h.member, h.alive, fun hpid => h.notInit ((T.pid _ h.father).1 hpid), h.pgrp, h.session⟩

/-- The children that `is_orphaned_pgrp` sees are those that connect the group. -/
theorem seen_kid (T : Table s₀ current kids) (hc : c ∈ kids) : Seen s₀ g c ↔ Cut s₀ current g c := by
  obtain ⟨hlive, hpptr⟩ := T.kid c hc
  constructor
  · rintro ⟨⟨-, hg⟩, ha, -, hpgrp, hsession⟩
    rw [hpptr] at hpgrp hsession
    exact ⟨⟨fun heq => hpgrp (heq.symm.trans hg), hsession.symm⟩, hg, ha⟩
  · rintro ⟨⟨hpgrp, hsession⟩, hg, ha⟩
    refine ⟨⟨hlive, hg⟩, ha, ?_, ?_, ?_⟩
    · rw [hpptr]
      exact T.currentPid
    · rw [hpptr]
      exact fun heq => hpgrp (hg.trans heq.symm)
    · rw [hpptr]
      exact hsession.symm

theorem tie_kid (T : Table s₀ current kids) (hc : c ∈ kids) (h : Cut s₀ current g c) : Tie s₀ g c := by
  obtain ⟨hm, ha, -, hpgrp, hsession⟩ := (T.seen_kid hc).2 h
  obtain ⟨-, hpptr⟩ := T.kid c hc
  refine ⟨hm, ha, ?_, ?_, hpgrp, hsession⟩
  · rw [hpptr]
    exact T.currentAlive
  · rw [hpptr]
    exact T.notInit

end Table

section

variable {s₀ s : Tasks} {current c x : Nat} {g : Int} {kids l l₂ : List Nat} {gs : List Int} {stop : Nat → Prop}

/-- The group has lost the children `l` that connected it, and there is nothing else. -/
def Lost (s₀ : Tasks) (current : Nat) (l : List Nat) (g : Int) : Prop :=
  (∃ c ∈ l, Cut s₀ current g c) ∧ ∀ x, x ≠ current → Seen s₀ g x → x ∈ l

theorem lost_concat (T : Table s₀ current kids) (hc : c ∈ kids) (hno : ¬ Cut s₀ current g c) :
    Lost s₀ current (l ++ [c]) g ↔ Lost s₀ current l g := by
  constructor
  · rintro ⟨⟨c', hc', hcut⟩, hall⟩
    refine ⟨⟨c', ?_, hcut⟩, fun x hx hs => ?_⟩
    · rcases List.mem_append.1 hc' with hc' | hc'
      · exact hc'
      · rw [List.mem_singleton] at hc'
        exact absurd (hc' ▸ hcut) hno
    · rcases List.mem_append.1 (hall x hx hs) with hl | hl
      · exact hl
      · rw [List.mem_singleton] at hl
        rw [hl] at hs
        exact absurd ((T.seen_kid hc).1 hs) hno
  · rintro ⟨⟨c', hc', hcut⟩, hall⟩
    exact ⟨⟨c', List.mem_append_left _ hc', hcut⟩, fun x hx hs => List.mem_append_left _ (hall x hx hs)⟩

theorem stillTraced_concat : StillTraced s₀ current g (l ++ [c]) x ↔
    StillTraced s₀ current g l x ∧ (Cut s₀ current g c → x ∉ l ++ [c]) := by
  constructor
  · rintro ⟨ht, hall⟩
    refine ⟨⟨ht, fun l₁ c' l₂ hl => hall l₁ c' (l₂ ++ [c]) (by rw [hl]; simp)⟩, fun hcut => hall l c [] rfl hcut⟩
  · rintro ⟨⟨ht, hall⟩, hlast⟩
    refine ⟨ht, fun l₁ c' l₂ hl hcut => ?_⟩
    rcases List.eq_nil_or_concat l₂ with rfl | ⟨l₃, b, rfl⟩
    · obtain ⟨rfl, hcc⟩ := List.append_inj' hl rfl
      cases hcc
      exact hlast hcut
    · rw [List.concat_eq_append, ← List.cons_append, ← List.append_assoc] at hl
      exact hall l₁ c' l₃ (List.append_inj' hl rfl).1 hcut

/-- The groups `gs` have been hung up when the children `l` have been looked at, which were all fine. -/
structure Inv (s₀ : Tasks) (current : Nat) (l : List Nat) (gs : List Int) (stop : Nat → Prop) : Prop where
  nodup : gs.Nodup
  due : ∀ g ∈ gs, Loses s₀ current g ∧ Stopped s₀ g
  own : (s₀.page current).pgrp ∈ gs ↔
    0 < (s₀.page current).pgrp ∧ OwnAsked s₀ current ∧ Stopped s₀ (s₀.page current).pgrp
  other : ∀ g, g ≠ (s₀.page current).pgrp →
    (g ∈ gs ↔ 0 < g ∧ Lost s₀ current l g ∧ Has s₀ g (Stops s₀ current))
  fresh : ∀ x, s₀.Live x → (s₀.page x).pgrp ≠ (s₀.page current).pgrp → (s₀.page x).pgrp ∉ gs →
    (stop x ↔ Stops s₀ current x)
  again : ∀ x, s₀.Live x → (s₀.page x).pgrp ≠ (s₀.page current).pgrp → (s₀.page x).pgrp ∈ gs →
    (stop x ↔ StillTraced s₀ current (s₀.page x).pgrp l x ∧ CanStop (s₀.page x).state)

namespace Inv

/-- A group that has been hung up lost its ties before `c`. -/
theorem not_cut (h : Inv s₀ current l gs stop) (T : Table s₀ current kids) (hk : kids = l ++ c :: l₂)
    (hg : g ≠ (s₀.page current).pgrp) (hmem : g ∈ gs) : ¬ Cut s₀ current g c := by
  intro hcut
  have hc : c ∈ kids := by
    rw [hk]
    simp
  have hne : c ≠ current := by
    rintro rfl
    exact hcut.1.1 rfl
  have hl := ((h.other g hg).1 hmem).2.1.2 c hne ((T.seen_kid hc).2 hcut)
  have hnodup := T.nodup
  rw [hk, List.nodup_append] at hnodup
  exact hnodup.2.2 c hl c List.mem_cons_self rfl

/-- Nothing is sent for `c`. -/
theorem next (h : Inv s₀ current l gs stop) (T : Table s₀ current kids) (hk : kids = l ++ c :: l₂)
    (hlost : ∀ g, g ≠ (s₀.page current).pgrp → 0 < g → Has s₀ g (Stops s₀ current) →
      (Lost s₀ current (l ++ [c]) g ↔ Lost s₀ current l g)) : Inv s₀ current (l ++ [c]) gs stop where
  nodup := h.nodup
  due := h.due
  own := h.own
  other g hg := by
    rw [h.other g hg]
    constructor
    · exact fun ⟨hpos, hl, hs⟩ => ⟨hpos, (hlost g hg hpos hs).2 hl, hs⟩
    · exact fun ⟨hpos, hl, hs⟩ => ⟨hpos, (hlost g hg hpos hs).1 hl, hs⟩
  fresh := h.fresh
  again x hlive hx hmem := by
    rw [h.again x hlive hx hmem, stillTraced_concat]
    have hno := h.not_cut T hk hx hmem
    exact ⟨fun hs => ⟨⟨hs.1, fun hcut => absurd hcut hno⟩, hs.2⟩, fun hs => ⟨hs.1.1, hs.2⟩⟩

/-- A group with stopped jobs whose last tie was `c` is hung up. -/
theorem send (h : Inv s₀ current l gs stop) (T : Table s₀ current kids) (hk : kids = l ++ c :: l₂)
    (hasked : ChildAsked s₀ current l c) (hc : (s₀.page c).state ≠ .zombie) (hpos : 0 < (s₀.page c).pgrp)
    (hstop : Has s₀ (s₀.page c).pgrp (Stops s₀ current)) (hdue : Stopped s₀ (s₀.page c).pgrp) :
    Inv s₀ current (l ++ [c]) (gs ++ [(s₀.page c).pgrp])
      (fun x => (Member s₀ (s₀.page c).pgrp x →
          (s₀.page x).ptraced = true ∧ x ∉ l ++ [c] ∧ CanStop (s₀.page x).state) ∧
        (¬ Member s₀ (s₀.page c).pgrp x → stop x)) := by
  obtain ⟨hout, hall⟩ := hasked
  have hmem : c ∈ kids := by
    rw [hk]
    simp
  have hcut : Cut s₀ current (s₀.page c).pgrp c := ⟨hout, rfl, hc⟩
  have hnot : (s₀.page c).pgrp ∉ gs := fun hgs => h.not_cut T hk hout.1 hgs hcut
  have hother : ∀ g, g ≠ (s₀.page c).pgrp → ¬ Cut s₀ current g c := fun g hg hno => hg hno.2.1.symm
  refine ⟨?_, fun g hg => ?_, ?_, fun g hg => ?_, fun x hlive hx hno => ?_, fun x hlive hx hin => ?_⟩
  · rw [List.nodup_append]
    refine ⟨h.nodup, List.nodup_singleton _, fun a ha b hb => ?_⟩
    rw [List.mem_singleton] at hb
    rintro rfl
    exact hnot (hb ▸ ha)
  · rcases List.mem_append.1 hg with hg | hg
    · exact h.due g hg
    · rw [List.mem_singleton] at hg
      rw [hg]
      refine ⟨⟨⟨c, T.tie_kid hmem hcut⟩, fun x hx => ?_⟩, hdue⟩
      by_cases hxc : x = current
      · exact .inl hxc
      · refine .inr (T.kid x ?_).2
        have hxl : x ∈ l ++ [c] := by
          by_contra hno
          exact hall x hxc hno (T.seen_of_tie hx)
        rw [hk]
        simp only [List.mem_append, List.mem_cons, List.not_mem_nil, or_false] at hxl ⊢
        exact hxl.imp_right .inl
  · rw [List.mem_append, List.mem_singleton, h.own, or_iff_left hout.1.symm]
  · rw [List.mem_append, List.mem_singleton, h.other g hg]
    by_cases hgc : g = (s₀.page c).pgrp
    · rw [hgc]
      refine iff_of_true (.inr rfl) ⟨hpos, ⟨⟨c, by simp, hcut⟩, fun x hx hs => ?_⟩, hstop⟩
      by_contra hno
      exact hall x hx hno hs
    · rw [or_iff_left hgc, lost_concat T hmem (hother g hgc)]
  · rw [List.mem_append, List.mem_singleton, not_or] at hno
    have hm : ¬ Member s₀ (s₀.page c).pgrp x := fun hm => hno.2 hm.2
    rw [← h.fresh x hlive hx hno.1]
    exact ⟨fun hs => hs.2 hm, fun hs => ⟨fun hm' => absurd hm' hm, fun _ => hs⟩⟩
  · by_cases hgc : (s₀.page x).pgrp = (s₀.page c).pgrp
    · have hm : Member s₀ (s₀.page c).pgrp x := ⟨hlive, hgc⟩
      rw [hgc]
      have hstill : StillTraced s₀ current (s₀.page c).pgrp (l ++ [c]) x ↔
          (s₀.page x).ptraced = true ∧ x ∉ l ++ [c] := by
        constructor
        · exact fun hs => ⟨hs.1, hs.2 l c [] rfl hcut⟩
        · refine fun hs => stillTraced_concat.2 ⟨⟨hs.1, fun l₁ c' l₃ hl _ hx' => hs.2 ?_⟩, fun _ => hs.2⟩
          rw [hl]
          simp only [List.mem_append, List.mem_cons, List.not_mem_nil, or_false] at hx' ⊢
          exact .inl (hx'.imp_right .inl)
      rw [hstill, and_assoc]
      exact ⟨fun hs => hs.1 hm, fun hs => ⟨fun _ => hs, fun hno => absurd hm hno⟩⟩
    · have hm : ¬ Member s₀ (s₀.page c).pgrp x := fun hm => hgc hm.2
      have hgs : (s₀.page x).pgrp ∈ gs := by
        rcases List.mem_append.1 hin with hin | hin
        · exact hin
        · exact absurd (List.mem_singleton.1 hin) hgc
      have hold := h.again x hlive hx hgs
      have hcond : StillTraced s₀ current (s₀.page x).pgrp (l ++ [c]) x ↔
          StillTraced s₀ current (s₀.page x).pgrp l x := by
        rw [stillTraced_concat]
        exact and_iff_left fun hcut' => absurd hcut' (hother _ hgc)
      rw [hcond, ← hold]
      exact ⟨fun hs => hs.2 hm, fun hs => ⟨fun hm' => absurd hm' hm, fun _ => hs⟩⟩

end Inv

/-- The signals so far are wrong already. -/
def Bad (s₀ : Tasks) (current : Nat) (pre : List (Int × Nat)) (s : State) : Prop :=
  ∃ gs, s.sent = pre ++ hangUps gs ∧ ¬ (gs.Nodup ∧ ∀ g ∈ gs, Loses s₀ current g ∧ Stopped s₀ g)

theorem hangUps_append (gs gs' : List Int) : hangUps (gs ++ gs') = hangUps gs ++ hangUps gs' := List.flatMap_append

namespace Inv

/-- What a zombie finds. -/
theorem again_iff (h : Inv s₀ current l gs stop)
    (hasked : ChildAsked s₀ current l c) (hz : (s₀.page c).state = .zombie) (hpos : 0 < (s₀.page c).pgrp) :
    Has s₀ (s₀.page c).pgrp stop ↔ Again s₀ current (s₀.page c).pgrp l := by
  obtain ⟨hout, hall⟩ := hasked
  have hlost : (∃ c' ∈ l, Cut s₀ current (s₀.page c).pgrp c') → Lost s₀ current l (s₀.page c).pgrp := by
    refine fun hcut => ⟨hcut, fun x hx hs => ?_⟩
    have hxl : x ∈ l ++ [c] := by
      by_contra hno
      exact hall x hx hno hs
    rcases List.mem_append.1 hxl with hxl | hxl
    · exact hxl
    · rw [List.mem_singleton] at hxl
      rw [hxl] at hs
      exact absurd hz hs.alive
  by_cases hgs : (s₀.page c).pgrp ∈ gs
  · obtain ⟨-, hl, hhas⟩ := (h.other _ hout.1).1 hgs
    have hremains : Has s₀ (s₀.page c).pgrp stop ↔ Remains s₀ current (s₀.page c).pgrp l := by
      refine exists_congr fun x => and_congr_right fun hm => ?_
      have hx := h.again x hm.1
      rw [hm.2] at hx
      exact hx hout.1 hgs
    rw [hremains]
    exact ⟨fun hr => ⟨hhas, fun _ => hr⟩, fun hr => hr.2 hl.1⟩
  · have hstops : Has s₀ (s₀.page c).pgrp stop ↔ Has s₀ (s₀.page c).pgrp (Stops s₀ current) := by
      refine exists_congr fun x => and_congr_right fun hm => ?_
      have hx := h.fresh x hm.1
      rw [hm.2] at hx
      exact hx hout.1 hgs
    rw [hstops]
    exact ⟨fun hs => ⟨hs, fun hcut => absurd ((h.other _ hout.1).2 ⟨hpos, hlost hcut, hs⟩) hgs⟩, fun hr => hr.1⟩

/-- What a child that is looked at for the first time finds. -/
theorem stops_iff (h : Inv s₀ current l gs stop) (hg : g ≠ (s₀.page current).pgrp) (hgs : g ∉ gs) :
    Has s₀ g stop ↔ Has s₀ g (Stops s₀ current) := by
  refine exists_congr fun x => and_congr_right fun hm => ?_
  have hx := h.fresh x hm.1
  rw [hm.2] at hx
  exact hx hg hgs

/-- **A child is fine** if the slots that are read are not empty, and the group is hung up only for a live child. -/
theorem childFine_iff (h : Inv s₀ current l gs stop) (T : Table s₀ current kids) (hk : kids = l ++ c :: l₂)
    (hd : During s₀ current (l ++ [c]) stop s) (hasked : ChildAsked s₀ current l c) :
    ChildFine s₀ current l c ↔ Readable s current (s₀.page c).pgrp ∧
      (0 < (s₀.page c).pgrp → Has s₀ (s₀.page c).pgrp stop →
        (s₀.page c).state ≠ .zombie ∧ Stopped s₀ (s₀.page c).pgrp) := by
  have hout := hasked.1
  rw [hd.readable_iff hout.1]
  unfold ChildFine
  dsimp only
  by_cases hpos : 0 < (s₀.page c).pgrp
  · have hnot : ∀ P : Prop, ¬ ((s₀.page c).pgrp ≤ 0 ∧ P) := fun P hc => absurd hpos (Int.not_lt.2 hc.1)
    rw [if_neg (hnot _)]
    have hread : ((s₀.page c).pgrp ≤ 0 ∧ Has s₀ (s₀.page c).pgrp stop →
        NoGap s₀ slots fun x => (s₀.page x).pgrp = (s₀.page c).pgrp ∧ stop x) ∧
        (¬ ((s₀.page c).pgrp ≤ 0 ∧ Has s₀ (s₀.page c).pgrp stop) → Full s₀) ↔ Full s₀ :=
      ⟨fun hr => hr.2 (hnot _), fun hf => ⟨fun hc => absurd hc (hnot _), fun _ => hf⟩⟩
    rw [hread]
    refine and_congr_right fun _ => forall_congr' fun _ => ?_
    by_cases hz : (s₀.page c).state = .zombie
    · rw [if_pos hz, h.again_iff hasked hz hpos]
      exact ⟨fun hno hs => absurd hs hno, fun hr hs => (hr hs).1 hz⟩
    · have hgs : (s₀.page c).pgrp ∉ gs := fun hgs => h.not_cut T hk hout.1 hgs ⟨hout, rfl, hz⟩
      rw [if_neg hz, h.stops_iff hout.1 hgs]
      exact ⟨fun hs ha => ⟨hz, hs ha⟩, fun hr ha => (hr ha).2⟩
  · have hle : (s₀.page c).pgrp ≤ 0 := Int.not_lt.1 hpos
    have hgs : (s₀.page c).pgrp ∉ gs := fun hgs => hpos ((h.other _ hout.1).1 hgs).1
    have hgap : (NoGap s₀ slots fun x => (s₀.page x).pgrp = (s₀.page c).pgrp ∧ stop x) ↔
        NoGap s₀ slots fun x => (s₀.page x).pgrp = (s₀.page c).pgrp ∧ Stops s₀ current x := by
      refine NoGap.congr rfl fun nr hnr x hx => and_congr_right fun hg => ?_
      have hfresh := h.fresh x (live_iff.2 ⟨nr, hnr, hx⟩)
      rw [hg] at hfresh
      exact hfresh hout.1 hgs
    rw [hgap, h.stops_iff hout.1 hgs]
    by_cases hstop : Has s₀ (s₀.page c).pgrp (Stops s₀ current)
    · rw [if_pos ⟨hle, hstop⟩]
      exact ⟨fun hn => ⟨⟨fun _ => hn, fun hno => absurd ⟨hle, hstop⟩ hno⟩, fun hp => absurd hp hpos⟩,
        fun hr => hr.1.1 ⟨hle, hstop⟩⟩
    · have hno : ¬ ((s₀.page c).pgrp ≤ 0 ∧ Has s₀ (s₀.page c).pgrp (Stops s₀ current)) := fun hc => hstop hc.2
      rw [if_neg hno]
      exact ⟨fun hf => ⟨⟨fun hc => absurd hc hno, fun _ => hf.1⟩, fun hp => absurd hp hpos⟩,
        fun hr => ⟨hr.1.2 hno, fun hp => absurd hp hpos⟩⟩

/-- A group that is hung up for a zombie, or without a stopped task, is not due, or not due again. -/
theorem bad (h : Inv s₀ current l gs stop) (T : Table s₀ current kids) (hk : kids = l ++ c :: l₂)
    (hasked : ChildAsked s₀ current l c) (hpos : 0 < (s₀.page c).pgrp) (hstop : Has s₀ (s₀.page c).pgrp stop)
    (hno : ¬ ((s₀.page c).state ≠ .zombie ∧ Stopped s₀ (s₀.page c).pgrp)) :
    ¬ ((gs ++ [(s₀.page c).pgrp]).Nodup ∧
      ∀ g ∈ gs ++ [(s₀.page c).pgrp], Loses s₀ current g ∧ Stopped s₀ g) := by
  rintro ⟨hnodup, hdue⟩
  obtain ⟨hlose, hstopped⟩ := hdue (s₀.page c).pgrp (by simp)
  have hz : (s₀.page c).state = .zombie := by
    by_contra hz
    exact hno ⟨hz, hstopped⟩
  have hgs : (s₀.page c).pgrp ∉ gs := by
    intro hgs
    rw [List.nodup_append] at hnodup
    exact hnodup.2.2 _ hgs _ (List.mem_singleton.2 rfl) rfl
  -- what was a tie of the group is a child that came before
  obtain ⟨⟨x, hx⟩, hall⟩ := hlose
  have hne : x ≠ current := by
    rintro rfl
    exact hasked.1.1 hx.member.2.symm
  have hs := T.seen_of_tie hx
  have hxl : x ∈ l ++ [c] := by
    by_contra hxl
    exact hasked.2 x hne hxl hs
  have hl : x ∈ l := by
    rcases List.mem_append.1 hxl with hxl | hxl
    · exact hxl
    · rw [List.mem_singleton] at hxl
      rw [hxl] at hx
      exact absurd hz hx.alive
  have hcut : Cut s₀ current (s₀.page c).pgrp x := (T.seen_kid (by rw [hk]; simp [hl])).1 hs
  have hagain := (h.again_iff hasked hz hpos).1 hstop
  refine hgs ((h.other _ hasked.1.1).2 ⟨hpos, ⟨⟨x, hl, hcut⟩, fun y hy hsy => ?_⟩, hagain.1⟩)
  have hyl : y ∈ l ++ [c] := by
    by_contra hyl
    exact hasked.2 y hy hyl hsy
  rcases List.mem_append.1 hyl with hyl | hyl
  · exact hyl
  · rw [List.mem_singleton] at hyl
    rw [hyl] at hsy
    exact absurd hz hsy.alive

end Inv

/-- **A child is looked at.** -/
theorem hangUp_child {s : State} (pre : List (Int × Nat)) (T : Table s₀ current kids) (hk : kids = l ++ c :: l₂)
    (hd : During s₀ current (l ++ [c]) stop s.tasks) (h : Inv s₀ current l gs stop)
    (hlog : s.sent = pre ++ hangUps gs) :
    (hangUp current c (childCut current c)).Ends s
      (fun _ => ¬ (ChildAsked s₀ current l c → ChildFine s₀ current l c))
      fun _ s' =>
        (ChildAsked s₀ current l c → ChildFine s₀ current l c) ∧
          (∃ gs' stop', During s₀ current (l ++ [c]) stop' s'.tasks ∧ Inv s₀ current (l ++ [c]) gs' stop' ∧
            s'.sent = pre ++ hangUps gs') ∨
        ¬ (ChildAsked s₀ current l c → ChildFine s₀ current l c) ∧
          (∃ stop', During s₀ current (l ++ [c]) stop' s'.tasks) ∧ Bad s₀ current pre s' := by
  have hmem : c ∈ kids := by
    rw [hk]
    simp
  have hcut := childCut_iff hd.toLeft T.initPid
  by_cases hasked : ChildAsked s₀ current l c
  · have hlive : s.tasks.Live current := by
      unfold Tasks.Live
      rw [hd.task]
      exact T.live
    have hout := hasked.1.1
    have hfine := h.childFine_iff T hk hd hasked
    refine (hangUp_ends hlive (hcut.2 hasked) (hd.pgrp c)).weaken ?_ ?_
    · exact fun e hno hf => hno (hfine.1 (hf hasked)).1
    · rintro - s' ⟨hread, hsent, hsame⟩
      by_cases hsend : 0 < (s₀.page c).pgrp ∧ Stopped s.tasks (s₀.page c).pgrp
      · obtain ⟨hlogged, hup⟩ := hsent hsend
        have hhas := (hd.stopped_iff hout).1 hsend.2
        have hlog' : s'.sent = pre ++ hangUps (gs ++ [(s₀.page c).pgrp]) := by
          rw [hlogged.sent, hlog, hangUps_append, List.append_assoc]
        by_cases hright : (s₀.page c).state ≠ .zombie ∧ Stopped s₀ (s₀.page c).pgrp
        · have hstops : Has s₀ (s₀.page c).pgrp (Stops s₀ current) := by
            obtain ⟨x, hx, hs⟩ := hright.2
            exact ⟨x, hx, .inl hs⟩
          exact .inl ⟨fun _ => hfine.2 ⟨hread, fun _ _ => hright⟩, _, _, hd.hungUp hlogged.quiet hup hout,
            h.send T hk hasked hright.1 hsend.1 hstops hright.2, hlog'⟩
        · exact .inr ⟨fun hf => hright ((hfine.1 (hf hasked)).2 hsend.1 hhas), ⟨_, hd.hungUp hlogged.quiet hup hout⟩,
            _, hlog', h.bad T hk hasked hsend.1 hhas hright⟩
      · rw [hsame hsend]
        rw [hd.stopped_iff hout] at hsend
        refine .inl ⟨fun _ => hfine.2 ⟨hread, fun hp hs => absurd ⟨hp, hs⟩ hsend⟩, gs, stop, hd,
          h.next T hk fun g hg hpos hstops => ?_, hlog⟩
        refine lost_concat T hmem fun hno => hsend ?_
        have hgs : g ∉ gs := fun hgs => h.not_cut T hk hg hgs hno
        rw [hno.2.1]
        exact ⟨hpos, (h.stops_iff hg hgs).2 hstops⟩
  · have hskip : childCut current c s = false := by
      rw [← Bool.not_eq_true, hcut]
      exact hasked
    unfold Prog.Ends
    rw [hangUp_skip hskip]
    refine .inl ⟨fun ha => absurd ha hasked, gs, stop, hd, h.next T hk fun g hg _ _ => ?_, hlog⟩
    by_cases hno : Cut s₀ current g c
    · -- there is another one that `is_orphaned_pgrp` sees
      have hhidden : ¬ Lost s₀ current (l ++ [c]) g := by
        intro hl
        refine hasked ⟨hno.1, fun x hx hxl hs => hxl (hl.2 x hx ?_)⟩
        rw [hno.2.1] at hs
        exact hs
      refine iff_of_false hhidden fun hl => hhidden ⟨?_, fun x hx hs => List.mem_append_left _ (hl.2 x hx hs)⟩
      exact ⟨c, by simp, hno⟩
    · exact lost_concat T hmem hno

end

end Orphans
end Kernel
end Linux095
