import Linux095.Kernel.Orphans

/-!
# `Kernel.OrphanSignals` — what the helpers of an exit read and send (`kernel/exit.c`)

* `deliver_state` — what a signal does to the states of tasks;
* `NoGap` — how far down the slots are read;
* `killPg_ends`, `hasStoppedJobs_ends`, `hangUp_ends` — **what the helpers do, and where they stop**.
-/

namespace Linux095
namespace Kernel
namespace Orphans
open Seq Prog Links
open Sched.ProcessTree (Tasks Task TaskState NR_TASKS SIGHUP SIGKILL SIGCHLD SIGCONT slots deliver isOrphanedPgrp Quiet
  deliver_quiet page_set)

/-! ## One signal -/

theorem setState_state (s : Tasks) (p x : Nat) (v : TaskState) :
    ((s.setState p v).page x).state = if x = p then v else (s.page x).state := by
  simp only [Tasks.setState, page_set, apply_ite Task.state]

theorem setState_ptraced (s : Tasks) (p x : Nat) (v : TaskState) :
    ((s.setState p v).page x).ptraced = (s.page x).ptraced := by
  simp only [Tasks.setState, page_set, apply_ite Task.ptraced, ite_self]

/-- A task comes to another state if `b` holds. -/
theorem wake_state (s : Tasks) (p x : Nat) (v : TaskState) (b : Prop) [Decidable b] :
    ((if b then s.setState p v else s).page x).state = if x = p ∧ b then v else (s.page x).state := by
  by_cases hb : b
  · simp only [hb, if_true, and_true, setState_state]
  · simp only [hb, if_false, and_false]

theorem wake_ptraced (s : Tasks) (p x : Nat) (v : TaskState) (b : Prop) [Decidable b] :
    ((if b then s.setState p v else s).page x).ptraced = (s.page x).ptraced := by
  by_cases hb : b
  · rw [if_pos hb, setState_ptraced]
  · rw [if_neg hb]

/-- What `send_sig` does to a task: SIGCONT resumes the one it is for, which stops if it is traced. -/
def after (sig p : Nat) (s : Tasks) (x : Nat) : Prop :=
  if x = p then
    if (s.page x).ptraced then CanStop (s.page x).state
    else (s.page x).state = .stopped ∧ sig ≠ SIGKILL ∧ sig ≠ SIGCONT
  else (s.page x).state = .stopped

theorem deliver_state (sig p : Nat) (s : Tasks) (x : Nat) :
    (((deliver sig p s).page x).state = .stopped ↔ after sig p s x) ∧
      (CanStop ((deliver sig p s).page x).state ↔ CanStop (s.page x).state) := by
  unfold deliver after CanStop
  dsimp only
  rw [wake_ptraced]
  by_cases htraced : (s.page p).ptraced = true
  · rw [if_pos htraced]
    simp only [wake_state]
    by_cases hx : x = p
    · subst hx
      simp only [htraced, if_true]
      grind
    · simp only [hx, if_false, false_and]
      grind
  · rw [if_neg htraced]
    simp only [wake_state]
    by_cases hx : x = p
    · subst hx
      simp only [htraced]
      grind
    · simp only [hx, if_false, false_and]
      grind

/-- Nothing differs but the states of tasks. -/
structure Same (s s' : State) : Prop where
  quiet : Quiet s.tasks s'.tasks
  rest : s' = { s with tasks := s'.tasks }

theorem Same.refl (s : State) : Same s s := ⟨.refl _, rfl⟩

theorem Same.trans {s s' s'' : State} (h : Same s s') (h' : Same s' s'') : Same s s'' := by
  refine ⟨h.quiet.trans h'.quiet, ?_⟩
  rw [h'.rest, h.rest]

/-- The tasks that `P` holds of have got the signal. -/
structure Signalled (sig : Nat) (P : Nat → Prop) (s s' : Tasks) : Prop where
  traced : ∀ x, P x → (s.page x).ptraced = true → ((s'.page x).state = .stopped ↔ CanStop (s.page x).state)
  free : ∀ x, P x → (s.page x).ptraced = false →
    ((s'.page x).state = .stopped ↔ (s.page x).state = .stopped ∧ sig ≠ SIGKILL ∧ sig ≠ SIGCONT)
  miss : ∀ x, ¬ P x → ((s'.page x).state = .stopped ↔ (s.page x).state = .stopped)
  can : ∀ x, CanStop (s'.page x).state ↔ CanStop (s.page x).state

theorem Signalled.nobody (sig : Nat) {P : Nat → Prop} (s : Tasks) (hP : ∀ x, ¬ P x) : Signalled sig P s s :=
  ⟨fun x h => absurd h (hP x), fun x h => absurd h (hP x), fun _ _ => .rfl, fun _ => .rfl⟩

theorem deliver_signalled (sig p : Nat) (s : Tasks) : Signalled sig (fun x => x = p) s (deliver sig p s) := by
  refine ⟨fun x hx ht => ?_, fun x hx ht => ?_, fun x hx => ?_, fun x => (deliver_state sig p s x).2⟩
  · rw [(deliver_state sig p s x).1, after, if_pos hx, if_pos ht]
  · rw [(deliver_state sig p s x).1, after, if_pos hx, if_neg (by rw [ht]; decide)]
  · rw [(deliver_state sig p s x).1, after, if_neg hx]

/-- One after the other. -/
theorem Signalled.trans {sig : Nat} {P P' : Nat → Prop} {s s' s'' : Tasks} (hq : Quiet s s')
    (h : Signalled sig P s s') (h' : Signalled sig P' s' s'') : Signalled sig (fun x => P x ∨ P' x) s s'' := by
  have hcan := fun x => (h'.can x).trans (h.can x)
  refine ⟨fun x hx ht => ?_, fun x hx ht => ?_, fun x hx => ?_, hcan⟩
  · have ht' : (s'.page x).ptraced = true := (hq.ptraced x).trans ht
    by_cases hP' : P' x
    · exact (h'.traced x hP' ht').trans (h.can x)
    · exact (h'.miss x hP').trans (h.traced x (hx.resolve_right hP') ht)
  · have ht' : (s'.page x).ptraced = false := (hq.ptraced x).trans ht
    by_cases hP : P x
    · by_cases hP' : P' x
      · rw [h'.free x hP' ht', h.free x hP ht, and_assoc, and_self]
      · exact (h'.miss x hP').trans (h.free x hP ht)
    · rw [h'.free x (hx.resolve_left hP) ht', h.miss x hP]
  · rw [not_or] at hx
    exact (h'.miss x hx.2).trans (h.miss x hx.1)

/-! ## Going through the slots -/

namespace NoGap

variable {s s' : Tasks} {l : List Nat} {nr x : Nat} {found found' : Nat → Prop}

theorem nil : NoGap s [] found := fun _ h => absurd h List.not_mem_nil

theorem head_none (hl : ∀ j ∈ l, j < nr) (h : s.task nr = none) : ¬ NoGap s (nr :: l) found := by
  intro hno
  obtain ⟨j, hj, hlt, x, hx, -⟩ := hno nr List.mem_cons_self h
  rcases List.mem_cons.1 hj with rfl | hj
  · exact Nat.lt_irrefl _ hlt
  · exact Nat.lt_asymm hlt (hl j hj)

theorem head_found (hl : ∀ j ∈ l, j < nr) (h : s.task nr = some x) (hx : found x) : NoGap s (nr :: l) found := by
  intro i hi hnone
  rcases List.mem_cons.1 hi with rfl | hi
  · rw [h] at hnone
    cases hnone
  · exact ⟨nr, List.mem_cons_self, hl i hi, x, h, hx⟩

theorem cons_iff (h : s.task nr = some x) (hx : ¬ found x) : NoGap s (nr :: l) found ↔ NoGap s l found := by
  constructor
  · intro hno i hi hnone
    obtain ⟨j, hj, hlt, y, hy, hfound⟩ := hno i (List.mem_cons_of_mem _ hi) hnone
    rcases List.mem_cons.1 hj with rfl | hj
    · rw [h] at hy
      cases hy
      exact absurd hfound hx
    · exact ⟨j, hj, hlt, y, hy, hfound⟩
  · intro hno i hi hnone
    rcases List.mem_cons.1 hi with rfl | hi
    · rw [h] at hnone
      cases hnone
    · obtain ⟨j, hj, hrest⟩ := hno i hi hnone
      exact ⟨j, List.mem_cons_of_mem _ hj, hrest⟩

theorem congr (htask : s'.task = s.task) (hfound : ∀ nr ∈ l, ∀ x, s.task nr = some x → (found' x ↔ found x)) :
    NoGap s' l found' ↔ NoGap s l found := by
  unfold NoGap
  rw [htask]
  refine forall_congr' fun nr => forall_congr' fun _ => forall_congr' fun _ => exists_congr fun j =>
    and_congr_right fun hj => and_congr_right fun _ => exists_congr fun x => and_congr_right fun hx => hfound j hj x hx

/-- Where nothing is found there is no empty slot. -/
theorem full (h : NoGap s slots found) (hno : ∀ nr ∈ slots, ∀ x, s.task nr = some x → ¬ found x) : Full s := by
  intro nr hnr hnone
  obtain ⟨j, hj, -, x, hx, hfound⟩ := h nr hnr hnone
  exact hno j hj x hx hfound

theorem of_full (h : Full s) : NoGap s slots found := fun nr hnr hnone => absurd hnone (h nr hnr)

end NoGap

theorem slots_down : slots.Pairwise (· > ·) := by decide

theorem mem_slots {nr : Nat} : nr ∈ slots ↔ 0 < nr ∧ nr < NR_TASKS := by
  rw [slots, List.mem_reverse, List.mem_range'_1, NR_TASKS]
  omega

theorem live_iff {s : Tasks} {x : Nat} : s.Live x ↔ ∃ nr ∈ slots, s.task nr = some x := by
  unfold Tasks.Live
  simp only [mem_slots, and_assoc]

section

variable {current p : Nat} {g : Int} {sig : Nat} {s : State}

theorem deref_some {nr : Nat} (h : s.tasks.task nr = some p) : deref nr s = .ok (p, s) := by
  rw [deref, h]

theorem deref_none {nr : Nat} (h : s.tasks.task nr = none) : deref nr s = .error .emptySlot := by
  rw [deref, h]

theorem deref_ends {nr : Nat} {β : Type} {f : Nat → Call β} {E : Off → Prop} {R : β → State → Prop}
    (hnone : s.tasks.task nr = none → E .emptySlot)
    (hsome : ∀ p, s.tasks.task nr = some p → (f p).Ends s E R) : (deref nr >>= f).Ends s E R := by
  cases hp : s.tasks.task nr with
  | none =>
      unfold Prog.Ends
      rw [bind_error (deref_none hp)]
      exact hnone hp
  | some p =>
      unfold Prog.Ends
      rw [bind_ok (deref_some hp)]
      exact hsome p hp

/-- **`send_sig`.** -/
theorem sendSig_ends (current sig p : Nat) (s : State) :
    (sendSig current sig p).Ends s
      (fun e => p = current ∧ (s.tasks.page current).ptraced = true ∧ ∃ s', e = .gone s')
      fun _ s' => Same s s' ∧ Signalled sig (fun x => x = p) s.tasks s'.tasks ∧
        ¬ (p = current ∧ (s.tasks.page current).ptraced = true) := by
  have hq := deliver_quiet sig p s.tasks
  have hs := deliver_signalled sig p s.tasks
  refine .bind (.modify (.bind (.reads ?_)))
  dsimp only
  rw [hq.ptraced]
  by_cases hstop : ((s.tasks.page p).ptraced && p == current) = true
  · rw [if_pos hstop]
    rw [Bool.and_eq_true, beq_iff_eq] at hstop
    exact ⟨hstop.2, hstop.2 ▸ hstop.1, _, rfl⟩
  · rw [if_neg hstop]
    refine .pure ⟨⟨hq, rfl⟩, hs, ?_⟩
    rintro ⟨rfl, ht⟩
    exact hstop (by rw [ht, beq_self_eq_true]; rfl)

/-- The task `x` is in a slot of `l` and in the group. -/
def Hit (s : Tasks) (g : Int) (l : List Nat) (x : Nat) : Prop := ∃ nr ∈ l, s.task nr = some x ∧ (s.page x).pgrp = g

/-- The signal reaches `current`, which is traced. -/
def Falls (s : Tasks) (current : Nat) (g : Int) (x : Nat) : Prop :=
  x = current ∧ (s.page x).pgrp = g ∧ (s.page x).ptraced = true

/-- **The loop of `kill_pg`.** -/
theorem killSlots_ends {l : List Nat} (hl : l.Pairwise (· > ·)) :
    (killSlots current g sig l).Ends s
      (fun e => e = .emptySlot ∧ ¬ NoGap s.tasks l (Falls s.tasks current g) ∨
        (∃ s', e = .gone s') ∧ NoGap s.tasks l (Falls s.tasks current g) ∧ Falls s.tasks current g current)
      fun _ s' => Same s s' ∧ Signalled sig (Hit s.tasks g l) s.tasks s'.tasks ∧
        (∀ nr ∈ l, ∃ x, s.tasks.task nr = some x ∧ ¬ Falls s.tasks current g x) := by
  induction l generalizing s with
  | nil =>
      refine .pure ⟨.refl s, .nobody sig s.tasks ?_, fun nr h => absurd h List.not_mem_nil⟩
      rintro x ⟨nr, hnr, -⟩
      exact absurd hnr List.not_mem_nil
  | cons nr l ih =>
      obtain ⟨hhead, hl⟩ := List.pairwise_cons.1 hl
      refine deref_ends (fun hnone => .inl ⟨rfl, NoGap.head_none hhead hnone⟩) fun p hp => .bind (.reads ?_)
      by_cases hmember : (s.tasks.page p).pgrp = g
      · rw [if_pos (beq_iff_eq.2 hmember)]
        refine .bind ((sendSig_ends current sig p s).weaken ?_ ?_)
        · rintro e ⟨rfl, ht, hgone⟩
          have hfalls : Falls s.tasks p g p := ⟨rfl, hmember, ht⟩
          exact .inr ⟨hgone, NoGap.head_found hhead hp hfalls, hfalls⟩
        · rintro - s₁ ⟨hsame, hsignalled, hstay⟩
          have hno : ¬ Falls s.tasks current g p := by
            rintro ⟨rfl, -, ht⟩
            exact hstay ⟨rfl, ht⟩
          have hfalls : ∀ x, Falls s₁.tasks current g x ↔ Falls s.tasks current g x := fun x => by
            unfold Falls
            rw [hsame.quiet.pgrp, hsame.quiet.ptraced]
          have hgap : NoGap s₁.tasks l (Falls s₁.tasks current g) ↔ NoGap s.tasks (nr :: l) (Falls s.tasks current g) :=
            (NoGap.congr hsame.quiet.task fun _ _ x _ => hfalls x).trans (NoGap.cons_iff hp hno).symm
          refine (ih hl).weaken ?_ ?_
          · rw [hgap, hfalls]
            exact fun e he => he
          · rintro - s₂ ⟨hsame₂, hsignalled₂, hfull⟩
            refine ⟨hsame.trans hsame₂, ?_, ?_⟩
            · have hboth := hsignalled.trans hsame.quiet hsignalled₂
              have hhit : (fun x => x = p ∨ Hit s₁.tasks g l x) = Hit s.tasks g (nr :: l) := by
                funext x
                unfold Hit
                rw [hsame.quiet.task, hsame.quiet.pgrp]
                simp only [List.mem_cons, or_and_right, exists_or, exists_eq_left]
                rw [hp, Option.some_inj, eq_comm (a := p)]
                refine propext (or_congr_left ?_)
                exact ⟨fun hx => ⟨hx, hx ▸ hmember⟩, fun hx => hx.1⟩
              rw [hhit] at hboth
              exact hboth
            · intro i hi
              rcases List.mem_cons.1 hi with rfl | hi
              · exact ⟨p, hp, hno⟩
              · obtain ⟨x, hx, hxno⟩ := hfull i hi
                rw [hsame.quiet.task] at hx
                exact ⟨x, hx, fun h => hxno ((hfalls x).2 h)⟩
      · rw [if_neg (fun h => hmember (beq_iff_eq.1 h))]
        have hno : ¬ Falls s.tasks current g p := fun h => hmember h.2.1
        refine (ih hl).weaken ?_ ?_
        · rw [NoGap.cons_iff hp hno]
          exact fun e he => he
        · rintro - s₁ ⟨hsame, hsignalled, hfull⟩
          refine ⟨hsame, ?_, ?_⟩
          · have hhit : Hit s.tasks g l = Hit s.tasks g (nr :: l) := by
              funext x
              unfold Hit
              simp only [List.mem_cons, or_and_right, exists_or, exists_eq_left]
              rw [hp, Option.some_inj]
              refine propext (or_iff_right ?_).symm
              rintro ⟨rfl, hx⟩
              exact hmember hx
            rw [← hhit]
            exact hsignalled
          · intro i hi
            rcases List.mem_cons.1 hi with rfl | hi
            · exact ⟨p, hp, hno⟩
            · exact hfull i hi

theorem hit_slots (s : Tasks) (g : Int) : Hit s g slots = Member s g := by
  funext x
  unfold Hit Member
  rw [live_iff]
  refine propext ⟨?_, ?_⟩
  · rintro ⟨nr, hnr, hx, hg⟩
    exact ⟨⟨nr, hnr, hx⟩, hg⟩
  · rintro ⟨⟨nr, hnr, hx⟩, hg⟩
    exact ⟨nr, hnr, hx, hg⟩

/-- Signals are sent to process groups, and the states of tasks differ. -/
structure Logged (log : List (Int × Nat)) (s s' : State) : Prop where
  quiet : Quiet s.tasks s'.tasks
  rest : s' = { s with tasks := s'.tasks, sent := s.sent ++ log }

theorem Logged.refl (s : State) : Logged [] s s := ⟨.refl _, by rw [List.append_nil]⟩

theorem Logged.sent {log : List (Int × Nat)} {s s' : State} (h : Logged log s s') : s'.sent = s.sent ++ log := by
  rw [h.rest]

theorem Logged.trans {log log' : List (Int × Nat)} {s s' s'' : State} (h : Logged log s s') (h' : Logged log' s' s'') :
    Logged (log ++ log') s s'' := by
  refine ⟨h.quiet.trans h'.quiet, ?_⟩
  rw [h'.rest, h.rest, List.append_assoc]

theorem killPg_nonpos (hg : g ≤ 0) : killPg current g sig s = .ok ((), s) := by
  rw [killPg, if_pos hg]
  rfl

theorem killPg_same {E : Off → Prop} (hg : g ≤ 0) : (killPg current g sig).Ends s E fun _ s' => s' = s := by
  unfold Prog.Ends
  rw [killPg_nonpos hg]

/-- **`kill_pg`**, for a group. -/
theorem killPg_ends (sig : Nat) (hg : 0 < g) :
    (killPg current g sig).Ends s
      (fun e => e = .emptySlot ∧ ¬ NoGap s.tasks slots (Falls s.tasks current g) ∨
        (∃ s', e = .gone s') ∧ NoGap s.tasks slots (Falls s.tasks current g) ∧ Falls s.tasks current g current)
      fun _ s' => Logged [(g, sig)] s s' ∧ Signalled sig (Member s.tasks g) s.tasks s'.tasks ∧ Full s.tasks ∧
        (s.tasks.Live current → ¬ Falls s.tasks current g current) := by
  unfold killPg
  rw [if_neg (Int.not_le.2 hg)]
  refine .bind (.modify ((killSlots_ends slots_down).weaken (fun e he => he) ?_))
  rintro - s' ⟨hsame, hsignalled, hslots⟩
  rw [hit_slots] at hsignalled
  refine ⟨⟨hsame.quiet, hsame.rest⟩, hsignalled, fun nr hnr hnone => ?_, fun hlive hfalls => ?_⟩
  · obtain ⟨x, hx, -⟩ := hslots nr hnr
    have hx : s.tasks.task nr = some x := hx
    rw [hnone] at hx
    cases hx
  · obtain ⟨nr, hnr, hcurrent⟩ := live_iff.1 hlive
    obtain ⟨x, hx, hno⟩ := hslots nr hnr
    have hx : s.tasks.task nr = some x := hx
    rw [hcurrent] at hx
    cases hx
    exact hno hfalls

/-- **The loop of `has_stopped_jobs`.** -/
theorem stoppedSlots_ends {l : List Nat} (hl : l.Pairwise (· > ·)) :
    (stoppedSlots g l).Ends s
      (fun _ => ¬ NoGap s.tasks l fun x => (s.tasks.page x).pgrp = g ∧ (s.tasks.page x).state = .stopped)
      fun b s' => s' = s ∧
        (NoGap s.tasks l fun x => (s.tasks.page x).pgrp = g ∧ (s.tasks.page x).state = .stopped) ∧
        (b = true ↔ ∃ x, Hit s.tasks g l x ∧ (s.tasks.page x).state = .stopped) := by
  induction l with
  | nil =>
      refine .pure ⟨rfl, .nil, ?_⟩
      simp [Hit]
  | cons nr l ih =>
      obtain ⟨hhead, hl⟩ := List.pairwise_cons.1 hl
      refine deref_ends (fun hnone => NoGap.head_none hhead hnone) fun p hp => .bind (.reads ?_)
      by_cases hfound : (s.tasks.page p).pgrp = g ∧ (s.tasks.page p).state = .stopped
      · have htest : ((s.tasks.page p).pgrp == g && (s.tasks.page p).state == .stopped) = true := by
          rw [Bool.and_eq_true, beq_iff_eq, beq_iff_eq]
          exact hfound
        rw [if_pos htest]
        exact .pure ⟨rfl, NoGap.head_found hhead hp hfound,
          iff_of_true rfl ⟨p, ⟨nr, List.mem_cons_self, hp, hfound.1⟩, hfound.2⟩⟩
      · have htest : ¬ ((s.tasks.page p).pgrp == g && (s.tasks.page p).state == .stopped) = true := by
          rw [Bool.and_eq_true, beq_iff_eq, beq_iff_eq]
          exact hfound
        rw [if_neg htest]
        refine (ih hl).weaken (fun e he => (NoGap.cons_iff hp hfound).not.2 he) ?_
        rintro b s' ⟨rfl, hgap, hb⟩
        refine ⟨rfl, (NoGap.cons_iff hp hfound).2 hgap, hb.trans ⟨?_, ?_⟩⟩
        · rintro ⟨x, ⟨i, hi, hx⟩, hstop⟩
          exact ⟨x, ⟨i, List.mem_cons_of_mem _ hi, hx⟩, hstop⟩
        · rintro ⟨x, ⟨i, hi, hx, hg⟩, hstop⟩
          rcases List.mem_cons.1 hi with rfl | hi
          · rw [hp] at hx
            cases hx
            exact absurd ⟨hg, hstop⟩ hfound
          · exact ⟨x, ⟨i, hi, hx, hg⟩, hstop⟩

/-- **`has_stopped_jobs`.** -/
theorem hasStoppedJobs_ends (g : Int) (s : State) :
    (hasStoppedJobs g).Ends s
      (fun _ => ¬ NoGap s.tasks slots fun x => (s.tasks.page x).pgrp = g ∧ (s.tasks.page x).state = .stopped)
      fun b s' => s' = s ∧
        (NoGap s.tasks slots fun x => (s.tasks.page x).pgrp = g ∧ (s.tasks.page x).state = .stopped) ∧
        (b = true ↔ Stopped s.tasks g) := by
  have h := stoppedSlots_ends (g := g) (s := s) slots_down
  rw [hit_slots] at h
  exact h

/-! ## Hanging a group up -/

/-- SIGHUP and SIGCONT have come to the group: only a traced task is stopped. -/
structure HungUp (g : Int) (s s' : Tasks) : Prop where
  traced : ∀ x, Member s g x → (s.page x).ptraced = true → ((s'.page x).state = .stopped ↔ CanStop (s.page x).state)
  free : ∀ x, Member s g x → (s.page x).ptraced = false → (s'.page x).state ≠ .stopped
  miss : ∀ x, ¬ Member s g x → ((s'.page x).state = .stopped ↔ (s.page x).state = .stopped)
  can : ∀ x, CanStop (s'.page x).state ↔ CanStop (s.page x).state

theorem member_quiet {s s' : Tasks} (h : Quiet s s') (g : Int) (x : Nat) : Member s' g x ↔ Member s g x := by
  unfold Member Tasks.Live
  rw [h.task, h.pgrp]

theorem HungUp.of_signals {g : Int} {s s' s'' : Tasks} (hq : Quiet s s') (h : Signalled SIGHUP (Member s g) s s')
    (h' : Signalled SIGCONT (Member s' g) s' s'') : HungUp g s s'' := by
  refine ⟨fun x hx ht => ?_, fun x hx ht hstop => ?_, fun x hx => ?_, fun x => (h'.can x).trans (h.can x)⟩
  · exact (h'.traced x ((member_quiet hq g x).2 hx) ((hq.ptraced x).trans ht)).trans (h.can x)
  · exact ((h'.free x ((member_quiet hq g x).2 hx) ((hq.ptraced x).trans ht)).1 hstop).2.2 rfl
  · exact (h'.miss x fun hm => hx ((member_quiet hq g x).1 hm)).trans (h.miss x hx)

/-- The slots that are read for the group `g`, which is cut off, are not empty, and `current` stays. -/
def Readable (s : Tasks) (current : Nat) (g : Int) : Prop :=
  (g ≤ 0 ∧ Stopped s g → NoGap s slots fun x => (s.page x).pgrp = g ∧ (s.page x).state = .stopped) ∧
    (¬ (g ≤ 0 ∧ Stopped s g) → Full s) ∧ (0 < g → Stopped s g → ¬ Falls s current g current)

/-- **A group that is cut off** is hung up if it has stopped jobs. -/
theorem hangUp_ends {cut : State → Bool} (hlive : s.tasks.Live current) (hcut : cut s = true)
    (hg : (s.tasks.page p).pgrp = g) :
    (hangUp current p cut).Ends s (fun _ => ¬ Readable s.tasks current g)
      fun _ s' => Readable s.tasks current g ∧
        (0 < g ∧ Stopped s.tasks g → Logged (hangUps [g]) s s' ∧ HungUp g s.tasks s'.tasks) ∧
        (¬ (0 < g ∧ Stopped s.tasks g) → s' = s) := by
  refine .bind (.reads ?_)
  rw [if_pos hcut]
  refine .bind (.reads (.bind ?_))
  rw [hg]
  refine (hasStoppedJobs_ends g s).weaken ?_ ?_
  · rintro e hgap ⟨hread, hfull, -⟩
    by_cases hcase : g ≤ 0 ∧ Stopped s.tasks g
    · exact hgap (hread hcase)
    · exact hgap (NoGap.of_full (hfull hcase))
  · rintro b s' ⟨rfl, hgap, hb⟩
    by_cases hstopped : Stopped s'.tasks g
    · rw [if_pos (hb.2 hstopped)]
      by_cases hpos : 0 < g
      · have hnot : ¬ (g ≤ 0 ∧ Stopped s'.tasks g) := fun h => absurd hpos (Int.not_lt.2 h.1)
        refine .bind ((killPg_ends SIGHUP hpos).weaken ?_ ?_)
        · rintro e (⟨-, hno⟩ | ⟨-, -, hfalls⟩) ⟨-, hfull, hstay⟩
          · exact hno (NoGap.of_full (hfull hnot))
          · exact hstay hpos hstopped hfalls
        · rintro - s₁ ⟨hlog₁, hsig₁, hfull, hstay⟩
          have hfalls : Falls s₁.tasks current g current ↔ Falls s'.tasks current g current := by
            unfold Falls
            rw [hlog₁.quiet.pgrp, hlog₁.quiet.ptraced]
          refine (killPg_ends SIGCONT hpos).weaken ?_ ?_
          · rintro e (⟨-, hno⟩ | ⟨-, -, hf⟩)
            · refine absurd (NoGap.of_full fun nr hnr => ?_) hno
              rw [hlog₁.quiet.task]
              exact hfull nr hnr
            · exact absurd (hfalls.1 hf) (hstay hlive)
          · rintro - s₂ ⟨hlog₂, hsig₂, -⟩
            refine ⟨⟨fun h => absurd h hnot, fun _ => hfull, fun _ _ => hstay hlive⟩, fun _ => ⟨?_, ?_⟩,
              fun h => absurd ⟨hpos, hstopped⟩ h⟩
            · exact hlog₁.trans hlog₂
            · exact HungUp.of_signals hlog₁.quiet hsig₁ hsig₂
      · have hle : g ≤ 0 := Int.not_lt.1 hpos
        refine .of (fun a s₁ h => ?_) fun e h => ?_
        · rw [bind_ok (killPg_nonpos hle), killPg_nonpos hle] at h
          cases h
          exact ⟨⟨fun _ => hgap, fun h => absurd ⟨hle, hstopped⟩ h, fun h => absurd h hpos⟩,
            fun h => absurd h.1 hpos, fun _ => rfl⟩
        · rw [bind_ok (killPg_nonpos hle), killPg_nonpos hle] at h
          cases h
    · rw [if_neg (fun h => hstopped (hb.1 h))]
      have hfull : Full s'.tasks := hgap.full fun nr hnr x hx hfound =>
        hstopped ⟨x, ⟨live_iff.2 ⟨nr, hnr, hx⟩, hfound.1⟩, hfound.2⟩
      exact .pure ⟨⟨fun h => absurd h.2 hstopped, fun _ => hfull, fun _ h => absurd h hstopped⟩,
        fun h => absurd h.2 hstopped, fun _ => rfl⟩

theorem hangUp_skip {cut : State → Bool} (hcut : cut s = false) : hangUp current p cut s = .ok ((), s) := by
  unfold hangUp
  rw [reads_bind, hcut]
  rfl

end
end Orphans
end Kernel
end Linux095
