import Linux095.Sched.ProcessTree
import Mathlib.Data.List.Nodup
import Mathlib.Data.List.Perm.Subperm

/-!
# `Sched.TreeInv` — the process tree is one

`Family` says of the tasks that are linked that their links are those of a tree of doubly linked lists. Signals
leave it alone; `fork` puts a child in front, `release` takes one out, and `do_exit` moves a list of children.

* `Quiet` — what signals change; `doExit_ends` — what `do_exit` does to a family;
* `Kin` — the invariant of runs, with who is half-way through `fork` and `waitpid`;
* `process_tree` — **the links are a tree in every run where no task that is traced orphans its own process group**;
* `exit_traced` — what happens when one does.
-/

namespace Linux095
namespace Sched
namespace ProcessTree
open Seq Seq.Prog Links Relation

/-! ## Signals leave the links alone -/

/-- Nothing but the states of tasks differs, and zombies are the same. -/
structure Quiet (s s' : Tasks) : Prop where
  task : s'.task = s.task
  page : ∀ x, ∃ v, s'.page x = { s.page x with state := v } ∧ (v = .zombie ↔ (s.page x).state = .zombie)

namespace Quiet

variable {s s' s'' : Tasks}

theorem refl (s : Tasks) : Quiet s s := ⟨rfl, fun x => ⟨(s.page x).state, rfl, .rfl⟩⟩

theorem trans (h : Quiet s s') (h' : Quiet s' s'') : Quiet s s'' := by
  refine ⟨h'.task.trans h.task, fun x => ?_⟩
  obtain ⟨v, hv, hz⟩ := h.page x
  obtain ⟨v', hv', hz'⟩ := h'.page x
  rw [hv] at hv' hz'
  exact ⟨v', hv', hz'.trans hz⟩

/-- A task that is no zombie comes to another state. -/
theorem setState (s : Tasks) (p : Nat) {v : TaskState} (hv : v ≠ .zombie) (hp : (s.page p).state ≠ .zombie) :
    Quiet s (s.setState p v) := by
  refine ⟨rfl, fun x => ?_⟩
  by_cases hx : x = p
  · refine ⟨v, ?_, ⟨fun h => absurd h hv, fun h => absurd (hx ▸ h) hp⟩⟩
    simp [Tasks.setState, Tasks.set, hx]
  · refine ⟨(s.page x).state, ?_, .rfl⟩
    simp [Tasks.setState, Tasks.set, hx]

theorem pgrp (h : Quiet s s') (x : Nat) : (s'.page x).pgrp = (s.page x).pgrp := by
  obtain ⟨v, hv, -⟩ := h.page x
  rw [hv]

theorem ptraced (h : Quiet s s') (x : Nat) : (s'.page x).ptraced = (s.page x).ptraced := by
  obtain ⟨v, hv, -⟩ := h.page x
  rw [hv]

theorem pptr (h : Quiet s s') (x : Nat) : (s'.page x).pptr = (s.page x).pptr := by
  obtain ⟨v, hv, -⟩ := h.page x
  rw [hv]

theorem cptr (h : Quiet s s') (x : Nat) : (s'.page x).cptr = (s.page x).cptr := by
  obtain ⟨v, hv, -⟩ := h.page x
  rw [hv]

theorem osptr (h : Quiet s s') (x : Nat) : (s'.page x).osptr = (s.page x).osptr := by
  obtain ⟨v, hv, -⟩ := h.page x
  rw [hv]

theorem ysptr (h : Quiet s s') (x : Nat) : (s'.page x).ysptr = (s.page x).ysptr := by
  obtain ⟨v, hv, -⟩ := h.page x
  rw [hv]

theorem zombie (h : Quiet s s') (x : Nat) : (s'.page x).state = .zombie ↔ (s.page x).state = .zombie := by
  obtain ⟨v, hv, hz⟩ := h.page x
  rw [hv]
  exact hz

end Quiet

theorem deliver_quiet (sig p : Nat) (s : Tasks) : Quiet s (deliver sig p s) := by
  unfold deliver
  -- SIGCONT and SIGKILL
  have hcont : Quiet s (if (sig = SIGKILL ∨ sig = SIGCONT) ∧ (s.page p).state = .stopped then s.setState p .running
      else s) := by
    split
    · rename_i h
      apply Quiet.setState s p (by decide)
      rw [h.2]
      decide
    · exact .refl s
  refine hcont.trans ?_
  generalize (if (sig = SIGKILL ∨ sig = SIGCONT) ∧ (s.page p).state = .stopped then s.setState p .running
      else s) = s₁
  simp only
  split
  · -- the parent of a task that is traced
    have hparent : Quiet s₁ (if (s₁.page (s₁.page p).pptr).state = .interruptible then
        s₁.setState (s₁.page p).pptr .running else s₁) := by
      split
      · rename_i h
        apply Quiet.setState _ _ (by decide)
        rw [h]
        decide
      · exact .refl s₁
    refine hparent.trans ?_
    generalize (if (s₁.page (s₁.page p).pptr).state = .interruptible then
        s₁.setState (s₁.page p).pptr .running else s₁) = s₂
    split
    · rename_i h
      apply Quiet.setState s₂ p (by decide)
      rcases h with h | h <;>
        · rw [h]
          decide
    · exact .refl s₂
  · exact .refl s₁

/-- `current` is traced and in the group it sends a signal to. It is gone. -/
def Hung (current : Nat) (pgrp : Int) (s : Tasks) (e : Off) : Prop :=
  (s.page current).ptraced = true ∧ (s.page current).pgrp = pgrp ∧ ∃ s', e = .gone s' ∧ Quiet s s'

theorem Hung.of_quiet {current : Nat} {pgrp : Int} {s s' : Tasks} {e : Off} (hq : Quiet s s')
    (h : Hung current pgrp s' e) : Hung current pgrp s e := by
  obtain ⟨htraced, hpgrp, s'', rfl, hq'⟩ := h
  exact ⟨(hq.ptraced current) ▸ htraced, (hq.pgrp current) ▸ hpgrp, s'', rfl, hq.trans hq'⟩

theorem sendSig_ends (current sig p : Nat) (s : Tasks) :
    (sendSig current sig p).Ends s (fun e => p = current ∧ Hung current (s.page p).pgrp s e)
      fun _ s' => Quiet s s' := by
  have hq := deliver_quiet sig p s
  refine .bind (.modify (.bind (.reads ?_)))
  split
  · rename_i h
    rw [Bool.and_eq_true, beq_iff_eq, hq.ptraced] at h
    refine .of (fun a s' hm => by cases hm) fun e hm => ?_
    cases hm
    exact ⟨h.2, h.2 ▸ h.1, by rw [h.2], _, rfl, hq⟩
  · exact .pure hq

theorem killSlots_ends (current : Nat) (pgrp : Int) (sig : Nat) (l : List Nat) (s : Tasks) :
    (killSlots current pgrp sig l).Ends s (Hung current pgrp s) fun _ s' => Quiet s s' := by
  induction l generalizing s with
  | nil => exact .pure (.refl s)
  | cons nr l ih =>
      refine .bind (.reads ?_)
      cases hp : (s.task nr).filter fun p => (s.page p).pgrp == pgrp with
      | none => exact ih s
      | some p =>
          have hpgrp : (s.page p).pgrp = pgrp := by
            have := (Option.filter_eq_some_iff.mp hp).2
            exact beq_iff_eq.mp this
          have hsend : (sendSig current sig p).Ends s (Hung current pgrp s) fun _ s' => Quiet s s' :=
            (sendSig_ends current sig p s).weaken (fun e he => hpgrp ▸ he.2) fun _ _ h => h
          exact .then_ hsend fun _ s₁ hq => (ih s₁).weaken (fun e he => he.of_quiet hq) fun _ _ h => hq.trans h

theorem killPg_ends (current : Nat) (pgrp : Int) (sig : Nat) (s : Tasks) :
    (killPg current pgrp sig).Ends s (Hung current pgrp s) fun _ s' => Quiet s s' := by
  unfold killPg
  split
  · exact .pure (.refl s)
  · exact killSlots_ends current pgrp sig slots s

theorem hangUp_ends (current p : Nat) (orphaned : Tasks → Bool) (s : Tasks) :
    (hangUp current p orphaned).Ends s (fun e => orphaned s = true ∧ Hung current (s.page p).pgrp s e)
      fun _ s' => Quiet s s' := by
  refine .bind (.reads ?_)
  split
  · rename_i h
    refine .bind (.reads ?_)
    refine .then_ ((killPg_ends _ _ _ s).weaken (fun e he => ⟨h, he⟩) fun _ _ h => h) fun _ s₁ hq => ?_
    exact (killPg_ends _ _ _ s₁).weaken (fun e he => ⟨h, he.of_quiet hq⟩) fun _ _ h => hq.trans h
  · exact .pure (.refl s)

/-! ## A family -/

/-- **The links of the tasks in `L`**, with `z` and `i` for task 0 and init, form a tree: `kids t` are the children
of `t`, the youngest first, and `r` grows from parents to children. -/
structure Family (s : Tasks) (L : Nat → Prop) (z i : Nat) (kids : Nat → List Nat) (r : Nat → Nat) : Prop where
  doubly : ∀ t, L t ∨ t = z →
    Doubly (fun p => (s.page p).osptr) (fun p => (s.page p).ysptr) (s.page t).cptr (kids t)
  mem : ∀ t, L t ∨ t = z → ∀ p, p ∈ kids t ↔ L p ∧ (s.page p).pptr = t
  parent : ∀ p, L p → p ≠ i → L (s.page p).pptr ∧ r (s.page p).pptr < r p
  init : L i
  initParent : (s.page i).pptr = z
  notZero : ¬ L z
  older : ∀ p, L p → p ≠ i → r i < r p
  zombie : ∀ p, L p → (s.page p).state = .zombie → (s.page p).cptr = none

/-- Two tasks with the same links, both dead or neither. -/
structure SameLinks (x y : Task) : Prop where
  pptr : y.pptr = x.pptr
  cptr : y.cptr = x.cptr
  osptr : y.osptr = x.osptr
  ysptr : y.ysptr = x.ysptr
  zombie : y.state = .zombie ↔ x.state = .zombie

theorem SameLinks.refl (x : Task) : SameLinks x x := ⟨rfl, rfl, rfl, rfl, .rfl⟩

namespace Family

variable {s s' : Tasks} {L : Nat → Prop} {z i t p : Nat} {kids : Nat → List Nat} {r : Nat → Nat}

/-- The same tasks, with the same links. -/
theorem congr {L' : Nat → Prop} (h : Family s L z i kids r) (hL : ∀ x, L' x ↔ L x)
    (hlinks : ∀ x, L x ∨ x = z → SameLinks (s.page x) (s'.page x)) : Family s' L' z i kids r := by
  have hold : ∀ {x}, L' x ∨ x = z → L x ∨ x = z := fun hx => hx.imp_left (hL _).mp
  have hkid : ∀ {t x}, L t ∨ t = z → x ∈ kids t → L x ∨ x = z := fun ht hx => .inl ((h.mem _ ht _).mp hx).1
  refine ⟨fun t ht => ?_, fun t ht p => ?_, fun p hp hi => ?_, (hL i).mpr h.init, ?_,
    fun hz => h.notZero ((hL z).mp hz),
    fun p hp => h.older p ((hL p).mp hp), fun p hp hz => ?_⟩
  · rw [(hlinks t (hold ht)).cptr]
    exact (h.doubly t (hold ht)).congr (fun a ha => (hlinks a (hkid (hold ht) ha)).osptr)
      fun a ha => (hlinks a (hkid (hold ht) ha)).ysptr
  · rw [hL, h.mem t (hold ht) p]
    refine and_congr_right fun hp => ?_
    rw [(hlinks p (.inl hp)).pptr]
  · have hp := (hL p).mp hp
    rw [hL, (hlinks p (.inl hp)).pptr]
    exact h.parent p hp hi
  · rw [(hlinks i (.inl h.init)).pptr]
    exact h.initParent
  · have hp := (hL p).mp hp
    rw [(hlinks p (.inl hp)).cptr]
    exact h.zombie p hp ((hlinks p (.inl hp)).zombie.mp hz)

theorem quiet (h : Family s L z i kids r) (hq : Quiet s s') : Family s' L z i kids r :=
  h.congr (fun _ => .rfl) fun x _ => ⟨hq.pptr x, hq.cptr x, hq.osptr x, hq.ysptr x, hq.zombie x⟩

/-- Every task is in the list of its parent. -/
theorem mem_kids (h : Family s L z i kids r) (hp : L p) :
    (L (s.page p).pptr ∨ (s.page p).pptr = z) ∧ p ∈ kids (s.page p).pptr := by
  have hparent : L (s.page p).pptr ∨ (s.page p).pptr = z := by
    by_cases hi : p = i
    · rw [hi]
      exact .inr h.initParent
    · exact .inl (h.parent p hp hi).1
  exact ⟨hparent, (h.mem _ hparent p).mpr ⟨hp, rfl⟩⟩

theorem pptr_ne (h : Family s L z i kids r) (hp : L p) : (s.page p).pptr ≠ p := by
  by_cases hi : p = i
  · rw [hi, h.initParent]
    intro hz
    exact h.notZero (hz ▸ h.init)
  · intro heq
    have := (h.parent p hp hi).2
    rw [heq] at this
    exact Nat.lt_irrefl _ this

/-- While there is another task, init has a child. -/
theorem init_cptr (h : Family s L z i kids r) (hp : L p) (hi : p ≠ i) : (s.page i).cptr ≠ none := by
  -- upwards from `p` one comes to a child of init
  have hchild : ∀ n p, r p = n → L p → p ≠ i → ∃ q, L q ∧ (s.page q).pptr = i := by
    intro n
    induction n using Nat.strongRecOn with
    | ind n ih =>
        intro p hn hp hi
        obtain ⟨hparent, hlt⟩ := h.parent p hp hi
        by_cases hpi : (s.page p).pptr = i
        · exact ⟨p, hp, hpi⟩
        · exact ih _ (hn ▸ hlt) _ rfl hparent hpi
  obtain ⟨q, hq, hqi⟩ := hchild _ p rfl hp hi
  have hmem : q ∈ kids i := (h.mem i (.inl h.init) q).mpr ⟨hq, hqi⟩
  rw [(h.doubly i (.inl h.init)).head]
  intro hnil
  rw [List.head?_eq_none_iff.mp hnil] at hmem
  exact absurd hmem (by simp)

/-- The links of a sibling lead to siblings. -/
theorem osptr_some (h : Family s L z i kids r) (hp : L p) {q : Nat} (hq : (s.page p).osptr = some q) :
    L q ∧ (s.page q).pptr = (s.page p).pptr ∧ (s.page q).ysptr = some p := by
  obtain ⟨hparent, hmem⟩ := h.mem_kids hp
  obtain ⟨hqmem, hback⟩ := (h.doubly _ hparent).next_some hmem hq
  obtain ⟨hL, hpptr⟩ := (h.mem _ hparent q).mp hqmem
  exact ⟨hL, hpptr, hback⟩

theorem ysptr_some (h : Family s L z i kids r) (hp : L p) {q : Nat} (hq : (s.page p).ysptr = some q) :
    L q ∧ (s.page q).pptr = (s.page p).pptr ∧ (s.page q).osptr = some p := by
  obtain ⟨hparent, hmem⟩ := h.mem_kids hp
  obtain ⟨hqmem, hback⟩ := (h.doubly _ hparent).prev_some hmem hq
  obtain ⟨hL, hpptr⟩ := (h.mem _ hparent q).mp hqmem
  exact ⟨hL, hpptr, hback⟩

theorem osptr_ne (h : Family s L z i kids r) (hp : L p) : (s.page p).osptr ≠ some p := by
  obtain ⟨hparent, hmem⟩ := h.mem_kids hp
  exact (h.doubly _ hparent).next_ne hmem

theorem cptr_some (h : Family s L z i kids r) (ht : L t ∨ t = z) (hp : (s.page t).cptr = some p) :
    L p ∧ (s.page p).pptr = t ∧ (s.page p).ysptr = none := by
  have hd := h.doubly t ht
  have hmem : p ∈ kids t := by
    have hhead := hd.head
    rw [hp] at hhead
    exact List.mem_of_head? hhead.symm
  obtain ⟨hL, hpptr⟩ := (h.mem t ht p).mp hmem
  exact ⟨hL, hpptr, (hd.prev_none_iff hmem).mpr hp⟩

/-! ### A new child -/

/-- `fork` puts the child in front. -/
theorem push (h : Family s L z i kids r) (ht : L t) (hp : ¬ L p) (hpz : p ≠ z) {n : Nat} (hn : ∀ q, L q → r q < n)
    (htz : (s.page t).state ≠ .zombie)
    (hpptr : ∀ x, (s'.page x).pptr = if x = p then t else (s.page x).pptr)
    (hcptr : ∀ x, (s'.page x).cptr = if x = t then some p else if x = p then none else (s.page x).cptr)
    (hosptr : ∀ x, (s'.page x).osptr = if x = p then (s.page t).cptr else (s.page x).osptr)
    (hysptr : ∀ x, (s'.page x).ysptr =
      if x = p then none else if (s.page t).cptr = some x then some p else (s.page x).ysptr)
    (hzombie : ∀ x, x ≠ p → ((s'.page x).state = .zombie ↔ (s.page x).state = .zombie))
    (hstate : (s'.page p).state ≠ .zombie) :
    Family s' (fun x => L x ∨ x = p) z i (fun x => if x = t then p :: kids t else if x = p then [] else kids x)
      fun x => if x = p then n else r x := by
  have hne : ∀ {x}, L x → x ≠ p := by
    rintro x hx rfl
    exact hp hx
  have htp : t ≠ p := hne ht
  -- the other lists have other members
  have hother : ∀ x, L x ∨ x = z → x ≠ t → ∀ a ∈ kids x, (s.page t).cptr ≠ some a := by
    intro x hx hxt a ha hhead
    have h₁ := ((h.mem x hx a).mp ha).2
    have h₂ := (h.cptr_some (.inl ht) hhead).2.1
    exact hxt (h₁.symm.trans h₂)
  have hkid : ∀ x, L x ∨ x = z → ∀ a ∈ kids x, a ≠ p := fun x hx a ha => hne ((h.mem x hx a).mp ha).1
  refine ⟨fun x hx => ?_, fun x hx q => ?_, fun q hq hqi => ?_, .inl h.init, ?_, ?_, fun q hq hqi => ?_,
    fun q hq hz => ?_⟩
  · rw [hcptr]
    by_cases hxt : x = t
    · rw [if_pos hxt, if_pos hxt]
      have hd := h.doubly t (.inl ht)
      apply hd.push
      · exact fun hmem => hkid t (.inl ht) p hmem rfl
      · exact fun a ha => by rw [hosptr, if_neg (hkid t (.inl ht) a ha)]
      · rw [hosptr, if_pos rfl]
      · exact fun a ha hhead => by rw [hysptr, if_neg (hkid t (.inl ht) a ha), if_neg hhead]
      · intro a ha
        rw [hysptr, if_neg (hne (h.cptr_some (.inl ht) ha).1), if_pos ha]
      · rw [hysptr, if_pos rfl]
    · rw [if_neg hxt, if_neg hxt]
      by_cases hxp : x = p
      · rw [if_pos hxp, if_pos hxp]
        exact .nil
      · rw [if_neg hxp, if_neg hxp]
        have hx' : L x ∨ x = z := by
          rcases hx with (hx | hx) | hx
          · exact .inl hx
          · exact absurd hx hxp
          · exact .inr hx
        apply (h.doubly x hx').congr
        · exact fun a ha => by rw [hosptr, if_neg (hkid x hx' a ha)]
        · exact fun a ha => by rw [hysptr, if_neg (hkid x hx' a ha), if_neg (hother x hx' hxt a ha)]
  · rw [hpptr]
    by_cases hxt : x = t
    · rw [if_pos hxt, List.mem_cons, h.mem t (.inl ht)]
      by_cases hqp : q = p
      · simp [hqp, hxt]
      · simp [hqp, hxt]
    · rw [if_neg hxt]
      by_cases hxp : x = p
      · rw [if_pos hxp]
        by_cases hqp : q = p
        · simp [hqp, hxp, htp]
        · rw [if_neg hqp, hxp]
          refine ⟨fun hmem => absurd hmem (by simp), ?_⟩
          rintro ⟨hq | hq, hpp⟩
          · rcases (h.mem_kids hq).1 with hL | hz
            · exact absurd (hpp ▸ hL) hp
            · exact absurd (hpp.symm.trans hz) hpz
          · exact absurd hq hqp
      · rw [if_neg hxp]
        have hx' : L x ∨ x = z := by
          rcases hx with (hx | hx) | hx
          · exact .inl hx
          · exact absurd hx hxp
          · exact .inr hx
        rw [h.mem x hx']
        by_cases hqp : q = p
        · rw [if_pos hqp, hqp]
          exact ⟨fun hmem => absurd hmem.1 hp, fun hmem => absurd hmem.2.symm hxt⟩
        · rw [if_neg hqp]
          exact ⟨fun hmem => ⟨.inl hmem.1, hmem.2⟩, fun hmem => ⟨hmem.1.resolve_right hqp, hmem.2⟩⟩
  · rw [hpptr]
    by_cases hqp : q = p
    · rw [if_pos hqp, if_pos hqp, if_neg htp]
      exact ⟨.inl ht, hn t ht⟩
    · have hq' := hq.resolve_right hqp
      obtain ⟨hL, hlt⟩ := h.parent q hq' hqi
      rw [if_neg hqp, if_neg hqp, if_neg (hne hL)]
      exact ⟨.inl hL, hlt⟩
  · rw [hpptr, if_neg (hne h.init)]
    exact h.initParent
  · rintro (hz | hz)
    · exact h.notZero hz
    · exact hpz hz.symm
  · rw [if_neg (hne h.init)]
    by_cases hqp : q = p
    · rw [if_pos hqp]
      exact hn i h.init
    · rw [if_neg hqp]
      exact h.older q (hq.resolve_right hqp) hqi
  · rw [hcptr]
    by_cases hqp : q = p
    · rw [hqp] at hz
      exact absurd hz hstate
    · have hz' := (hzombie q hqp).mp hz
      have hqt : q ≠ t := by
        rintro rfl
        exact htz hz'
      rw [if_neg hqt, if_neg hqp]
      exact h.zombie q (hq.resolve_right hqp) hz'

/-! ### A child that goes -/

/-- `release` takes a zombie out. -/
theorem remove (h : Family s L z i kids r) (hp : L p) (hdead : (s.page p).state = .zombie) (hpi : p ≠ i)
    (hpptr : ∀ x, (s'.page x).pptr = (s.page x).pptr)
    (hcptr : ∀ x, (s'.page x).cptr =
      if x = (s.page p).pptr ∧ (s.page p).ysptr = none then (s.page p).osptr else (s.page x).cptr)
    (hosptr : ∀ x, (s'.page x).osptr = if (s.page p).ysptr = some x then (s.page p).osptr else (s.page x).osptr)
    (hysptr : ∀ x, (s'.page x).ysptr = if (s.page p).osptr = some x then (s.page p).ysptr else (s.page x).ysptr)
    (hzombie : ∀ x, (s'.page x).state = .zombie ↔ (s.page x).state = .zombie) :
    ∃ kids', Family s' (fun x => L x ∧ x ≠ p) z i kids' r := by
  obtain ⟨hf, hmem⟩ := h.mem_kids hp
  -- a zombie has no children
  have hnone : ∀ q, L q → (s.page q).pptr ≠ p := by
    intro q hq hqp
    have hq' := (h.mem p (.inl hp) q).mpr ⟨hq, hqp⟩
    have hhead := (h.doubly p (.inl hp)).head
    rw [h.zombie p hp hdead] at hhead
    rw [List.head?_eq_none_iff.mp hhead.symm] at hq'
    exact absurd hq' (by simp)
  have hd := h.doubly _ hf
  obtain ⟨m, hm, hmm⟩ : ∃ m, Doubly (fun x => (s'.page x).osptr) (fun x => (s'.page x).ysptr)
      (if (s.page p).ysptr = none then (s.page p).osptr else (s.page (s.page p).pptr).cptr) m ∧
      ∀ a, a ∈ m ↔ a ∈ kids (s.page p).pptr ∧ a ≠ p :=
    hd.remove hmem rfl (fun a _ ha => by rw [hosptr, if_neg ha]) (fun a ha => by rw [hosptr, if_pos ha])
      (fun a _ ha => by rw [hysptr, if_neg ha]) fun a ha => by rw [hysptr, if_pos ha]
  have hold : ∀ {x}, (L x ∧ x ≠ p) ∨ x = z → L x ∨ x = z := fun hx => hx.imp_left And.left
  refine ⟨fun x => if x = (s.page p).pptr then m else kids x, fun x hx => ?_, fun x hx q => ?_, fun q hq hqi => ?_,
    ⟨h.init, fun hip => hpi hip.symm⟩, ?_, fun hz => h.notZero hz.1, fun q hq hqi => h.older q hq.1 hqi,
    fun q hq hz => ?_⟩
  · rw [hcptr]
    by_cases hxf : x = (s.page p).pptr
    · rw [if_pos hxf]
      by_cases hys : (s.page p).ysptr = none
      · rw [if_pos ⟨hxf, hys⟩]
        simp only [if_pos hys] at hm
        exact hm
      · rw [if_neg fun hc => hys hc.2, hxf]
        simp only [if_neg hys] at hm
        exact hm
    · rw [if_neg fun hc => hxf hc.1, if_neg hxf]
      apply (h.doubly x (hold hx)).congr
      · intro a ha
        rw [hosptr, if_neg]
        intro hys
        have h₁ := ((h.mem x (hold hx) a).mp ha).2
        exact hxf (h₁.symm.trans (h.ysptr_some hp hys).2.1)
      · intro a ha
        rw [hysptr, if_neg]
        intro hos
        have h₁ := ((h.mem x (hold hx) a).mp ha).2
        exact hxf (h₁.symm.trans (h.osptr_some hp hos).2.1)
  · rw [hpptr]
    by_cases hxf : x = (s.page p).pptr
    · rw [if_pos hxf, hmm, h.mem _ hf, hxf]
      tauto
    · rw [if_neg hxf, h.mem x (hold hx)]
      constructor
      · rintro ⟨hq, hqx⟩
        refine ⟨⟨hq, ?_⟩, hqx⟩
        rintro rfl
        exact hxf hqx.symm
      · rintro ⟨⟨hq, -⟩, hqx⟩
        exact ⟨hq, hqx⟩
  · rw [hpptr]
    obtain ⟨hL, hlt⟩ := h.parent q hq.1 hqi
    exact ⟨⟨hL, hnone q hq.1⟩, hlt⟩
  · rw [hpptr]
    exact h.initParent
  · have hz' := (hzombie q).mp hz
    rw [hcptr, if_neg]
    · exact h.zombie q hq.1 hz'
    · rintro ⟨hqf, -⟩
      -- the parent of a task is not a zombie, for it has a child
      have hempty := h.zombie q hq.1 hz'
      have hhead := (h.doubly q (.inl hq.1)).head
      rw [hempty] at hhead
      rw [← hqf, List.head?_eq_none_iff.mp hhead.symm] at hmem
      exact absurd hmem (by simp)

/-! ### Children that move -/

/-- `do_exit` moves the children of `t` in front of those of init; `b` is the oldest of them. -/
theorem adopt (h : Family s L z i kids r) (ht : L t) (hti : t ≠ i) {b : Nat} (hb : (kids t).getLast? = some b)
    (hpptr : ∀ x, (s'.page x).pptr = if x ∈ kids t then i else (s.page x).pptr)
    (hcptr : ∀ x, (s'.page x).cptr = if x = t then none else if x = i then (s.page t).cptr else (s.page x).cptr)
    (hosptr : ∀ x, (s'.page x).osptr = if x = b then (s.page i).cptr else (s.page x).osptr)
    (hysptr : ∀ x, (s'.page x).ysptr = if (s.page i).cptr = some x then some b else (s.page x).ysptr)
    (hzombie : ∀ x, x ≠ t → ((s'.page x).state = .zombie ↔ (s.page x).state = .zombie))
    (hinit : (s.page i).state ≠ .zombie) :
    Family s' L z i (fun x => if x = t then [] else if x = i then kids t ++ kids i else kids x) r := by
  have hmemt : ∀ x, x ∈ kids t ↔ L x ∧ (s.page x).pptr = t := h.mem t (.inl ht)
  have hmemi : ∀ x, x ∈ kids i ↔ L x ∧ (s.page x).pptr = i := h.mem i (.inl h.init)
  have htz : t ≠ z := by
    rintro rfl
    exact h.notZero ht
  have hiz : i ∉ kids t := fun hi => htz (((hmemt i).mp hi).2.symm.trans h.initParent)
  have hbt : b ∈ kids t := List.mem_of_getLast? hb
  have hhead : ∀ x, (s.page i).cptr = some x → x ∈ kids i := by
    intro x hx
    exact (hmemi x).mpr ⟨(h.cptr_some (.inl h.init) hx).1, (h.cptr_some (.inl h.init) hx).2.1⟩
  refine ⟨fun x hx => ?_, fun x hx q => ?_, fun q hq hqi => ?_, h.init, ?_, h.notZero, h.older, fun q hq hz => ?_⟩
  · rw [hcptr]
    by_cases hxt : x = t
    · rw [if_pos hxt, if_pos hxt]
      exact .nil
    · rw [if_neg hxt, if_neg hxt]
      by_cases hxi : x = i
      · rw [if_pos hxi, if_pos hxi]
        apply (h.doubly t (.inl ht)).append (h.doubly i (.inl h.init)) _ hb
        · exact fun a _ hab => by rw [hosptr, if_neg hab]
        · rw [hosptr, if_pos rfl]
        · intro a ha
          rw [hysptr, if_neg]
          exact fun hc => hti (((hmemt a).mp ha).2.symm.trans ((hmemi a).mp (hhead a hc)).2)
        · intro a ha
          rw [hosptr, if_neg]
          rintro rfl
          exact hti (((hmemt a).mp hbt).2.symm.trans ((hmemi a).mp ha).2)
        · exact fun a _ hc => by rw [hysptr, if_neg hc]
        · exact fun a hc => by rw [hysptr, if_pos hc]
        · exact fun a ha ha' => hti (((hmemt a).mp ha).2.symm.trans ((hmemi a).mp ha').2)
      · rw [if_neg hxi, if_neg hxi]
        apply (h.doubly x hx).congr
        · intro a ha
          rw [hosptr, if_neg]
          rintro rfl
          exact hxt (((h.mem x hx a).mp ha).2.symm.trans ((hmemt a).mp hbt).2)
        · intro a ha
          rw [hysptr, if_neg]
          exact fun hc => hxi (((h.mem x hx a).mp ha).2.symm.trans ((hmemi a).mp (hhead a hc)).2)
  · rw [hpptr]
    by_cases hxt : x = t
    · rw [if_pos hxt, hxt]
      refine ⟨fun hmem => absurd hmem (by simp), ?_⟩
      rintro ⟨hq, hqt⟩
      split at hqt
      · exact absurd hqt.symm hti
      · rename_i hnot
        exact absurd ((hmemt q).mpr ⟨hq, hqt⟩) hnot
    · rw [if_neg hxt]
      by_cases hxi : x = i
      · rw [if_pos hxi, List.mem_append, hmemi, hxi]
        by_cases hq : q ∈ kids t
        · rw [if_pos hq]
          exact ⟨fun _ => ⟨((hmemt q).mp hq).1, rfl⟩, fun _ => .inl hq⟩
        · rw [if_neg hq]
          exact ⟨fun hor => hor.resolve_left hq, .inr⟩
      · rw [if_neg hxi, h.mem x hx]
        by_cases hq : q ∈ kids t
        · rw [if_pos hq]
          exact ⟨fun hqx => absurd (hqx.2.symm.trans ((hmemt q).mp hq).2) hxt, fun hqx => absurd hqx.2.symm hxi⟩
        · rw [if_neg hq]
  · rw [hpptr]
    split
    · exact ⟨h.init, h.older q hq hqi⟩
    · exact h.parent q hq hqi
  · rw [hpptr, if_neg hiz]
    exact h.initParent
  · rw [hcptr]
    by_cases hqt : q = t
    · rw [if_pos hqt]
    · have hz' := (hzombie q hqt).mp hz
      have hqi : q ≠ i := by
        rintro rfl
        exact hinit hz'
      rw [if_neg hqt, if_neg hqi]
      exact h.zombie q hq hz'

end Family

/-! ## `do_exit` -/

/-- Half-way through the loop of `do_exit` in `t`: the children in `done` are init's. -/
structure Dying (s₀ : Tasks) (t i : Nat) (done : List Nat) (s : Tasks) : Prop where
  task : s.task = s₀.task
  pptr : ∀ x, (s.page x).pptr = if x ∈ done then i else (s₀.page x).pptr
  cptr : ∀ x, (s.page x).cptr = (s₀.page x).cptr
  osptr : ∀ x, (s.page x).osptr = (s₀.page x).osptr
  ysptr : ∀ x, (s.page x).ysptr = (s₀.page x).ysptr
  zombie : ∀ x, x ≠ t → ((s.page x).state = .zombie ↔ (s₀.page x).state = .zombie)
  dead : (s.page t).state = .zombie

/-- After the loop. -/
structure Spliced (s₀ : Tasks) (t i : Nat) (kids : List Nat) (b : Nat) (s : Tasks) : Prop where
  task : s.task = s₀.task
  pptr : ∀ x, (s.page x).pptr = if x ∈ kids then i else (s₀.page x).pptr
  cptr : ∀ x, (s.page x).cptr = if x = t then none else if x = i then (s₀.page t).cptr else (s₀.page x).cptr
  osptr : ∀ x, (s.page x).osptr = if x = b then (s₀.page i).cptr else (s₀.page x).osptr
  ysptr : ∀ x, (s.page x).ysptr = if (s₀.page i).cptr = some x then some b else (s₀.page x).ysptr
  zombie : ∀ x, x ≠ t → ((s.page x).state = .zombie ↔ (s₀.page x).state = .zombie)
  dead : (s.page t).state = .zombie

theorem page_set (s : Tasks) (p : Nat) (f : Task → Task) (x : Nat) :
    (s.set p f).page x = if x = p then f (s.page x) else s.page x := rfl

section
variable {s₀ s s' : Tasks} {t i p b : Nat} {done kids : List Nat}

theorem Dying.quiet (h : Dying s₀ t i done s) (hq : Quiet s s') : Dying s₀ t i done s' where
  task := hq.task.trans h.task
  pptr := fun x => (hq.pptr x).trans (h.pptr x)
  cptr := fun x => (hq.cptr x).trans (h.cptr x)
  osptr := fun x => (hq.osptr x).trans (h.osptr x)
  ysptr := fun x => (hq.ysptr x).trans (h.ysptr x)
  zombie := fun x hx => (hq.zombie x).trans (h.zombie x hx)
  dead := (hq.zombie t).mpr h.dead

/-- A child becomes init's. -/
theorem Dying.inherit (h : Dying s₀ t i done s) (p : Nat) :
    Dying s₀ t i (done ++ [p]) (s.set p fun x => { x with ptraced := false, pptr := i }) := by
  refine ⟨h.task, fun x => ?_, fun x => ?_, fun x => ?_, fun x => ?_, fun x hx => ?_, ?_⟩
  · by_cases hx : x = p
    · simp [page_set, hx]
    · simp [page_set, hx, h.pptr x]
  · rw [← h.cptr x]
    simp only [page_set, apply_ite Task.cptr, ite_self]
  · rw [← h.osptr x]
    simp only [page_set, apply_ite Task.osptr, ite_self]
  · rw [← h.ysptr x]
    simp only [page_set, apply_ite Task.ysptr, ite_self]
  · rw [← h.zombie x hx]
    simp only [page_set, apply_ite Task.state, ite_self]
  · rw [← h.dead]
    simp only [page_set, apply_ite Task.state, ite_self]

/-- The lists are joined. -/
theorem splice_ends {c : Nat} (h : Dying s₀ t i kids s) (hinit : s.init = i)
    (hc : (s₀.page i).cptr = some c) :
    (splice t b).Ends s (fun _ => False) fun _ s' => Spliced s₀ t i kids b s' := by
  unfold splice
  refine .bind (.reads (.bind (.reads (.bind (.modify ?_)))))
  rw [hinit, h.cptr i, hc]
  refine .bind (.modify (.bind (.modify (.modify ?_))))
  refine ⟨h.task, fun x => ?_, fun x => ?_, fun x => ?_, fun x => ?_, fun x hx => ?_, ?_⟩
  · rw [← h.pptr x]
    simp only [page_set, apply_ite Task.pptr, ite_self]
  · rw [← h.cptr x, ← h.cptr t]
    simp only [page_set, apply_ite Task.cptr, ite_self]
  · rw [← h.osptr x]
    simp only [page_set, apply_ite Task.osptr, ite_self]
    rw [hc]
  · rw [← h.ysptr x]
    simp only [page_set, apply_ite Task.ysptr, ite_self]
    rw [hc]
    simp only [Option.some.injEq, eq_comm]
  · rw [← h.zombie x hx]
    simp only [page_set, apply_ite Task.state, ite_self]
  · rw [← h.dead]
    simp only [page_set, apply_ite Task.state, ite_self]

end

section
variable {s₀ s : Tasks} {L : Nat → Prop} {z i t p : Nat} {kids : Nat → List Nat} {r : Nat → Nat}

/-- **The loop of `do_exit`**, from the child `p` on; `current` gets none of the signals. -/
theorem adopt_ends (h : Family s₀ L z i kids r) (ht : L t) (hti : t ≠ i) (hinit : s₀.init = i) {fuel : Nat}
    {done rest : List Nat} (hk : kids t = done ++ p :: rest) (hfuel : rest.length < fuel)
    (hd : Dying s₀ t i done s) :
    (adopt t fuel p).Ends s (fun _ => False) fun _ s' =>
      ∃ b, (kids t).getLast? = some b ∧ Spliced s₀ t i (kids t) b s' := by
  induction fuel generalizing done rest p s with
  | zero => exact absurd hfuel (Nat.not_lt_zero _)
  | succ fuel ih =>
      have hsi : s.init = i := by
        unfold Tasks.init
        rw [hd.task]
        exact hinit
      refine .bind (.modify ?_)
      rw [hsi]
      have hd₁ := hd.inherit p
      -- the group of `current` is not the one that gets the signals
      refine .then_ ((hangUp_ends t p (orphansChild t p)
        (s.set p fun x => { x with ptraced := false, pptr := i })).weaken (fun e he => ?_) fun _ _ hq => hq)
        fun _ s₁ hq => ?_
      · obtain ⟨horphan, -, hpgrp, -⟩ := he
        unfold orphansChild at horphan
        simp only [hpgrp, Bool.and_eq_true, bne_self_eq_false, Bool.false_eq_true, false_and] at horphan
      · have hd₂ := hd₁.quiet hq
        refine .bind (.reads ?_)
        obtain ⟨hnext, -⟩ := (h.doubly t (.inl ht)).links done p rest hk
        rw [hd₂.osptr p, hnext]
        cases rest with
        | nil =>
            obtain ⟨c, hc⟩ := Option.ne_none_iff_exists'.mp (h.init_cptr ht hti)
            refine (splice_ends (hk ▸ hd₂) ?_ hc).mono fun _ s' h' => ⟨p, ?_, h'⟩
            · unfold Tasks.init
              rw [hd₂.task]
              exact hinit
            · rw [hk, List.getLast?_concat]
        | cons q rest =>
            have hk' : kids t = (done ++ [p]) ++ q :: rest := by
              rw [hk]
              simp
            exact ih hk' (by simpa using hfuel) hd₂

/-- What `do_exit` of `t` makes of the tasks. -/
structure Exited (s₀ : Tasks) (L : Nat → Prop) (z i t : Nat) (r : Nat → Nat) (s : Tasks) : Prop where
  task : s.task = s₀.task
  family : ∃ kids, Family s L z i kids r
  zombie : ∀ x, x ≠ t → ((s.page x).state = .zombie ↔ (s₀.page x).state = .zombie)
  dead : (s.page t).state = .zombie
  pptr : ∀ x, (s₀.page x).pptr ≠ t → (s.page x).pptr = (s₀.page x).pptr

theorem Exited.quiet {s' : Tasks} (h : Exited s₀ L z i t r s) (hq : Quiet s s') : Exited s₀ L z i t r s' := by
  obtain ⟨kids, hf⟩ := h.family
  exact ⟨hq.task.trans h.task, ⟨kids, hf.quiet hq⟩, fun x hx => (hq.zombie x).trans (h.zombie x hx),
    (hq.zombie t).mpr h.dead, fun x hx => (hq.pptr x).trans (h.pptr x hx)⟩

theorem adoptAll_ends (h : Family s₀ L z i kids r) (ht : L t) (hti : t ≠ i) (hinit : s₀.init = i)
    (hlen : (kids t).length ≤ NR_TASKS) (hi : (s₀.page i).state ≠ .zombie) (hd : Dying s₀ t i [] s) :
    (adoptAll t).Ends s (fun _ => False) fun _ s' => Exited s₀ L z i t r s' := by
  refine .bind (.reads ?_)
  have hdt := h.doubly t (.inl ht)
  rw [hd.cptr t]
  cases hc : (s₀.page t).cptr with
  | none =>
      refine .pure ⟨hd.task, ⟨kids, fun x hx => ?_, fun x hx p => ?_, fun p hp hpi => ?_, h.init, ?_, h.notZero,
        h.older, fun p hp hz => ?_⟩, hd.zombie, hd.dead, fun x _ => hd.pptr x⟩
      · rw [hd.cptr]
        exact (h.doubly x hx).congr (fun a _ => hd.osptr a) fun a _ => hd.ysptr a
      · rw [hd.pptr]
        exact h.mem x hx p
      · rw [hd.pptr]
        exact h.parent p hp hpi
      · rw [hd.pptr]
        exact h.initParent
      · rw [hd.cptr]
        by_cases hpt : p = t
        · rw [hpt]
          exact hc
        · exact h.zombie p hp ((hd.zombie p hpt).mp hz)
  | some p =>
      have hhead := hdt.head
      rw [hc] at hhead
      obtain ⟨rest, hk⟩ : ∃ rest, kids t = p :: rest := by
        cases hkids : kids t with
        | nil => rw [hkids] at hhead; cases hhead
        | cons q rest =>
            rw [hkids] at hhead
            cases hhead
            exact ⟨rest, rfl⟩
      have hfuel : rest.length < NR_TASKS := by
        rw [hk, List.length_cons] at hlen
        omega
      refine (adopt_ends h ht hti hinit (show kids t = [] ++ p :: rest from hk) hfuel hd).mono fun _ s' h' => ?_
      obtain ⟨b, hb, hs⟩ := h'
      refine ⟨hs.task, ⟨_, h.adopt ht hti hb hs.pptr hs.cptr hs.osptr hs.ysptr hs.zombie hi⟩, hs.zombie, hs.dead,
        fun x hx => ?_⟩
      rw [hs.pptr, if_neg]
      exact fun hmem => hx ((h.mem t (.inl ht) x).mp hmem).2

/-- **`do_exit` leaves a family**, unless a traced task orphans its own process group. -/
theorem doExit_ends (h : Family s L z i kids r) (ht : L t) (hti : t ≠ i) (hinit : s.init = i)
    (hlen : (kids t).length ≤ NR_TASKS) (hi : (s.page i).state ≠ .zombie) (tty : Option Int)
    (hok : ¬ ((s.page t).ptraced = true ∧ orphansOwn t (s.setState t .zombie) = true)) :
    (doExit t tty).Ends s (fun e => ∃ s', e = .gone s' ∧ Exited s L z i t r s') fun _ s' => Exited s L z i t r s' := by
  have hd : Dying s t i [] (s.setState t .zombie) := by
    refine ⟨rfl, fun x => ?_, fun x => ?_, fun x => ?_, fun x => ?_, fun x hx => ?_, ?_⟩
    · simp [Tasks.setState, page_set, apply_ite Task.pptr]
    · simp [Tasks.setState, page_set, apply_ite Task.cptr]
    · simp [Tasks.setState, page_set, apply_ite Task.osptr]
    · simp [Tasks.setState, page_set, apply_ite Task.ysptr]
    · simp [Tasks.setState, page_set, hx]
    · simp [Tasks.setState, page_set]
  have hpage : ∀ x, ((s.setState t .zombie).page x).ptraced = (s.page x).ptraced := by
    intro x
    simp [Tasks.setState, page_set, apply_ite Task.ptraced]
  refine .bind (.modify ?_)
  refine .then_ ((hangUp_ends t t (orphansOwn t) _).weaken (fun e he => ?_) fun _ _ hq => hq) fun _ s₁ hq₁ => ?_
  · exact absurd ⟨hpage t ▸ he.2.1, he.1⟩ hok
  · have hd₁ := hd.quiet hq₁
    refine .bind (.reads ?_)
    have hfather : (s₁.page t).pptr ≠ t := by
      rw [hd₁.pptr t]
      exact h.pptr_ne ht
    refine .then_ ((sendSig_ends t SIGCHLD _ s₁).weaken (fun e he => absurd he.1 hfather) fun _ _ hq => hq)
      fun _ s₂ hq₂ => ?_
    refine .then_ ((adoptAll_ends h ht hti hinit hlen hi (hd₁.quiet hq₂)).weaken (fun _ he => he.elim)
      fun _ _ h' => h') fun _ s₃ h₃ => ?_
    -- the tree is done; a leader may still hang up its own group
    refine .bind (.reads ?_)
    split
    · exact .pure h₃
    · refine (killPg_ends t _ SIGHUP s₃).weaken (fun e he => ?_) fun _ _ hq => h₃.quiet hq
      obtain ⟨-, -, s', rfl, hq⟩ := he
      exact ⟨s', rfl, h₃.quiet hq⟩

end

/-! ## Runs -/

/-- **The invariant.** The tasks that are linked are a family, with task 0 in the page `z` and init in `i`. -/
structure Kin (c : Config) (z i : Nat) : Prop where
  zero : c.tasks.task 0 = some z
  init : c.tasks.task 1 = some i
  inj : ∀ a b p, a < NR_TASKS → b < NR_TASKS → c.tasks.task a = some p → c.tasks.task b = some p → a = b
  family : ∃ kids r, Family c.tasks c.Linked z i kids r
  alive : (c.tasks.page i).state ≠ .zombie
  busy : ∀ t, c.pc t ≠ .run → c.Linked t ∧ (c.tasks.page t).state ≠ .zombie
  forking : ∀ t p, c.pc t = .forking p → c.tasks.Live p ∧ ∀ t', c.pc t' = .forking p → t' = t
  reaping : ∀ t p, c.pc t = .reaping p →
    c.Linked p ∧ (c.tasks.page p).state = .zombie ∧ (c.tasks.page p).pptr = t

/-- A traced task does not orphan its own process group when it exits. -/
def Clear (s : Tasks) (t : Nat) : Prop :=
  ¬ ((s.page t).ptraced = true ∧ orphansOwn t (s.setState t .zombie) = true)

namespace Kin

variable {c c' : Config} {z i t p : Nat}

theorem boot (h : Boot c z i) : Kin c z i := by
  have hlinked : ∀ x, c.Linked x ↔ x = i := by
    intro x
    constructor
    · rintro ⟨⟨nr, hpos, -, hnr⟩, -⟩
      by_cases hone : nr = 1
      · rw [hone, h.init] at hnr
        exact (Option.some.inj hnr).symm
      · rw [h.others nr (by omega)] at hnr
        cases hnr
    · rintro rfl
      refine ⟨⟨1, by decide, by decide, h.init⟩, ?_⟩
      rintro ⟨t, ht⟩
      rw [h.run t] at ht
      cases ht
  have hslot : ∀ nr p, c.tasks.task nr = some p → nr = 0 ∧ p = z ∨ nr = 1 ∧ p = i := by
    intro nr p hp
    by_cases hzero : nr = 0
    · rw [hzero, h.zero] at hp
      exact .inl ⟨hzero, (Option.some.inj hp).symm⟩
    · by_cases hone : nr = 1
      · rw [hone, h.init] at hp
        exact .inr ⟨hone, (Option.some.inj hp).symm⟩
      · rw [h.others nr (by omega)] at hp
        cases hp
  have hfamily : Family c.tasks c.Linked z i (fun t => if t = z then [i] else []) fun _ => 0 := by
    refine ⟨fun t ht => ?_, fun t ht p => ?_, fun p hp hpi => absurd ((hlinked p).mp hp) hpi, (hlinked i).mpr rfl,
      h.pptr, fun hz => h.ne ((hlinked z).mp hz), fun p hp hpi => absurd ((hlinked p).mp hp) hpi, fun p hp hz => ?_⟩
    · by_cases htz : t = z
      · rw [if_pos htz, htz, h.cptr]
        exact .singleton h.alone.2.2 h.alone.2.1
      · rw [if_neg htz, (hlinked t).mp (ht.resolve_right htz), h.alone.1]
        exact .nil
    · by_cases htz : t = z
      · rw [if_pos htz, List.mem_singleton, hlinked, htz]
        refine ⟨fun hp => ⟨hp, ?_⟩, And.left⟩
        rw [hp]
        exact h.pptr
      · rw [if_neg htz, hlinked]
        refine ⟨fun hp => absurd hp (by simp), ?_⟩
        rintro ⟨rfl, hpptr⟩
        exact absurd (hpptr.symm.trans h.pptr) htz
    · rw [(hlinked p).mp hp] at hz
      exact absurd hz h.state
  refine ⟨h.zero, h.init, fun a b p _ _ ha hb => ?_, ⟨_, _, hfamily⟩, h.state, fun t ht => absurd (h.run t) ht,
    fun t p ht => ?_, fun t p ht => ?_⟩
  · have hne := h.ne
    rcases hslot a p ha with ⟨ha, hpa⟩ | ⟨ha, hpa⟩ <;> rcases hslot b p hb with ⟨hb, hpb⟩ | ⟨hb, hpb⟩
    · exact ha.trans hb.symm
    · exact absurd (hpa.symm.trans hpb) hne
    · exact absurd (hpb.symm.trans hpa) hne
    · exact ha.trans hb.symm
  · rw [h.run t] at ht
    cases ht
  · rw [h.run t] at ht
    cases ht

/-- There are no more tasks than slots. -/
theorem length_le {l : List Nat} (hnodup : l.Nodup) (hl : ∀ x ∈ l, c.tasks.Live x) : l.length ≤ NR_TASKS := by
  have hsub : l ⊆ (List.range NR_TASKS).filterMap c.tasks.task := by
    intro x hx
    obtain ⟨nr, -, hlt, hnr⟩ := hl x hx
    exact List.mem_filterMap.mpr ⟨nr, List.mem_range.mpr hlt, hnr⟩
  have hle := (hnodup.subperm hsub).length_le
  have hfilter := List.length_filterMap_le c.tasks.task (List.range NR_TASKS)
  rw [List.length_range] at hfilter
  omega

/-- Numbers of all tasks have a bound. -/
theorem bounded (c : Config) (r : Nat → Nat) : ∃ n, ∀ x, c.tasks.Live x → r x < n := by
  have hlist : ∀ l : List Nat, ∃ n, ∀ x ∈ l, r x < n := by
    intro l
    induction l with
    | nil => exact ⟨0, by simp⟩
    | cons a l ih =>
        obtain ⟨n, hn⟩ := ih
        refine ⟨max n (r a + 1), fun x hx => ?_⟩
        rcases List.mem_cons.mp hx with rfl | hx
        · omega
        · have := hn x hx
          omega
  obtain ⟨n, hn⟩ := hlist ((List.range NR_TASKS).filterMap c.tasks.task)
  refine ⟨n, fun x hx => ?_⟩
  obtain ⟨nr, -, hlt, hnr⟩ := hx
  exact hn x (List.mem_filterMap.mpr ⟨nr, List.mem_range.mpr hlt, hnr⟩)

theorem live_ne_zero (h : Kin c z i) (hp : c.tasks.Live p) : p ≠ z := by
  rintro rfl
  obtain ⟨nr, hpos, hlt, hnr⟩ := hp
  have := h.inj nr 0 p hlt (by decide) hnr h.zero
  omega

theorem init_linked (h : Kin c z i) : c.Linked i := by
  obtain ⟨_, _, hf⟩ := h.family
  exact hf.init

/-- A task that is being made is in no list. -/
theorem half (h : Kin c z i) (hpc : c.pc t = .forking p) : c.tasks.Live p ∧ ¬ c.Linked p ∧ p ≠ t ∧ c.pc p = .run := by
  have hlive := (h.forking t p hpc).1
  have hnot : ¬ c.Linked p := fun hp => hp.2 ⟨t, hpc⟩
  refine ⟨hlive, hnot, ?_, ?_⟩
  · rintro rfl
    exact hnot (h.busy p (by rw [hpc]; simp)).1
  · by_contra hrun
    exact hnot (h.busy p hrun).1

/-- What a step of `t` to `q` has to show, when the tasks become those of `s`. -/
theorem next (h : Kin c z i) {s : Tasks} {q : Pc} (hc' : c' = ({ c with tasks := s } : Config).goto t q)
    (htask : s.task 0 = c.tasks.task 0 ∧ s.task 1 = c.tasks.task 1)
    (hinj : ∀ a b p, a < NR_TASKS → b < NR_TASKS → s.task a = some p → s.task b = some p → a = b)
    (hfamily : ∃ kids r, Family s c'.Linked z i kids r) (halive : (s.page i).state ≠ .zombie)
    (hbusy : ∀ x, x ≠ t → c.Linked x → (c.tasks.page x).state ≠ .zombie →
      c'.Linked x ∧ (s.page x).state ≠ .zombie)
    (hforking : ∀ x a, x ≠ t → c.pc x = .forking a → s.Live a)
    (hreaping : ∀ x a, x ≠ t → c.pc x = .reaping a → c'.Linked a ∧ (s.page a).state = .zombie ∧ (s.page a).pptr = x)
    (hself : q ≠ .run → c'.Linked t ∧ (s.page t).state ≠ .zombie)
    (hfork : ∀ a, q = .forking a → s.Live a ∧ ∀ x, x ≠ t → c.pc x ≠ .forking a)
    (hreap : ∀ a, q = .reaping a → c'.Linked a ∧ (s.page a).state = .zombie ∧ (s.page a).pptr = t) : Kin c' z i := by
  have hpc : ∀ x, c'.pc x = if x = t then q else c.pc x := by
    rw [hc']
    exact fun _ => rfl
  have htasks : c'.tasks = s := by
    rw [hc']
    rfl
  refine ⟨?_, ?_, ?_, ?_, ?_, fun x hx => ?_, fun x a hx => ?_, fun x a hx => ?_⟩
  · rw [htasks, htask.1]
    exact h.zero
  · rw [htasks, htask.2]
    exact h.init
  · rw [htasks]
    exact hinj
  · rw [htasks]
    exact hfamily
  · rw [htasks]
    exact halive
  · rw [htasks]
    rw [hpc] at hx
    by_cases hxt : x = t
    · rw [if_pos hxt] at hx
      rw [hxt]
      exact hself hx
    · rw [if_neg hxt] at hx
      exact hbusy x hxt (h.busy x hx).1 (h.busy x hx).2
  · rw [htasks]
    rw [hpc] at hx
    by_cases hxt : x = t
    · rw [if_pos hxt] at hx
      obtain ⟨hlive, hother⟩ := hfork a hx
      refine ⟨hlive, fun y hy => ?_⟩
      by_contra hne
      rw [hpc, if_neg fun hyt => hne (hyt.trans hxt.symm)] at hy
      exact hother y (fun hyt => hne (hyt.trans hxt.symm)) hy
    · rw [if_neg hxt] at hx
      refine ⟨hforking x a hxt hx, fun y hy => ?_⟩
      rw [hpc] at hy
      by_cases hyt : y = t
      · rw [if_pos hyt] at hy
        exact absurd hx ((hfork a hy).2 x hxt)
      · rw [if_neg hyt] at hy
        exact (h.forking x a hx).2 y hy
  · rw [htasks]
    rw [hpc] at hx
    by_cases hxt : x = t
    · rw [if_pos hxt] at hx
      rw [hxt]
      exact hreap a hx
    · rw [if_neg hxt] at hx
      exact hreaping x a hxt hx

/-- Who is being made does not change when `t` neither begins nor ends a `fork`. -/
theorem half_goto {s : Tasks} {q : Pc} (hpc : ∀ p, c.pc t ≠ .forking p) (hq : ∀ p, q ≠ .forking p) (x : Nat) :
    (({ c with tasks := s } : Config).goto t q).Half x ↔ c.Half x := by
  have hpc' : ∀ y, (({ c with tasks := s } : Config).goto t q).pc y = if y = t then q else c.pc y := fun _ => rfl
  constructor
  · rintro ⟨y, hy⟩
    rw [hpc'] at hy
    split at hy
    · exact absurd hy (hq x)
    · exact ⟨y, hy⟩
  · rintro ⟨y, hy⟩
    refine ⟨y, ?_⟩
    rw [hpc', if_neg]
    · exact hy
    · rintro rfl
      exact hpc x hy

/-- The child that `t` was making is made, or given up. -/
theorem half_done (h : Kin c z i) {s : Tasks} (hpc : c.pc t = .forking p) (x : Nat) :
    (({ c with tasks := s } : Config).goto t .run).Half x ↔ c.Half x ∧ x ≠ p := by
  have hpc' : ∀ y, (({ c with tasks := s } : Config).goto t .run).pc y = if y = t then .run else c.pc y := fun _ => rfl
  constructor
  · rintro ⟨y, hy⟩
    rw [hpc'] at hy
    split at hy
    · cases hy
    · rename_i hyt
      refine ⟨⟨y, hy⟩, ?_⟩
      rintro rfl
      exact hyt ((h.forking t x hpc).2 y hy)
  · rintro ⟨⟨y, hy⟩, hne⟩
    refine ⟨y, ?_⟩
    rw [hpc', if_neg]
    · exact hy
    · rintro rfl
      rw [hpc] at hy
      cases hy
      exact hne rfl

/-! ### `fork` -/

theorem fork (h : Kin c z i) {nr : Nat} (pid : Int) (ht : c.Runs t) (hpc : c.pc t = .run) (hp : ¬ c.tasks.Live p)
    (hzero : c.tasks.task 0 ≠ some p) (hnr : 0 < nr ∧ nr < NR_TASKS) (hfree : c.tasks.task nr = none) :
    Kin ({ c with tasks := ProcessTree.fork t p nr pid c.tasks }.goto t (.forking p)) z i := by
  have htask : ∀ a, (ProcessTree.fork t p nr pid c.tasks).task a = if a = nr then some p else c.tasks.task a :=
    fun _ => rfl
  have hpage : ∀ x, x ≠ p → (ProcessTree.fork t p nr pid c.tasks).page x = c.tasks.page x :=
    fun x hx => if_neg hx
  have hlive : ∀ x, (ProcessTree.fork t p nr pid c.tasks).Live x ↔ c.tasks.Live x ∨ x = p := by
    intro x
    constructor
    · rintro ⟨a, hpos, hlt, ha⟩
      rw [htask] at ha
      split at ha
      · exact .inr (Option.some.inj ha).symm
      · exact .inl ⟨a, hpos, hlt, ha⟩
    · rintro (⟨a, hpos, hlt, ha⟩ | rfl)
      · refine ⟨a, hpos, hlt, ?_⟩
        rw [htask, if_neg, ha]
        rintro rfl
        rw [hfree] at ha
        cases ha
      · exact ⟨nr, hnr.1, hnr.2, by rw [htask, if_pos rfl]⟩
  have hne : ∀ {x}, c.tasks.Live x → x ≠ p := by
    rintro x hx rfl
    exact hp hx
  have hz : p ≠ z := by
    rintro rfl
    exact hzero h.zero
  have hlinked : ∀ x,
      (({ c with tasks := ProcessTree.fork t p nr pid c.tasks } : Config).goto t (.forking p)).Linked x ↔
      c.Linked x := by
    intro x
    show _ ∧ ¬ _ ↔ _
    have hhalf : (({ c with tasks := ProcessTree.fork t p nr pid c.tasks } : Config).goto t (.forking p)).Half x ↔
        c.Half x ∨ x = p := by
      have hpc' : ∀ y, (({ c with tasks := ProcessTree.fork t p nr pid c.tasks } : Config).goto t (.forking p)).pc y =
          if y = t then .forking p else c.pc y := fun _ => rfl
      constructor
      · rintro ⟨y, hy⟩
        rw [hpc'] at hy
        split at hy
        · cases hy
          exact .inr rfl
        · exact .inl ⟨y, hy⟩
      · rintro (⟨y, hy⟩ | rfl)
        · refine ⟨y, ?_⟩
          rw [hpc', if_neg]
          · exact hy
          · rintro rfl
            rw [hpc] at hy
            cases hy
        · exact ⟨t, by rw [hpc', if_pos rfl]⟩
    rw [hhalf]
    show (ProcessTree.fork t p nr pid c.tasks).Live x ∧ _ ↔ _
    rw [hlive]
    constructor
    · rintro ⟨hl | hl, hn⟩
      · exact ⟨hl, fun hh => hn (.inl hh)⟩
      · exact absurd (.inr hl) hn
    · rintro ⟨hl, hn⟩
      exact ⟨.inl hl, fun hh => hh.elim hn (hne hl)⟩
  obtain ⟨kids, r, hf⟩ := h.family
  have hi : i ≠ p := hne h.init_linked.1
  have hpage' : ∀ x, c.Linked x ∨ x = z → (ProcessTree.fork t p nr pid c.tasks).page x = c.tasks.page x := by
    rintro x (hx | rfl)
    · exact hpage x (hne hx.1)
    · exact hpage x hz.symm
  apply h.next rfl
  · constructor
    · rw [htask, if_neg]
      omega
    · rw [htask, if_neg]
      rintro rfl
      have hinit := h.init
      rw [hfree] at hinit
      cases hinit
  · intro a b x ha hb hxa hxb
    rw [htask] at hxa hxb
    split at hxa <;> split at hxb
    · omega
    · rw [← hxa] at hxb
      by_cases hb0 : b = 0
      · exact absurd (hb0 ▸ hxb) hzero
      · exact absurd ⟨b, Nat.pos_of_ne_zero hb0, hb, hxb⟩ hp
    · rw [← hxb] at hxa
      by_cases ha0 : a = 0
      · exact absurd (ha0 ▸ hxa) hzero
      · exact absurd ⟨a, Nat.pos_of_ne_zero ha0, ha, hxa⟩ hp
    · exact h.inj a b x ha hb hxa hxb
  · refine ⟨kids, r, hf.congr hlinked fun x hx => ?_⟩
    rw [hpage' x hx]
    exact .refl _
  · rw [hpage i hi]
    exact h.alive
  · intro x _ hx hxz
    rw [hlinked, hpage x (hne hx.1)]
    exact ⟨hx, hxz⟩
  · intro x a _ hx
    exact (hlive a).mpr (.inl (h.forking x a hx).1)
  · intro x a _ hx
    obtain ⟨ha, hrest⟩ := h.reaping x a hx
    rw [hlinked, hpage a (hne ha.1)]
    exact ⟨ha, hrest⟩
  · intro _
    rw [hlinked, hpage t (hne ht.1.1)]
    refine ⟨ht.1, ?_⟩
    rw [ht.2]
    decide
  · rintro a ⟨⟩
    exact ⟨(hlive p).mpr (.inr rfl), fun x _ hx => hp (h.forking x p hx).1⟩
  · rintro a ⟨⟩

/-- A slot of `task[]` is emptied. -/
theorem live_setTask (h : Kin c z i) {nr : Nat} (hnr : 0 < nr ∧ nr < NR_TASKS) (hp : c.tasks.task nr = some p)
    {s : Tasks}
    (htask : s.task = (c.tasks.setTask nr none).task) (x : Nat) : s.Live x ↔ c.tasks.Live x ∧ x ≠ p := by
  have htask' : ∀ a, s.task a = if a = nr then none else c.tasks.task a := by
    rw [htask]
    exact fun _ => rfl
  constructor
  · rintro ⟨a, hpos, hlt, ha⟩
    rw [htask'] at ha
    split at ha
    · cases ha
    · rename_i hne
      refine ⟨⟨a, hpos, hlt, ha⟩, ?_⟩
      rintro rfl
      exact hne (h.inj a nr x hlt hnr.2 ha hp)
  · rintro ⟨⟨a, hpos, hlt, ha⟩, hne⟩
    refine ⟨a, hpos, hlt, ?_⟩
    rw [htask', if_neg, ha]
    rintro rfl
    rw [hp] at ha
    cases ha
    exact hne rfl

theorem setTask_inj (h : Kin c z i) {nr : Nat} {s : Tasks} (htask : s.task = (c.tasks.setTask nr none).task) :
    ∀ a b x, a < NR_TASKS → b < NR_TASKS → s.task a = some x → s.task b = some x → a = b := by
  intro a b x ha hb hxa hxb
  rw [htask] at hxa hxb
  simp only [Tasks.setTask] at hxa hxb
  split at hxa
  · cases hxa
  · split at hxb
    · cases hxb
    · exact h.inj a b x ha hb hxa hxb

/-- Task 0 and init stay. -/
theorem setTask_first (h : Kin c z i) {nr : Nat} (hnr : 0 < nr ∧ nr < NR_TASKS) (hp : c.tasks.task nr = some p)
    (hpi : p ≠ i) {s : Tasks} (htask : s.task = (c.tasks.setTask nr none).task) :
    s.task 0 = c.tasks.task 0 ∧ s.task 1 = c.tasks.task 1 := by
  rw [htask]
  refine ⟨if_neg (by omega), if_neg ?_⟩
  rintro rfl
  exact hpi (Option.some.inj (hp.symm.trans h.init))

theorem forkFail (h : Kin c z i) {nr : Nat} (hpc : c.pc t = .forking p)
    (hnr : 0 < nr ∧ nr < NR_TASKS) (hp : c.tasks.task nr = some p) :
    Kin ({ c with tasks := c.tasks.setTask nr none }.goto t .run) z i := by
  obtain ⟨-, hnot, -, -⟩ := h.half hpc
  have hlive := h.live_setTask hnr hp (s := c.tasks.setTask nr none) rfl
  have hlinked : ∀ x, (({ c with tasks := c.tasks.setTask nr none } : Config).goto t .run).Linked x ↔ c.Linked x := by
    intro x
    show _ ∧ ¬ _ ↔ _
    rw [h.half_done hpc]
    show (c.tasks.setTask nr none).Live x ∧ _ ↔ _
    rw [hlive]
    constructor
    · rintro ⟨⟨hl, hne⟩, hn⟩
      exact ⟨hl, fun hh => hn ⟨hh, hne⟩⟩
    · rintro ⟨hl, hn⟩
      refine ⟨⟨hl, ?_⟩, fun hh => hn hh.1⟩
      rintro rfl
      exact hn ⟨t, hpc⟩
  have hpi : p ≠ i := by
    rintro rfl
    exact hnot h.init_linked
  obtain ⟨kids, r, hf⟩ := h.family
  apply h.next rfl (h.setTask_first hnr hp hpi rfl) (h.setTask_inj rfl)
  · exact ⟨kids, r, hf.congr hlinked fun x _ => .refl _⟩
  · exact h.alive
  · intro x _ hx hxz
    rw [hlinked]
    exact ⟨hx, hxz⟩
  · intro x a hxt hx
    refine (hlive a).mpr ⟨(h.forking x a hx).1, ?_⟩
    rintro rfl
    exact hxt ((h.forking t a hpc).2 x hx)
  · intro x a _ hx
    rw [hlinked]
    exact h.reaping x a hx
  · exact fun hne => absurd rfl hne
  · rintro a ⟨⟩
  · rintro a ⟨⟩

/-- The fields after `sys_fork` has linked the child. -/
theorem forkDone_page (s : Tasks) (t p x : Nat) :
    ((ProcessTree.forkDone t p s).page x).pptr = (if x = p then t else (s.page x).pptr) ∧
    ((ProcessTree.forkDone t p s).page x).cptr = (if x = t then some p else if x = p then none else (s.page x).cptr) ∧
    ((ProcessTree.forkDone t p s).page x).osptr = (if x = p then (s.page t).cptr else (s.page x).osptr) ∧
    ((ProcessTree.forkDone t p s).page x).state = if x = p then .running else (s.page x).state := by
  unfold ProcessTree.forkDone
  cases (s.page t).cptr <;>
    simp only [Option.elim_none, Option.elim_some, Tasks.setState, page_set, apply_ite Task.pptr,
      apply_ite Task.cptr, apply_ite Task.osptr, apply_ite Task.state, ite_self, true_and]

theorem forkDone_ysptr (s : Tasks) {t p : Nat} (hp : (s.page t).cptr ≠ some p) (x : Nat) :
    ((ProcessTree.forkDone t p s).page x).ysptr =
      if x = p then none else if (s.page t).cptr = some x then some p else (s.page x).ysptr := by
  unfold ProcessTree.forkDone
  cases hc : (s.page t).cptr with
  | none =>
      simp only [Option.elim_none, Tasks.setState, page_set, apply_ite Task.ysptr, ite_self]
      simp
  | some o =>
      have hop : o ≠ p := fun h => hp (hc.trans (congrArg some h))
      simp only [Option.elim_some, Tasks.setState, page_set, apply_ite Task.ysptr, ite_self]
      by_cases hxo : x = o
      · subst hxo
        simp [hop]
      · have hne : ¬ o = x := fun h => hxo h.symm
        simp [hxo, hne]

/-- Who is live is a matter of `task[]`. -/
theorem live_congr {s s' : Tasks} (h : s'.task = s.task) (x : Nat) : s'.Live x ↔ s.Live x := by
  unfold Tasks.Live
  rw [h]

theorem forkDone (h : Kin c z i) (ht : c.Linked t) (hpc : c.pc t = .forking p) :
    Kin ({ c with tasks := ProcessTree.forkDone t p c.tasks }.goto t .run) z i := by
  obtain ⟨hlive, hnot, -, -⟩ := h.half hpc
  obtain ⟨kids, r, hf⟩ := h.family
  obtain ⟨n, hn⟩ := bounded c r
  have htz := (h.busy t (by rw [hpc]; simp)).2
  have hfirst : (c.tasks.page t).cptr ≠ some p := fun hc => hnot (hf.cptr_some (.inl ht) hc).1
  have htask : (ProcessTree.forkDone t p c.tasks).task = c.tasks.task := by
    unfold ProcessTree.forkDone
    cases (c.tasks.page t).cptr <;> rfl
  have hpage := forkDone_page c.tasks t p
  have hlinked : ∀ x, (({ c with tasks := ProcessTree.forkDone t p c.tasks } : Config).goto t .run).Linked x ↔
      c.Linked x ∨ x = p := by
    intro x
    show _ ∧ ¬ _ ↔ _
    rw [h.half_done hpc]
    show (ProcessTree.forkDone t p c.tasks).Live x ∧ _ ↔ _
    rw [live_congr htask]
    constructor
    · rintro ⟨hl, hn⟩
      by_cases hxp : x = p
      · exact .inr hxp
      · exact .inl ⟨hl, fun hh => hn ⟨hh, hxp⟩⟩
    · rintro (hx | rfl)
      · exact ⟨hx.1, fun hh => hx.2 hh.1⟩
      · exact ⟨hlive, fun hh => hh.2 rfl⟩
  have hne : ∀ {x}, c.Linked x → x ≠ p := by
    rintro x hx rfl
    exact hnot hx
  have hstate : ∀ x, x ≠ p → ((ProcessTree.forkDone t p c.tasks).page x).state = (c.tasks.page x).state := by
    intro x hx
    rw [(hpage x).2.2.2, if_neg hx]
  have hpush := @hf.push _ (ProcessTree.forkDone t p c.tasks) _ _ _ _ _ _ _ ht hnot (h.live_ne_zero hlive) n
    (fun q hq => hn q hq.1) htz (fun x => (hpage x).1) (fun x => (hpage x).2.1) (fun x => (hpage x).2.2.1)
    (forkDone_ysptr c.tasks hfirst) (fun x hx => by rw [hstate x hx]) (by rw [(hpage p).2.2.2, if_pos rfl]; decide)
  apply h.next rfl
  · rw [htask]
    exact ⟨rfl, rfl⟩
  · rw [htask]
    exact h.inj
  · exact ⟨_, _, hpush.congr hlinked fun x _ => .refl _⟩
  · rw [hstate i (hne h.init_linked)]
    exact h.alive
  · intro x _ hx hxz
    rw [hlinked, hstate x (hne hx)]
    exact ⟨.inl hx, hxz⟩
  · intro x a _ hx
    exact (live_congr htask a).mpr (h.forking x a hx).1
  · intro x a _ hx
    obtain ⟨ha, hz, hpptr⟩ := h.reaping x a hx
    rw [hlinked, hstate a (hne ha), (hpage a).1, if_neg (hne ha)]
    exact ⟨.inl ha, hz, hpptr⟩
  · exact fun hrun => absurd rfl hrun
  · rintro a ⟨⟩
  · rintro a ⟨⟩

/-! ### `exit` -/

theorem exited (h : Kin c z i) {s : Tasks} {r : Nat → Nat} (ht : c.Runs t) (hpc : ∀ p, c.pc t ≠ .forking p)
    (hti : t ≠ i) (hs : Exited c.tasks c.Linked z i t r s) : Kin ({ c with tasks := s }.goto t .run) z i := by
  have hlinked : ∀ x, (({ c with tasks := s } : Config).goto t .run).Linked x ↔ c.Linked x := by
    intro x
    show _ ∧ ¬ _ ↔ _
    rw [half_goto hpc (by simp)]
    show s.Live x ∧ _ ↔ _
    rw [live_congr hs.task]
    exact .rfl
  obtain ⟨kids, hf⟩ := hs.family
  apply h.next rfl
  · rw [hs.task]
    exact ⟨rfl, rfl⟩
  · rw [hs.task]
    exact h.inj
  · exact ⟨kids, r, hf.congr hlinked fun x _ => .refl _⟩
  · exact fun hz => h.alive ((hs.zombie i hti.symm).mp hz)
  · intro x hxt hx hxz
    rw [hlinked]
    exact ⟨hx, fun hz => hxz ((hs.zombie x hxt).mp hz)⟩
  · intro x a _ hx
    exact (live_congr hs.task a).mpr (h.forking x a hx).1
  · intro x a hxt hx
    obtain ⟨ha, hz, hpptr⟩ := h.reaping x a hx
    have hat : a ≠ t := by
      rintro rfl
      rw [ht.2] at hz
      cases hz
    rw [hlinked, hs.pptr a (by rw [hpptr]; exact hxt)]
    exact ⟨ha, (hs.zombie a hat).mpr hz, hpptr⟩
  · exact fun hrun => absurd rfl hrun
  · rintro a ⟨⟩
  · rintro a ⟨⟩

/-- Whether `do_exit` comes to its end or not. -/
theorem doExit_ends (h : Kin c z i) (tty : Option Int) (ht : c.Runs t) (hpc : ∀ p, c.pc t ≠ .forking p)
    (hinit : c.tasks.task 1 ≠ some t) (hok : Clear c.tasks t) :
    (doExit t tty).Ends c.tasks (fun e => ∃ s, e = .gone s ∧ Kin ({ c with tasks := s }.goto t .run) z i)
      fun _ s => Kin ({ c with tasks := s }.goto t .run) z i := by
  obtain ⟨kids, r, hf⟩ := h.family
  have hti : t ≠ i := by
    rintro rfl
    exact hinit h.init
  have hlen : (kids t).length ≤ NR_TASKS := by
    apply length_le (hf.doubly t (.inl ht.1)).nodup
    exact fun x hx => ((hf.mem t (.inl ht.1) x).mp hx).1.1
  have hfirst : c.tasks.init = i := by
    unfold Tasks.init
    rw [h.init]
    rfl
  refine (ProcessTree.doExit_ends hf ht.1 hti hfirst hlen h.alive tty hok).weaken ?_ fun _ s hs =>
    h.exited ht hpc hti hs
  rintro e ⟨s, rfl, hs⟩
  exact ⟨s, rfl, h.exited ht hpc hti hs⟩

/-! ### `waitpid` -/

theorem wait (h : Kin c z i) (ht : c.Runs t) (hpc : c.pc t = .run)
    (hp : Reaches (fun x => (c.tasks.page x).osptr) p (c.tasks.page t).cptr) (hz : (c.tasks.page p).state = .zombie) :
    Kin (c.goto t (.reaping p)) z i := by
  obtain ⟨kids, r, hf⟩ := h.family
  have hlinked : ∀ x, (c.goto t (.reaping p)).Linked x ↔ c.Linked x := by
    intro x
    show _ ∧ ¬ (({ c with tasks := c.tasks } : Config).goto t (.reaping p)).Half x ↔ _
    rw [half_goto (by simp [hpc]) (by simp)]
    exact .rfl
  have hkid : p ∈ kids t := (hf.doubly t (.inl ht.1)).leads.mem_of_reaches hp
  obtain ⟨hlinkedp, hpptr⟩ := (hf.mem t (.inl ht.1) p).mp hkid
  apply h.next (s := c.tasks) (q := .reaping p) rfl ⟨rfl, rfl⟩ h.inj
  · exact ⟨kids, r, hf.congr hlinked fun x _ => .refl _⟩
  · exact h.alive
  · intro x _ hx hxz
    exact ⟨(hlinked x).mpr hx, hxz⟩
  · exact fun x a _ hx => (h.forking x a hx).1
  · intro x a _ hx
    rw [hlinked]
    exact h.reaping x a hx
  · intro _
    refine ⟨(hlinked t).mpr ht.1, ?_⟩
    rw [ht.2]
    decide
  · rintro a ⟨⟩
  · rintro a ⟨⟩
    exact ⟨(hlinked p).mpr hlinkedp, hz, hpptr⟩

/-- The fields after `release`. -/
theorem release_page (s : Tasks) (p nr : Nat) (x : Nat) :
    ((ProcessTree.release p nr s).page x).pptr = (s.page x).pptr ∧
    ((ProcessTree.release p nr s).page x).cptr = (if x = (s.page p).pptr ∧ (s.page p).ysptr = none then
      (s.page p).osptr else (s.page x).cptr) ∧
    ((ProcessTree.release p nr s).page x).osptr =
      (if (s.page p).ysptr = some x then (s.page p).osptr else (s.page x).osptr) ∧
    ((ProcessTree.release p nr s).page x).ysptr =
      (if (s.page p).osptr = some x then (s.page p).ysptr else (s.page x).ysptr) ∧
    ((ProcessTree.release p nr s).page x).state = (s.page x).state := by
  simp only [ProcessTree.release]
  cases (s.page p).osptr <;> cases (s.page p).ysptr <;>
    simp [Tasks.setTask, page_set, apply_ite Task.pptr, apply_ite Task.cptr,
      apply_ite Task.osptr, apply_ite Task.ysptr, apply_ite Task.state, eq_comm (a := x)]

theorem release (h : Kin c z i) {nr : Nat} (hpc : c.pc t = .reaping p) (hnr : 0 < nr ∧ nr < NR_TASKS)
    (hp : c.tasks.task nr = some p) :
    Kin ({ c with tasks := ProcessTree.release p nr c.tasks }.goto t .run) z i := by
  obtain ⟨hlinkedp, hz, hpptr⟩ := h.reaping t p hpc
  obtain ⟨kids, r, hf⟩ := h.family
  have hpi : p ≠ i := by
    rintro rfl
    exact h.alive hz
  have htask : (ProcessTree.release p nr c.tasks).task = (c.tasks.setTask nr none).task := by
    simp only [ProcessTree.release]
    cases (c.tasks.page p).osptr <;> cases (c.tasks.page p).ysptr <;> rfl
  have hpage := release_page c.tasks p nr
  have hlive := h.live_setTask hnr hp htask
  have hlinked : ∀ x, (({ c with tasks := ProcessTree.release p nr c.tasks } : Config).goto t .run).Linked x ↔
      c.Linked x ∧ x ≠ p := by
    intro x
    show _ ∧ ¬ _ ↔ _
    rw [half_goto (by simp [hpc]) (by simp)]
    show (ProcessTree.release p nr c.tasks).Live x ∧ _ ↔ _
    rw [hlive]
    exact and_right_comm
  obtain ⟨kids', hf'⟩ : ∃ kids', Family (ProcessTree.release p nr c.tasks) (fun x => c.Linked x ∧ x ≠ p) z i kids' r :=
    hf.remove hlinkedp hz hpi (fun x => (hpage x).1) (fun x => (hpage x).2.1) (fun x => (hpage x).2.2.1)
      (fun x => (hpage x).2.2.2.1) fun x => by rw [(hpage x).2.2.2.2]
  apply h.next rfl (h.setTask_first hnr hp hpi htask) (h.setTask_inj htask)
  · exact ⟨kids', r, hf'.congr hlinked fun x _ => .refl _⟩
  · rw [(hpage i).2.2.2.2]
    exact h.alive
  · intro x _ hx hxz
    rw [hlinked, (hpage x).2.2.2.2]
    refine ⟨⟨hx, ?_⟩, hxz⟩
    rintro rfl
    exact hxz hz
  · intro x a _ hx
    refine (hlive a).mpr ⟨(h.forking x a hx).1, ?_⟩
    rintro rfl
    exact hlinkedp.2 ⟨x, hx⟩
  · intro x a hxt hx
    obtain ⟨ha, haz, happtr⟩ := h.reaping x a hx
    rw [hlinked, (hpage a).2.2.2.2, (hpage a).1]
    refine ⟨⟨ha, ?_⟩, haz, happtr⟩
    rintro rfl
    exact hxt (happtr.symm.trans hpptr)
  · exact fun hrun => absurd rfl hrun
  · rintro a ⟨⟩
  · rintro a ⟨⟩

/-! ### The rest -/

theorem other (h : Kin c z i) {v : TaskState} (pgrp session : Int) (leader ptraced : Bool)
    (hv : v = .zombie ↔ (c.tasks.page t).state = .zombie) :
    Kin { c with tasks := c.tasks.set t fun x => { x with state := v, pgrp, session, leader, ptraced } } z i := by
  have hsame : ∀ x, SameLinks (c.tasks.page x)
      ((c.tasks.set t fun x => { x with state := v, pgrp, session, leader, ptraced }).page x) := by
    intro x
    rw [page_set]
    by_cases hxt : x = t
    · rw [if_pos hxt, hxt]
      exact ⟨rfl, rfl, rfl, rfl, hv⟩
    · rw [if_neg hxt]
      exact .refl _
  obtain ⟨kids, r, hf⟩ := h.family
  refine ⟨h.zero, h.init, h.inj, ⟨kids, r, hf.congr (fun _ => .rfl) fun x _ => hsame x⟩, ?_, fun x hx => ?_, h.forking,
    fun x a hx => ?_⟩
  · exact fun hz => h.alive ((hsame i).zombie.mp hz)
  · exact ⟨(h.busy x hx).1, fun hz => (h.busy x hx).2 ((hsame x).zombie.mp hz)⟩
  · obtain ⟨ha, hz, hpptr⟩ := h.reaping x a hx
    exact ⟨ha, (hsame a).zombie.mpr hz, (hsame a).pptr.trans hpptr⟩

/-- **One step** keeps the invariant. -/
theorem step (h : Kin c z i) (hstep : Step Clear c c') : Kin c' z i := by
  cases hstep with
  | fork pid ht hpc hp hzero hnr hfree => exact h.fork pid ht hpc hp hzero hnr hfree
  | forkDone ht hpc => exact h.forkDone ht hpc
  | forkFail ht hpc hnr hp => exact h.forkFail hpc hnr hp
  | exit tty ht hpc hinit hok hs => exact (h.doExit_ends tty ht hpc hinit hok).ok_of hs
  | exitGone tty ht hpc hinit hok hs =>
      obtain ⟨s, he, hs'⟩ := (h.doExit_ends tty ht hpc hinit hok).error_of hs
      cases he
      exact hs'
  | wait ht hpc hp hz => exact h.wait ht hpc hp hz
  | release ht hpc hnr hp => exact h.release hpc hnr hp
  | other v pgrp session leader ptraced hv => exact h.other pgrp session leader ptraced hv

/-- So does a run. -/
theorem run (h : Kin c z i) (hr : ReflTransGen (Step Clear) c c') : Kin c' z i := by
  induction hr with
  | refl => exact h
  | tail _ hstep ih => exact ih.step hstep

/-- The invariant gives the tree, when nobody forks. -/
theorem ptree (h : Kin c z i) (hnone : ∀ t p, c.pc t ≠ .forking p) : Ptree c.tasks := by
  obtain ⟨kids, r, hf⟩ := h.family
  have hlinked : ∀ {x}, c.tasks.Live x → c.Linked x := fun hx => ⟨hx, fun ⟨t, ht⟩ => hnone t _ ht⟩
  have hfound : ∀ {x}, c.Linked x → ∃ nr < NR_TASKS, c.tasks.task nr = some x := by
    rintro x ⟨⟨nr, -, hlt, hnr⟩, -⟩
    exact ⟨nr, hlt, hnr⟩
  have hparent : ∀ {t}, c.tasks.Live t ∨ c.tasks.task 0 = some t → c.Linked t ∨ t = z := by
    rintro t (ht | ht)
    · exact .inl (hlinked ht)
    · exact .inr (Option.some.inj (ht.symm.trans h.zero))
  refine ⟨fun p hp => ?_, fun t ht => ?_, fun p q hp hq => ?_, fun t p ht hc => ?_, fun p hp hpi => ?_,
    fun p hp => hf.zombie p (hlinked hp)⟩
  · have hp := hlinked hp
    refine ⟨?_, fun q hq => hfound (hf.cptr_some (.inl hp) hq).1, fun q hq => hfound (hf.ysptr_some hp hq).1,
      fun q hq => hfound (hf.osptr_some hp hq).1, hf.pptr_ne hp, fun hc => ?_, fun hy => ?_, hf.osptr_ne hp,
      fun q hq => ?_, fun q hq => ?_, fun q hq => (hf.cptr_some (.inl hp) hq).2⟩
    · rcases (hf.mem_kids hp).1 with hL | hz
      · exact hfound hL
      · exact ⟨0, by decide, by rw [hz]; exact h.zero⟩
    · exact hf.pptr_ne hp (hf.cptr_some (.inl hp) hc).2.1
    · exact hf.osptr_ne hp (hf.ysptr_some hp hy).2.2
    · obtain ⟨-, hpptr, hback⟩ := hf.osptr_some hp hq
      exact ⟨hpptr.symm, hback⟩
    · obtain ⟨-, hpptr, hback⟩ := hf.ysptr_some hp hq
      exact ⟨hpptr.symm, hback⟩
  · have hd := hf.doubly t (hparent ht)
    refine ⟨kids t, hd.leads, hd.nodup, fun p => ?_⟩
    rw [hf.mem t (hparent ht) p]
    exact and_congr_left fun _ => ⟨And.left, hlinked⟩
  · exact ⟨fun ho => (hf.osptr_some (hlinked hp) ho).2.2, fun hy => (hf.ysptr_some (hlinked hq) hy).2.2⟩
  · exact (hf.cptr_some (hparent ht) hc).2.2
  · refine (hf.parent p (hlinked hp) ?_).1.1
    rintro rfl
    exact hpi h.init

end Kin

/-- **The process tree.** In every run from the boot in which no task that is traced orphans its own process group when
it exits, the links are a tree whenever no task is in the middle of a `fork`. -/
theorem process_tree {c₀ c : Config} {z i : Nat} (hb : Boot c₀ z i) (hr : ReflTransGen (Step Clear) c₀ c)
    (hnone : ∀ t p, c.pc t ≠ .forking p) : Ptree c.tasks :=
  ((Kin.boot hb).run hr).ptree hnone

/-! ## A task that is traced -/

/-- Task 0 and init, in the pages 0 and 1. -/
def booted : Config where
  tasks :=
    { task := fun nr => if nr ≤ 1 then some nr else none
      page := fun p =>
        { state := .running, pid := p, pgrp := p, session := p, leader := p == 1, ptraced := false, pptr := 0,
          cptr := if p = 0 then some 1 else none, ysptr := none, osptr := none } }
  pc := fun _ => .run

theorem booted_boot : Boot booted 0 1 :=
  ⟨rfl, rfl, by decide, fun _ hnr => if_neg (Nat.not_le.mpr hnr), fun _ => rfl, by decide, rfl, ⟨rfl, rfl, rfl⟩, rfl⟩

/-- Nobody is half-way, and each task is in the page with the number of its slot. -/
structure Idle (c : Config) : Prop where
  run : ∀ t, c.pc t = .run
  slot : ∀ nr p, c.tasks.task nr = some p → nr = p

/-- A whole `fork`. -/
def forked (t p : Nat) (c : Config) : Config :=
  let c := { c with tasks := fork t p p p c.tasks }.goto t (.forking p)
  { c with tasks := forkDone t p c.tasks }.goto t .run

section
variable {c : Config} {t p : Nat}

theorem Idle.runs (h : Idle c) (ht : 0 < t ∧ t < NR_TASKS) (htask : c.tasks.task t = some t)
    (hstate : (c.tasks.page t).state = .running) : c.Runs t := by
  refine ⟨⟨⟨t, ht.1, ht.2, htask⟩, ?_⟩, hstate⟩
  rintro ⟨x, hx⟩
  rw [h.run x] at hx
  cases hx

/-- A whole `fork` is two steps. -/
theorem forked_run (ok : Tasks → Nat → Prop) (h : Idle c) (ht : c.Runs t) (hp : 0 < p ∧ p < NR_TASKS)
    (hfree : c.tasks.task p = none) :
    Idle (forked t p c) ∧ ReflTransGen (Step ok) c (forked t p c) := by
  have hlive : ¬ c.tasks.Live p := by
    rintro ⟨nr, -, -, hnr⟩
    rw [h.slot nr p hnr, hfree] at hnr
    cases hnr
  have hzero : c.tasks.task 0 ≠ some p := fun hz => Nat.ne_of_lt hp.1 (h.slot 0 p hz)
  have hfork : Step ok c ({ c with tasks := fork t p p p c.tasks }.goto t (.forking p)) :=
    .fork p ht (h.run t) hlive hzero hp hfree
  have hpc : ∀ x, (({ c with tasks := fork t p p p c.tasks } : Config).goto t (.forking p)).pc x =
      if x = t then .forking p else c.pc x := fun _ => rfl
  have htask : (forked t p c).tasks.task = (fork t p p p c.tasks).task := by
    show (forkDone t p (fork t p p p c.tasks)).task = _
    unfold forkDone
    cases ((fork t p p p c.tasks).page t).cptr <;> rfl
  have hlinked : (({ c with tasks := fork t p p p c.tasks } : Config).goto t (.forking p)).Linked t := by
    obtain ⟨⟨⟨nr, hpos, hlt, hnr⟩, -⟩, -⟩ := ht
    have hne : nr ≠ p := by
      rintro rfl
      rw [hfree] at hnr
      cases hnr
    refine ⟨⟨nr, hpos, hlt, (if_neg hne).trans hnr⟩, ?_⟩
    rintro ⟨x, hx⟩
    rw [hpc] at hx
    split at hx
    · cases hx
      exact hne (h.slot nr _ hnr)
    · rw [h.run x] at hx
      cases hx
  refine ⟨⟨fun x => ?_, fun nr q hq => ?_⟩, (ReflTransGen.single hfork).tail (.forkDone hlinked ?_)⟩
  · show (if x = t then Pc.run else if x = t then .forking p else c.pc x) = .run
    split
    · rfl
    · exact h.run x
  · rw [htask] at hq
    have hq' : (if nr = p then some p else c.tasks.task nr) = some q := hq
    split at hq'
    · rename_i hnr
      exact hnr.trans (Option.some.inj hq')
    · exact h.slot nr q hq'
  · rw [hpc, if_pos rfl]

end

theorem booted_idle : Idle booted := by
  refine ⟨fun _ => rfl, fun nr p hp => ?_⟩
  have hp' : (if nr ≤ 1 then some nr else none) = some p := hp
  split at hp'
  · exact Option.some.inj hp'
  · cases hp'

theorem booted_runs : booted.Runs 1 := booted_idle.runs (by decide) rfl rfl

/-- A run with a `fork`. -/
theorem process_tree_forked : Ptree (forked 1 2 booted).tasks := by
  have h := forked_run Clear (p := 2) booted_idle booted_runs (by decide) rfl
  apply process_tree booted_boot h.2
  intro t p
  rw [h.1.run t]
  simp

/-- What `ptrace`, `setpgid` or a signal make of a task. -/
def become (t : Nat) (v : TaskState) (pgrp session : Int) (ptraced : Bool) (c : Config) : Config :=
  { c with tasks := c.tasks.set t fun x => { x with state := v, pgrp, session, leader := false, ptraced } }

/-- The shell, in page 2, has made a task, in page 3, which has a process group of its own and is traced. -/
def traced : Config := become 3 .running 3 1 true (forked 2 3 (forked 1 2 booted))

/-- The child of that task, in page 4, has stopped. -/
def stoppedJob : Config := become 4 .stopped 3 1 true (forked 3 4 traced)

theorem stoppedJob_run : Idle stoppedJob ∧ ReflTransGen (Step fun _ _ => True) booted stoppedJob := by
  have h₂ := forked_run (fun _ _ => True) (p := 2) booted_idle booted_runs (by decide) rfl
  have h₃ := forked_run (fun _ _ => True) (p := 3) h₂.1 (h₂.1.runs (t := 2) (by decide) rfl rfl) (by decide) rfl
  have htraced : Idle traced := ⟨h₃.1.run, h₃.1.slot⟩
  have h₄ := forked_run (fun _ _ => True) (p := 4) htraced (htraced.runs (t := 3) (by decide) rfl rfl)
    (by decide) rfl
  refine ⟨⟨h₄.1.run, h₄.1.slot⟩, ?_⟩
  apply ((h₂.2.trans h₃.2).tail _).trans h₄.2 |>.tail
  · exact .other .stopped 3 1 false true (by decide)
  · exact .other .running 3 1 false true (by decide)

set_option maxRecDepth 10000 in
/-- The traced task gets SIGHUP from its own `do_exit`, and is gone. -/
theorem doExit_gone : ∃ s, doExit 3 none stoppedJob.tasks = .error (.gone s) ∧ s.task = stoppedJob.tasks.task ∧
    (s.page 2).cptr = some 3 ∧ (s.page 2).state = .running ∧ (s.page 3).state = .zombie ∧
    (s.page 4).pptr = 3 :=
  ⟨_, rfl, rfl, rfl, rfl, rfl, rfl⟩

/-- **A task that is traced** and orphans its own process group leaves its children behind: the shell, which waits for
it, gives the page back that they point to. -/
theorem exit_traced : ∃ c₀ c z i, Boot c₀ z i ∧ ReflTransGen (Step fun _ _ => True) c₀ c ∧
    (∀ t p, c.pc t ≠ .forking p) ∧ ¬ Ptree c.tasks := by
  obtain ⟨s, hs, htask, hcptr, hstate, hdead, hchild⟩ := doExit_gone
  obtain ⟨hidle, hrun⟩ := stoppedJob_run
  -- the task exits, and is gone
  have hexit : Step (fun _ _ => True) stoppedJob ({ stoppedJob with tasks := s }.goto 3 .run) := by
    refine .exitGone none (hidle.runs (by decide) rfl rfl) (fun p => ?_) (by decide) trivial hs
    rw [hidle.run 3]
    simp
  have hgone : Idle ({ stoppedJob with tasks := s }.goto 3 .run) := by
    refine ⟨fun x => ?_, fun nr p hp => hidle.slot nr p (htask ▸ hp)⟩
    show (if x = 3 then Pc.run else stoppedJob.pc x) = .run
    rw [hidle.run x, ite_self]
  -- the shell waits for it
  have hshell : ({ stoppedJob with tasks := s }.goto 3 .run : Config).Runs 2 :=
    hgone.runs (by decide) (htask ▸ rfl) hstate
  have hwait : Step (fun _ _ => True) ({ stoppedJob with tasks := s }.goto 3 .run)
      (({ stoppedJob with tasks := s }.goto 3 .run : Config).goto 2 (.reaping 3)) := by
    refine .wait hshell (hgone.run 2) ?_ hdead
    show Reaches _ 3 (s.page 2).cptr
    rw [hcptr]
    exact .here
  have hrelease : Step (fun _ _ => True) (({ stoppedJob with tasks := s }.goto 3 .run : Config).goto 2 (.reaping 3))
      ({ (({ stoppedJob with tasks := s }.goto 3 .run : Config).goto 2 (.reaping 3)) with
        tasks := release 3 3 s }.goto 2 .run) := by
    refine @Step.release _ _ 2 3 3 ⟨hshell.1.1, ?_⟩ rfl (by decide) (htask ▸ rfl)
    rintro ⟨x, hx⟩
    have hx' : (if x = 2 then Pc.reaping 3 else ({ stoppedJob with tasks := s }.goto 3 .run : Config).pc x) =
        .forking 2 := hx
    rw [hgone.run x] at hx'
    split at hx' <;> cases hx'
  refine ⟨booted, _, 0, 1, booted_boot, ((hrun.tail hexit).tail hwait).tail hrelease, fun t p ht => ?_,
    fun hptree => ?_⟩
  · have ht' : (if t = 2 then Pc.run else if t = 2 then .reaping 3 else
        ({ stoppedJob with tasks := s }.goto 3 .run : Config).pc t) = .forking p := ht
    rw [hgone.run t] at ht'
    split at ht'
    · cases ht'
    · cases ht'
  · -- nobody is in the page of the parent
    have htask' : ∀ x, (release 3 3 s).task x = if x = 3 then none else stoppedJob.tasks.task x := by
      intro x
      rw [← htask]
      simp only [release]
      cases (s.page 3).osptr <;> cases (s.page 3).ysptr <;> rfl
    have hptree : Ptree (release 3 3 s) := hptree
    have hparent := hptree.parent 4 ⟨4, by decide, by decide, (htask' 4).trans rfl⟩ fun hone => by
      cases (htask' 1).symm.trans hone
    rw [(Kin.release_page s 3 3 4).1, hchild] at hparent
    obtain ⟨nr, -, -, hnr⟩ := hparent
    rw [htask'] at hnr
    split at hnr
    · cases hnr
    · rename_i hne
      exact hne (hidle.slot nr 3 hnr)

end ProcessTree
end Sched
end Linux095
