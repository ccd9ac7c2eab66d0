import Linux095.Links.Singly

/-!
# `Links.Doubly` — doubly linked lists

* `Doubly` — the nodes of a list, where each points to the one after it and to the one before;
* `Doubly.push`, `Doubly.remove`, `Doubly.append` — a node comes first, goes, and two lists become one.

The results are about any `next'` and `prev'` that differ from `next` and `prev` where they should.
-/

namespace Links

variable {α : Type}

/-- From `p` on `next` leads through `l`, and `prev` leads back. -/
structure Doubly (next prev : α → Option α) (p : Option α) (l : List α) : Prop where
  head : p = l.head?
  nodup : l.Nodup
  links : ∀ l₁ a l₂, l = l₁ ++ a :: l₂ → next a = l₂.head? ∧ prev a = l₁.getLast?

namespace Doubly

variable {next prev next' prev' : α → Option α} {p q : Option α} {l m : List α} {a b r : α}

theorem nil : Doubly next prev none [] :=
  ⟨rfl, List.nodup_nil, fun _ _ _ h => absurd h (by simp)⟩

theorem singleton (hnext : next a = none) (hprev : prev a = none) : Doubly next prev (some a) [a] := by
  refine ⟨rfl, List.nodup_singleton a, fun l₁ b l₂ hl => ?_⟩
  cases l₁ with
  | nil =>
      obtain ⟨rfl, rfl⟩ := List.cons.inj hl
      exact ⟨hnext, hprev⟩
  | cons c l₁ => exact absurd (List.cons.inj hl).2 (by simp)

theorem congr (h : Doubly next prev p l) (hnext : ∀ a ∈ l, next' a = next a) (hprev : ∀ a ∈ l, prev' a = prev a) :
    Doubly next' prev' p l := by
  refine ⟨h.head, h.nodup, fun l₁ a l₂ hl => ?_⟩
  have ha : a ∈ l := by
    rw [hl]
    simp
  rw [hnext a ha, hprev a ha]
  exact h.links l₁ a l₂ hl

theorem leads (h : Doubly next prev p l) : Leads next p l := by
  rw [h.head]
  have htail : ∀ l₁ l₂, l = l₁ ++ l₂ → Leads next l₂.head? l₂ := by
    intro l₁ l₂
    induction l₂ generalizing l₁ with
    | nil => exact fun _ => .nil
    | cons a l₂ ih =>
        intro hl
        apply Leads.cons
        rw [(h.links l₁ a l₂ hl).1]
        exact ih (l₁ ++ [a]) (by simp [hl])
  exact htail [] l rfl

/-- The one after is in the list, and points back. -/
theorem next_some (h : Doubly next prev p l) (ha : a ∈ l) (hn : next a = some b) : b ∈ l ∧ prev b = some a := by
  obtain ⟨l₁, l₂, hl⟩ := List.append_of_mem ha
  rw [(h.links l₁ a l₂ hl).1] at hn
  obtain ⟨l₃, rfl⟩ : ∃ l₃, l₂ = b :: l₃ := by
    cases l₂ with
    | nil => cases hn
    | cons c l₃ =>
        cases hn
        exact ⟨l₃, rfl⟩
  have hb := (h.links (l₁ ++ [a]) b l₃ (by simp [hl])).2
  rw [List.getLast?_concat] at hb
  exact ⟨by rw [hl]; simp, hb⟩

theorem next_ne (h : Doubly next prev p l) (ha : a ∈ l) : next a ≠ some a := by
  intro hn
  obtain ⟨l₁, l₂, hl⟩ := List.append_of_mem ha
  rw [(h.links l₁ a l₂ hl).1] at hn
  have hnodup := h.nodup
  rw [hl, List.nodup_append] at hnodup
  exact (List.nodup_cons.mp hnodup.2.1).1 (List.mem_of_head? hn)

/-- The one before is in the list, and points here. -/
theorem prev_some (h : Doubly next prev p l) (ha : a ∈ l) (hp : prev a = some b) : b ∈ l ∧ next b = some a := by
  obtain ⟨l₁, l₂, hl⟩ := List.append_of_mem ha
  rw [(h.links l₁ a l₂ hl).2] at hp
  obtain ⟨l₀, rfl⟩ := List.getLast?_eq_some_iff.mp hp
  have hb := (h.links l₀ b (a :: l₂) (by simp [hl])).1
  exact ⟨by rw [hl]; simp, hb⟩

/-- The first one has none before it, and is alone in that. -/
theorem prev_none_iff (h : Doubly next prev p l) (ha : a ∈ l) : prev a = none ↔ p = some a := by
  obtain ⟨l₁, l₂, hl⟩ := List.append_of_mem ha
  rw [(h.links l₁ a l₂ hl).2, h.head, List.getLast?_eq_none_iff]
  constructor
  · rintro rfl
    rw [hl]
    rfl
  · intro hhead
    cases l₁ with
    | nil => rfl
    | cons c l₁ =>
        rw [hl] at hhead
        cases hhead
        have hnodup := h.nodup
        rw [hl, List.cons_append, List.nodup_cons] at hnodup
        exact absurd (by simp) hnodup.1

/-- `r` comes first. -/
theorem push (h : Doubly next prev p l) (hr : r ∉ l) (hnext : ∀ a ∈ l, next' a = next a) (hnr : next' r = p)
    (hprev : ∀ a ∈ l, p ≠ some a → prev' a = prev a) (hph : ∀ a, p = some a → prev' a = some r)
    (hpr : prev' r = none) : Doubly next' prev' (some r) (r :: l) := by
  refine ⟨rfl, List.nodup_cons.mpr ⟨hr, h.nodup⟩, fun l₁ a l₂ hl => ?_⟩
  cases l₁ with
  | nil =>
      obtain ⟨rfl, rfl⟩ := List.cons.inj hl
      exact ⟨hnr.trans h.head, hpr⟩
  | cons c l₁ =>
      obtain ⟨hc, htail⟩ := List.cons.inj hl
      have hl : l = l₁ ++ a :: l₂ := htail
      rw [← hc]
      have ha : a ∈ l := by
        rw [hl]
        simp
      obtain ⟨hn, hp⟩ := h.links l₁ a l₂ hl
      refine ⟨(hnext a ha).trans hn, ?_⟩
      by_cases hpa : p = some a
      · have hnil : l₁ = [] := by
          rw [← List.getLast?_eq_none_iff, ← hp]
          exact (h.prev_none_iff ha).mpr hpa
        rw [hph a hpa, hnil]
        rfl
      · have hne : l₁ ≠ [] := by
          rintro rfl
          apply hpa
          rw [h.head, hl]
          rfl
        rw [hprev a ha hpa, hp, List.getLast?_cons_of_ne_nil hne]

/-- `r` goes: the nodes before it and behind it are linked. -/
theorem remove_append {m₁ m₂ : List α} (h : Doubly next prev p (m₁ ++ r :: m₂))
    (hq : q = if prev r = none then next r else p)
    (hnext : ∀ a ∈ m₁ ++ r :: m₂, prev r ≠ some a → next' a = next a) (hnr : ∀ a, prev r = some a → next' a = next r)
    (hprev : ∀ a ∈ m₁ ++ r :: m₂, next r ≠ some a → prev' a = prev a)
    (hpr : ∀ a, next r = some a → prev' a = prev r) : Doubly next' prev' q (m₁ ++ m₂) := by
  obtain ⟨hnextr, hprevr⟩ := h.links m₁ r m₂ rfl
  have hnodup := h.nodup
  rw [List.nodup_append] at hnodup
  obtain ⟨hnd₁, hnd₂, hdisj⟩ := hnodup
  rw [List.nodup_cons] at hnd₂
  have hdisj' : ∀ a ∈ m₁, a ∉ m₂ := fun a h₁ h₂ => hdisj a h₁ a (List.mem_cons_of_mem _ h₂) rfl
  -- behind `r`
  have hbehind : ∀ l₁ a l₂, m₂ = l₁ ++ a :: l₂ → next' a = l₂.head? ∧ prev' a = (m₁ ++ l₁).getLast? := by
    intro l₁ a l₂ hm
    have ha : a ∈ m₂ := by
      rw [hm]
      simp
    obtain ⟨hn, hp⟩ := h.links (m₁ ++ r :: l₁) a l₂ (by simp [hm])
    have hal : a ∈ m₁ ++ r :: m₂ := by simp [ha]
    constructor
    · rw [hnext a hal, hn]
      rw [hprevr]
      exact fun hlast => hdisj' a (List.mem_of_getLast? hlast) ha
    · cases l₁ with
      | nil =>
          rw [hpr a (by rw [hnextr, hm]; rfl), hprevr, List.append_nil]
      | cons c l₁ =>
          have hca : c ≠ a := by
            rintro rfl
            have := hnd₂.2
            rw [hm, List.cons_append, List.nodup_cons] at this
            exact this.1 (by simp)
          rw [hprev a hal (by rw [hnextr, hm]; simpa using hca), hp]
          simp [List.getLast?_append]
  refine ⟨?_, ?_, fun l₁ a l₂ hm => ?_⟩
  · rw [hq, hprevr, hnextr, h.head]
    cases m₁ <;> simp
  · rw [List.nodup_append]
    exact ⟨hnd₁, hnd₂.2, fun a h₁ b h₂ => fun hab => hdisj' a h₁ (hab ▸ h₂)⟩
  · rcases List.append_eq_append_iff.mp hm with ⟨as, rfl, hm₂⟩ | ⟨bs, hm₁, hl₂⟩
    · exact hbehind as a l₂ hm₂
    · cases bs with
      | nil =>
          have hm₂ : m₂ = [] ++ a :: l₂ := hl₂.symm
          rw [List.append_nil] at hm₁
          have hres := hbehind [] a l₂ hm₂
          rw [List.append_nil, hm₁] at hres
          exact hres
      | cons c bs =>
          obtain ⟨rfl, rfl⟩ := List.cons.inj hl₂
          have ha : a ∈ m₁ := by
            rw [hm₁]
            simp
          have hal : a ∈ m₁ ++ r :: m₂ := by simp [ha]
          obtain ⟨hn, hp⟩ := h.links l₁ a (bs ++ r :: m₂) (by simp [hm₁])
          constructor
          · cases bs with
            | nil =>
                rw [hnr a (by rw [hprevr, hm₁, List.getLast?_concat]), hnextr]
                rfl
            | cons d bs =>
                rw [hnext a hal, hn]
                · rfl
                · rw [hprevr, hm₁]
                  intro hlast
                  have hlast : a ∈ d :: bs := by
                    rw [List.getLast?_append, List.getLast?_cons_cons] at hlast
                    exact List.mem_of_getLast? (by simpa using hlast)
                  rw [hm₁, List.nodup_append] at hnd₁
                  exact (List.nodup_cons.mp hnd₁.2.1).1 hlast
          · rw [hprev a hal, hp]
            rw [hnextr]
            exact fun hhead => hdisj' a ha (List.mem_of_head? hhead)

/-- `r` goes. -/
theorem remove (h : Doubly next prev p l) (hr : r ∈ l) (hq : q = if prev r = none then next r else p)
    (hnext : ∀ a ∈ l, prev r ≠ some a → next' a = next a) (hnr : ∀ a, prev r = some a → next' a = next r)
    (hprev : ∀ a ∈ l, next r ≠ some a → prev' a = prev a) (hpr : ∀ a, next r = some a → prev' a = prev r) :
    ∃ m, Doubly next' prev' q m ∧ ∀ a, a ∈ m ↔ a ∈ l ∧ a ≠ r := by
  obtain ⟨m₁, m₂, rfl⟩ := List.append_of_mem hr
  refine ⟨m₁ ++ m₂, h.remove_append hq hnext hnr hprev hpr, fun a => ?_⟩
  have hnot : r ∉ m₁ ++ m₂ := (List.nodup_middle.1 h.nodup).notMem
  rw [List.mem_append, List.mem_append, List.mem_cons]
  constructor
  · intro ha
    exact ⟨ha.imp_right .inr, fun hc => hnot (hc ▸ List.mem_append.2 ha)⟩
  · rintro ⟨ha, hne⟩
    exact ha.imp_right fun ha => ha.resolve_left hne

/-- The nodes of `m` come behind `b`, the last one of `l`. -/
theorem append (h : Doubly next prev p l) (h' : Doubly next prev q m) (hdisj : ∀ a ∈ l, a ∉ m)
    (hb : l.getLast? = some b) (hnext : ∀ a ∈ l, a ≠ b → next' a = next a) (hnb : next' b = q)
    (hprev : ∀ a ∈ l, prev' a = prev a) (hnm : ∀ a ∈ m, next' a = next a)
    (hpm : ∀ a ∈ m, q ≠ some a → prev' a = prev a) (hpq : ∀ a, q = some a → prev' a = some b) :
    Doubly next' prev' p (l ++ m) := by
  obtain ⟨l₀, rfl⟩ := List.getLast?_eq_some_iff.mp hb
  have hnodup := h.nodup
  refine ⟨?_, ?_, fun l₁ a l₂ hm => ?_⟩
  · rw [h.head]
    cases l₀ <;> rfl
  · rw [List.nodup_append]
    exact ⟨h.nodup, h'.nodup, fun a ha c hc hac => hdisj a ha (hac ▸ hc)⟩
  · rcases List.append_eq_append_iff.mp hm with ⟨as, rfl, hm₂⟩ | ⟨bs, hm₁, hl₂⟩
    · -- in `m`
      have ha : a ∈ m := by
        rw [hm₂]
        simp
      obtain ⟨hn, hp⟩ := h'.links as a l₂ hm₂
      refine ⟨(hnm a ha).trans hn, ?_⟩
      cases as with
      | nil =>
          rw [hpq a (by rw [h'.head, hm₂]; rfl)]
          simp
      | cons c as =>
          have hca : c ≠ a := by
            rintro rfl
            have := h'.nodup
            rw [hm₂, List.cons_append, List.nodup_cons] at this
            exact this.1 (by simp)
          rw [hpm a ha (by rw [h'.head, hm₂]; simpa using hca), hp, List.getLast?_append,
            List.getLast?_eq_some_getLast (List.cons_ne_nil c as)]
          rfl
    · cases bs with
      | nil =>
          have hm₂ : m = [] ++ a :: l₂ := hl₂.symm
          have ha : a ∈ m := by
            rw [hm₂]
            simp
          obtain ⟨hn, -⟩ := h'.links [] a l₂ hm₂
          refine ⟨(hnm a ha).trans hn, ?_⟩
          rw [hpq a (by rw [h'.head, hm₂]; rfl)]
          rw [List.append_nil] at hm₁
          rw [← hm₁]
          simp
      | cons c bs =>
          obtain ⟨rfl, rfl⟩ := List.cons.inj hl₂
          have ha : a ∈ l₀ ++ [b] := by
            rw [hm₁]
            simp
          obtain ⟨hn, hp⟩ := h.links l₁ a bs hm₁
          refine ⟨?_, (hprev a ha).trans hp⟩
          cases bs with
          | nil =>
              have hab : a = b := by
                have hlast := congrArg List.getLast? hm₁
                simpa using hlast.symm
              rw [hab, hnb, h'.head]
              rfl
          | cons d bs =>
              have hab : a ≠ b := by
                rintro rfl
                have hlast : a ∈ d :: bs := by
                  have hlast := congrArg List.getLast? hm₁
                  rw [List.getLast?_concat, List.getLast?_append, List.getLast?_cons_cons] at hlast
                  exact List.mem_of_getLast? (by simpa using hlast.symm)
                rw [hm₁, List.nodup_append] at hnodup
                exact (List.nodup_cons.mp hnodup.2.1).1 hlast
              rw [hnext a ha hab, hn]
              rfl

end Doubly

end Links
