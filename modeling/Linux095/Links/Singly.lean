import Mathlib.Data.List.Nodup
import Mathlib.Logic.Function.Basic

/-!
# `Links.Singly` — singly linked lists

* `Leads` — the nodes that a pointer leads to;
* `Leads.insert`, `Leads.push`, `Leads.unlink`, `Leads.congr` — a node is linked in or taken out, and the others are
  left alone;
* `search` — a search along the pointers, and what it finds;
* `Leads.unique` — what a pointer leads to is one list;
* `Reaches` — one of the nodes that a pointer leads to.
-/

namespace Links

variable {α : Type}

/-- Following `next` from `p` on leads through the nodes of `l`, and then to the end. -/
inductive Leads (next : α → Option α) : Option α → List α → Prop
  | nil : Leads next none []
  | cons {a : α} {l : List α} (h : Leads next (next a) l) : Leads next (some a) (a :: l)

namespace Leads

variable {next next' : α → Option α} {p : Option α} {l l' : List α}

theorem head (h : Leads next p l) : p = l.head? := by
  cases h with
  | nil => rfl
  | cons h => rfl

theorem congr (h : Leads next p l) (hnext : ∀ a ∈ l, next' a = next a) : Leads next' p l := by
  induction h with
  | nil => exact .nil
  | cons h ih =>
      apply Leads.cons
      rw [hnext _ List.mem_cons_self]
      exact ih fun a ha => hnext a (List.mem_cons_of_mem _ ha)

theorem unique (h : Leads next p l) (h' : Leads next p l') : l = l' := by
  induction h generalizing l' with
  | nil =>
      cases h'
      rfl
  | cons h ih =>
      cases h' with
      | cons h' => rw [ih h']

theorem of_cons {a : α} (h : Leads next p (a :: l)) : p = some a ∧ Leads next (next a) l := by
  cases h with
  | cons h => exact ⟨rfl, h⟩

/-- A node `r` is linked in after `a`. -/
theorem insert [DecidableEq α] {l₁ l₂ : List α} {a r : α} (h : Leads next p (l₁ ++ a :: l₂))
    (hnodup : (l₁ ++ a :: l₂).Nodup) (hr : r ∉ l₁ ++ a :: l₂) :
    Leads (Function.update (Function.update next r (next a)) a (some r)) p (l₁ ++ a :: r :: l₂) := by
  have hra : r ≠ a := by
    rintro rfl
    exact hr (by simp)
  induction l₁ generalizing p with
  | nil =>
      obtain ⟨rfl, hrest⟩ := h.of_cons
      apply Leads.cons
      rw [Function.update_self]
      apply Leads.cons
      rw [Function.update_of_ne hra, Function.update_self]
      apply hrest.congr
      intro b hb
      have hba : b ≠ a := by
        rintro rfl
        exact (List.nodup_cons.mp hnodup).1 hb
      have hbr : b ≠ r := by
        rintro rfl
        exact hr (List.mem_cons_of_mem _ hb)
      rw [Function.update_of_ne hba, Function.update_of_ne hbr]
  | cons b l₁ ih =>
      obtain ⟨rfl, hrest⟩ := h.of_cons
      have hba : b ≠ a := by
        rintro rfl
        exact (List.nodup_cons.mp hnodup).1 (by simp)
      have hbr : b ≠ r := by
        rintro rfl
        exact hr List.mem_cons_self
      apply Leads.cons
      rw [Function.update_of_ne hba, Function.update_of_ne hbr]
      exact ih hrest (List.nodup_cons.mp hnodup).2 fun hc => hr (List.mem_cons_of_mem _ hc)

theorem push [DecidableEq α] {a : α} (h : Leads next p l) (ha : a ∉ l) :
    Leads (Function.update next a p) (some a) (a :: l) := by
  apply Leads.cons
  rw [Function.update_self]
  apply h.congr
  intro b hb
  rw [Function.update_of_ne]
  rintro rfl
  exact ha hb

theorem suffix {l₁ l₂ : List α} (h : Leads next p (l₁ ++ l₂)) : ∃ q, Leads next q l₂ := by
  induction l₁ generalizing p with
  | nil => exact ⟨p, h⟩
  | cons b l₁ ih => exact ih h.of_cons.2

/-- A list that ends has no node twice. -/
theorem notMem {a : α} (h : Leads next p (a :: l)) : a ∉ l := by
  intro ha
  obtain ⟨l₁, l₂, rfl⟩ := List.append_of_mem ha
  obtain ⟨q, hq⟩ := h.of_cons.2.suffix
  obtain ⟨rfl, -⟩ := h.of_cons
  obtain ⟨rfl, -⟩ := hq.of_cons
  have hlen := congrArg List.length (h.unique hq)
  rw [List.length_cons, List.length_append, List.length_cons] at hlen
  omega

/-- What a node of the list leads to. -/
theorem next_eq {l₁ l₂ : List α} {a : α} (h : Leads next p (l₁ ++ a :: l₂)) : next a = l₂.head? := by
  induction l₁ generalizing p with
  | nil => exact h.of_cons.2.head
  | cons c l₁ ih => exact ih h.of_cons.2

/-- The node that leads to `a` is the one before it. -/
theorem getLast_of_next {l₁ l₂ : List α} {a b : α} (h : Leads next p (l₁ ++ a :: l₂))
    (hnodup : (l₁ ++ a :: l₂).Nodup) (hb : b ∈ l₁ ++ a :: l₂) (hnext : next b = some a) : l₁.getLast? = some b := by
  obtain ⟨m₁, m₂, heq⟩ := List.append_of_mem hb
  have hhead := (heq ▸ h).next_eq
  rw [hnext] at hhead
  obtain ⟨m₃, rfl⟩ : ∃ m₃, m₂ = a :: m₃ := by
    cases m₂ with
    | nil => exact nomatch hhead
    | cons c m₃ => exact ⟨m₃, by rw [Option.some.inj hhead]⟩
  have heq' : l₁ ++ a :: l₂ = (m₁ ++ [b]) ++ a :: m₃ := by
    rw [heq, List.append_assoc]
    rfl
  have hl : l₁ = m₁ ++ [b] := by
    refine ((List.append_cons_inj_of_notMem ?_ ?_).1 heq').1
    · exact fun ha => (List.disjoint_of_nodup_append hnodup) ha List.mem_cons_self
    · exact (List.nodup_cons.1 hnodup.of_append_right).1
  rw [hl, List.getLast?_concat]

/-- The node behind `b` is taken out. -/
theorem unlink [DecidableEq α] {l₁ l₂ : List α} {a b : α} (h : Leads next p (l₁ ++ b :: a :: l₂))
    (hnodup : (l₁ ++ b :: a :: l₂).Nodup) : Leads (Function.update next b (next a)) p (l₁ ++ b :: l₂) := by
  induction l₁ generalizing p with
  | nil =>
      obtain ⟨rfl, hrest⟩ := h.of_cons
      apply Leads.cons
      rw [Function.update_self]
      apply hrest.of_cons.2.congr
      intro c hc
      rw [Function.update_of_ne]
      rintro rfl
      exact (List.nodup_cons.mp hnodup).1 (List.mem_cons_of_mem _ hc)
  | cons c l₁ ih =>
      obtain ⟨rfl, hrest⟩ := h.of_cons
      have hcb : c ≠ b := by
        rintro rfl
        exact (List.nodup_cons.mp hnodup).1 (by simp)
      apply Leads.cons
      rw [Function.update_of_ne hcb]
      exact ih hrest (List.nodup_cons.mp hnodup).2

end Leads

/-- The first node with `q` from `p` on, with the node before it, or `prev` where there is none; `n` bounds the
    number of nodes. -/
def search (next : α → Option α) (q : α → Bool) : Nat → Option α → Option α → Option (Option α × α)
  | 0, _, _ => none
  | _ + 1, _, none => none
  | n + 1, prev, some a => if q a then some (prev, a) else search next q n (some a) (next a)

/-- **What a search finds** in a list that is not longer than its bound. -/
theorem Leads.search_spec {next : α → Option α} {p : Option α} {l : List α} (q : α → Bool) {n : Nat}
    (h : Leads next p l) (hn : l.length ≤ n) (prev : Option α) :
    (∃ l₁ a l₂, l = l₁ ++ a :: l₂ ∧ q a ∧ (∀ x ∈ l₁, q x = false) ∧
        search next q n prev p = some (l₁.getLast?.or prev, a)) ∨
      ((∀ x ∈ l, q x = false) ∧ search next q n prev p = none) := by
  induction h generalizing n prev with
  | nil => exact Or.inr ⟨fun x hx => absurd hx List.not_mem_nil, by cases n <;> rfl⟩
  | @cons a l _ ih =>
      obtain ⟨n, rfl⟩ : ∃ m, n = m + 1 := ⟨n - 1, by simp at hn; omega⟩
      cases hq : q a with
      | true => exact Or.inl ⟨[], a, l, rfl, hq, fun x hx => absurd hx List.not_mem_nil, by simp [search, hq]⟩
      | false =>
          have hstep : search next q (n + 1) prev (some a) = search next q n (some a) (next a) := by
            simp [search, hq]
          rw [hstep]
          rcases ih (by simpa using hn) (some a) with ⟨l₁, b, l₂, rfl, hb, hno, hs⟩ | ⟨hno, hs⟩
          · refine Or.inl ⟨a :: l₁, b, l₂, rfl, hb, ?_, ?_⟩
            · intro x hx
              rcases List.mem_cons.mp hx with rfl | hx
              · exact hq
              · exact hno x hx
            · rw [hs, List.getLast?_cons]
              cases l₁.getLast? <;> rfl
          · refine Or.inr ⟨?_, hs⟩
            intro x hx
            rcases List.mem_cons.mp hx with rfl | hx
            · exact hq
            · exact hno x hx

/-- Following `next` from `p` on comes to `a`. -/
inductive Reaches (next : α → Option α) (a : α) : Option α → Prop
  | here : Reaches next a (some a)
  | next {b : α} (h : Reaches next a (next b)) : Reaches next a (some b)

theorem Leads.mem_of_reaches {next : α → Option α} {p : Option α} {l : List α} {a : α} (h : Leads next p l)
    (ha : Reaches next a p) : a ∈ l := by
  induction ha generalizing l with
  | here =>
      cases h with
      | cons h => exact List.mem_cons_self
  | next _ ih =>
      cases h with
      | cons h => exact List.mem_cons_of_mem _ (ih h)

end Links
