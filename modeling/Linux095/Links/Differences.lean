import Mathlib.Algebra.BigOperators.Group.List.Basic
import Mathlib.Tactic.Ring

/-!
# `Links.Differences` — queues of differences

Each entry of such a queue says how long after the one in front of it it is due, and the first one how long after
now. So time passes for all of them when it passes for the first.

* `dues` — when the entries are due, and `total`, how far the queue reaches;
* `dues_append`, `dues_tick`, `total_dues_add` — what an entry at the end, the time, and a delay do to them.
-/

namespace Links

variable {α : Type}

/-- When the entries are due. -/
def dues (now : Int) : List (Int × α) → List (Int × α)
  | [] => []
  | (d, a) :: l => (now + d, a) :: dues (now + d) l

def total (l : List (Int × α)) : Int := (l.map Prod.fst).sum

@[simp] theorem dues_nil (now : Int) : dues now ([] : List (Int × α)) = [] := rfl

@[simp] theorem dues_cons (now d : Int) (a : α) (l : List (Int × α)) :
    dues now ((d, a) :: l) = (now + d, a) :: dues (now + d) l := rfl

@[simp] theorem total_nil : total ([] : List (Int × α)) = 0 := rfl

@[simp] theorem total_cons (d : Int) (a : α) (l : List (Int × α)) : total ((d, a) :: l) = d + total l := rfl

@[simp] theorem length_dues (now : Int) (l : List (Int × α)) : (dues now l).length = l.length := by
  induction l generalizing now with
  | nil => rfl
  | cons x l ih => rw [dues, List.length_cons, ih, List.length_cons]

theorem dues_append (now : Int) (l l' : List (Int × α)) :
    dues now (l ++ l') = dues now l ++ dues (now + total l) l' := by
  induction l generalizing now with
  | nil => simp
  | cons x l ih =>
      rw [List.cons_append, dues, ih, total_cons, ← add_assoc]
      rfl

/-- Time passes. -/
theorem dues_tick (now d : Int) (a : α) (l : List (Int × α)) :
    dues (now + 1) ((d - 1, a) :: l) = dues now ((d, a) :: l) := by
  have h : now + 1 + (d - 1) = now + d := by ring
  rw [dues_cons, dues_cons, h]

/-- What is `k` later at the front is `k` later at each entry. -/
theorem total_dues_add (now k : Int) (l : List (Int × α)) :
    total (dues (now + k) l) = total (dues now l) + k * l.length := by
  induction l generalizing now with
  | nil => simp
  | cons x l ih =>
      have h : now + k + x.1 = now + x.1 + k := by ring
      rw [dues_cons, dues_cons, total_cons, total_cons, h, ih, List.length_cons]
      push_cast
      ring

/-- Nothing is due later than the last entry. -/
theorem total_mem_dues (now : Int) {l : List (Int × α)} (h : l ≠ []) : ∃ a, (now + total l, a) ∈ dues now l := by
  induction l generalizing now with
  | nil => exact absurd rfl h
  | cons x l ih =>
      obtain ⟨d, a⟩ := x
      cases l with
      | nil => exact ⟨a, by simp⟩
      | cons y l =>
          obtain ⟨b, hb⟩ := ih (now + d) (List.cons_ne_nil y l)
          refine ⟨b, List.mem_cons_of_mem _ ?_⟩
          rw [total_cons, ← add_assoc]
          exact hb

/-- With positive differences everything is due later than now. -/
theorem lt_of_mem_dues {now : Int} {l : List (Int × α)} (h : ∀ x ∈ l, 0 < x.1) {x : Int × α} (hx : x ∈ dues now l) :
    now < x.1 := by
  induction l generalizing now with
  | nil => cases hx
  | cons y l ih =>
      have hy : 0 < y.1 := h y List.mem_cons_self
      rcases List.mem_cons.1 hx with rfl | hx
      · exact lt_add_of_pos_right now hy
      · have hlt := ih (fun z hz => h z (List.mem_cons_of_mem _ hz)) hx
        omega

end Links
