import Mathlib.Data.Fin.Basic
import Mathlib.Data.ZMod.Defs
import Mathlib.Tactic.Abel

/-!
# `Circular.Buffer` — a list in a circular buffer

A buffer of `n + 1` places, a `tail` to take from and a `head` to put to. What lies between the two is a list, and the
moves of `head` and `tail` are what one does with the ends of a list, as long as `head` does not catch up with `tail`
from behind.

* `contents` — the list; `room` — how many places are left;
* `contents_put`, `contents_take`, `contents_drop` — the three moves;
* `length_add_room` — one place stays empty.
-/

namespace Circular

variable {α : Type} {n : Nat}

/-- What has been put and not taken, the oldest first. -/
def contents (buf : Fin (n + 1) → α) (tail head : Fin (n + 1)) : List α :=
  (List.range (head - tail).val).map fun k => buf (tail + Fin.ofNat (n + 1) k)

/-- How many places are left. -/
def room (tail head : Fin (n + 1)) : Nat := (tail - head - 1).val

theorem length_contents (buf : Fin (n + 1) → α) (tail head : Fin (n + 1)) :
    (contents buf tail head).length = (head - tail).val := by
  unfold contents
  rw [List.length_map, List.length_range]

/-- All places but one can be used. -/
theorem distance_add_room (tail head : Fin (n + 1)) : (head - tail).val + room tail head = n := by
  have hrev : tail - head - 1 = Fin.rev (head - tail) := by
    have hlast : Fin.last n = -1 := by
      rw [eq_neg_iff_add_eq_zero, Fin.last_add_one]
    rw [← Fin.last_sub, hlast]
    abel
  have hd : (head - tail).val < n + 1 := (head - tail).isLt
  unfold room
  rw [hrev, Fin.val_rev]
  omega

theorem length_add_room (buf : Fin (n + 1) → α) (tail head : Fin (n + 1)) :
    (contents buf tail head).length + room tail head = n := by
  rw [length_contents]
  exact distance_add_room tail head

theorem contents_nil_iff {buf : Fin (n + 1) → α} {tail head : Fin (n + 1)} :
    contents buf tail head = [] ↔ head = tail := by
  rw [← List.length_eq_zero_iff, length_contents, Fin.val_eq_zero_iff, sub_eq_zero]

theorem contents_self (buf : Fin (n + 1) → α) (i : Fin (n + 1)) : contents buf i i = [] := contents_nil_iff.2 rfl

/-- One step of a distance that is not the greatest. -/
theorem val_succ {d : Fin (n + 1)} (h : d.val < n) : (d + 1).val = d.val + 1 :=
  Fin.val_add_one_of_lt h

/-! ## The moves -/

/-- A place between `tail` and `head` is not the one at `head`. -/
theorem between_ne {tail head : Fin (n + 1)} {k : Nat} (hk : k < (head - tail).val) :
    tail + Fin.ofNat (n + 1) k ≠ head := by
  intro heq
  have hd : head - tail = Fin.ofNat (n + 1) k := by
    rw [← heq]
    abel
  have hval : (head - tail).val = k % (n + 1) := congrArg Fin.val hd
  have hlt : k % (n + 1) ≤ k := Nat.mod_le k (n + 1)
  omega

theorem ofNat_val (d : Fin (n + 1)) : Fin.ofNat (n + 1) d.val = d := Fin.ext (Nat.mod_eq_of_lt d.isLt)

/-- **What is put comes last**, where there is room. -/
theorem contents_put {tail head : Fin (n + 1)} (buf : Fin (n + 1) → α) (c : α) (hroom : room tail head ≠ 0) :
    contents (fun i => if i = head then c else buf i) tail (head + 1) = contents buf tail head ++ [c] := by
  have hd : (head + 1 - tail).val = (head - tail).val + 1 := by
    have hlt : (head - tail).val < n := by
      have := distance_add_room tail head
      omega
    rw [add_sub_right_comm]
    exact val_succ hlt
  unfold contents
  rw [hd, List.range_succ, List.map_append, List.map_singleton]
  congr 1
  · apply List.map_congr_left
    intro k hk
    exact if_neg (between_ne (List.mem_range.1 hk))
  · rw [ofNat_val, add_sub_cancel]
    show [if head = head then c else buf head] = [c]
    rw [if_pos rfl]

/-- **What is taken comes first.** -/
theorem contents_take {tail head : Fin (n + 1)} (buf : Fin (n + 1) → α) (hne : head ≠ tail) :
    contents buf tail head = buf tail :: contents buf (tail + 1) head := by
  obtain ⟨d, hd⟩ : ∃ d, (head - tail).val = d + 1 := by
    apply Nat.exists_eq_succ_of_ne_zero
    rwa [Ne, Fin.val_eq_zero_iff, sub_eq_zero]
  have hd' : (head - (tail + 1)).val = d := by
    have hadd : head - (tail + 1) + 1 = head - tail := by abel
    have hlt : (head - (tail + 1)).val < n := by
      refine lt_of_le_of_ne (Fin.is_le _) fun hlast => ?_
      have hl : head - (tail + 1) = Fin.last n := Fin.ext hlast
      rw [hl, Fin.last_add_one] at hadd
      rw [← hadd] at hd
      exact absurd hd (Nat.succ_ne_zero d).symm
    have hval := val_succ hlt
    rw [hadd, hd] at hval
    omega
  unfold contents
  rw [hd, hd', List.range_succ_eq_map, List.map_cons, List.map_map]
  congr 1
  · congr 1
    exact add_zero tail
  · apply List.map_congr_left
    intro k _
    have hk : Fin.ofNat (n + 1) (k + 1) = 1 + Fin.ofNat (n + 1) k := by
      apply Fin.ext
      rw [Fin.val_add]
      simp [Nat.add_comm]
    show buf (tail + Fin.ofNat (n + 1) (k + 1)) = _
    rw [hk, add_assoc]

/-- **`head` may go back**, over what has been put last. -/
theorem contents_drop {tail head : Fin (n + 1)} (buf : Fin (n + 1) → α) (hne : head ≠ tail) :
    contents buf tail head = contents buf tail (head - 1) ++ [buf (head - 1)] := by
  have hroom : room tail (head - 1) ≠ 0 := by
    unfold room
    have hadd : tail - (head - 1) - 1 = tail - head := by abel
    rw [hadd, Ne, Fin.val_eq_zero_iff, sub_eq_zero]
    exact hne.symm
  have hput := contents_put buf (buf (head - 1)) hroom
  rw [sub_add_cancel] at hput
  rw [← hput]
  congr 1
  funext i
  split
  · next h => rw [h]
  · rfl

end Circular
