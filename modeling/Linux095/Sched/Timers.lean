import Linux095.Links.Singly
import Linux095.Links.Differences
import Mathlib.Data.List.Perm.Basic

/-!
# `Sched.Timers` — functions to call later (`kernel/sched.c`)

`add_timer` keeps what is to be called in a list, with the ticks from one entry to the next. A new entry comes in
front and is exchanged with the next one as long as that is due earlier.

* `addTimer`, `settle` — the source's `add_timer` and its loop; `tick`, `fire` — what `do_timer` does about timers;
* `sink` — **what the loop does to the list**: the entry behind the new one is not told that it comes before it;
* `timers_on_time` — every function is called on its tick, if each new one is due after all the others;
* `earlier_timer_delays` — otherwise the others are late.
-/

namespace Linux095
namespace Sched
namespace Timers
open Relation Links

def TIME_REQUESTS : Nat := 64

/-- `struct timer_list`. A function is a number, and `0` is NULL. -/
structure Timer where
  jiffies : Int
  fn : Nat
  next : Option Nat

/-- `timer_list[]` and `next_timer`. -/
structure State where
  timerList : Nat → Timer
  nextTimer : Option Nat

namespace State

def set (s : State) (p : Nat) (t : Timer) : State :=
  { s with timerList := fun x => if x = p then t else s.timerList x }

def next (s : State) (p : Nat) : Option Nat := (s.timerList p).next

/-- `p` and `q`, which comes next, exchange what they hold, and `p`'s time is counted from `q`'s. -/
def exchange (s : State) (p q : Nat) : State :=
  let a := s.timerList p
  let b := s.timerList q
  (s.set p { a with jiffies := b.jiffies, fn := b.fn }).set q { b with jiffies := a.jiffies - b.jiffies, fn := a.fn }

end State

/-- The loop of `add_timer`; `none` only if it does not end. -/
def settle : Nat → Nat → State → Option State
  | 0, _, _ => none
  | fuel + 1, p, s =>
      match s.next p with
      | none => some s
      | some q =>
          if (s.timerList q).jiffies < (s.timerList p).jiffies then settle fuel q (s.exchange p q)
          else some s

/-- `add_timer`: what it calls at once, and the list then; `none` is the panic. -/
def addTimer (jiffies : Int) (fn : Nat) (s : State) : Option (List Nat × State) :=
  if fn = 0 then some ([], s)
  else if jiffies ≤ 0 then some ([fn], s)
  else do
    let p ← (List.range TIME_REQUESTS).find? fun p => (s.timerList p).fn = 0
    let s := { s.set p { jiffies, fn, next := s.nextTimer } with nextTimer := some p }
    let s ← settle TIME_REQUESTS p s
    return ([], s)

/-- `next_timer->jiffies--`. -/
def tick (s : State) : State :=
  match s.nextTimer with
  | none => s
  | some p => s.set p { s.timerList p with jiffies := (s.timerList p).jiffies - 1 }

/-- One turn of the loop of `do_timer`: the function to call. -/
def fire (s : State) : Option (Nat × State) :=
  match s.nextTimer with
  | none => none
  | some p =>
      let t := s.timerList p
      if t.jiffies ≤ 0 then some (t.fn, { s.set p { t with fn := 0 } with nextTimer := t.next })
      else none

/-! ## Runs -/

/-- The timers, and what has been asked for and done so far. -/
structure Config where
  timers : State
  /-- The ticks so far. -/
  now : Int
  /-- `do_timer` is in its loop. -/
  inTick : Bool
  /-- What has been asked for, and when it is due. -/
  registered : List (Int × Nat)
  /-- What the loop of `do_timer` has called, and when. -/
  called : List (Int × Nat)

inductive Event where
  /-- A call of `add_timer`, also from a function that `do_timer` calls. -/
  | add (jiffies : Int) (fn : Nat)
  | tick
  | fire
  /-- The loop of `do_timer` ends. -/
  | done

def step (c : Config) : Event → Option Config
  | .add jiffies fn => do
      let (_, timers) ← addTimer jiffies fn c.timers
      let registered := if fn = 0 ∨ jiffies ≤ 0 then c.registered else c.registered ++ [(c.now + jiffies, fn)]
      return { c with timers, registered }
  | .tick => if c.inTick then none else some { c with timers := tick c.timers, now := c.now + 1, inTick := true }
  | .fire =>
      if c.inTick then
        (fire c.timers).map fun (fn, timers) => { c with timers, called := c.called ++ [(c.now, fn)] }
      else none
  | .done => if c.inTick ∧ fire c.timers = none then some { c with inTick := false } else none

/-- A step that `ok` admits. -/
def Step (ok : Config → Event → Prop) (c c' : Config) : Prop := ∃ e, ok c e ∧ step c e = some c'

def Reaches (ok : Config → Event → Prop) : Config → Config → Prop := ReflTransGen (Step ok)

def boot : Config := ⟨⟨fun _ => ⟨0, 0, none⟩, none⟩, 0, false, [], []⟩

/-! ## What is expected -/

/-- A new timer is due after all the others. -/
def Admits (c : Config) : Event → Prop
  | .add jiffies _ => 0 < jiffies → ∀ x ∈ c.registered, x.1 < c.now + jiffies
  | _ => True

/-- **Every function is called once, on its tick.** -/
structure OnTime (c : Config) : Prop where
  /-- Between ticks all that was due has been called, when it was due, and nothing else. -/
  exact : c.inTick = false → c.called.Perm (c.registered.filter fun x => x.1 ≤ c.now)
  /-- What was due earlier was called earlier. -/
  order : c.called.Pairwise fun x y => x.1 ≤ y.1
  /-- The loop of `do_timer` ends. -/
  ends : c.inTick = true → (step c .done).isSome ∨ ∃ c', step c .fire = some c' ∧ (step c' .done).isSome
  /-- There is room for `TIME_REQUESTS` timers. -/
  room : c.registered.length - c.called.length < TIME_REQUESTS → ∀ jiffies fn, (step c (.add jiffies fn)).isSome

/-! ## The list -/

/-- The slots in `l` are in the list, in this order, and the others are free. -/
structure Rep (s : State) (l : List Nat) : Prop where
  leads : Leads s.next s.nextTimer l
  nodup : l.Nodup
  bound : ∀ p ∈ l, p < TIME_REQUESTS
  used : ∀ p < TIME_REQUESTS, p ∈ l ↔ (s.timerList p).fn ≠ 0

/-- What the slot holds. -/
def entry (s : State) (p : Nat) : Int × Nat := ((s.timerList p).jiffies, (s.timerList p).fn)

/-- **What the loop of `add_timer` does** with an entry in front of `l`. -/
def sink (d : Int) (fn : Nat) : List (Int × Nat) → List (Int × Nat)
  | [] => [(d, fn)]
  | (e, g) :: l => if e < d then (e, g) :: sink (d - e) fn l else (d, fn) :: (e, g) :: l

theorem snd_of_mem_sink {d : Int} {fn : Nat} {l : List (Int × Nat)} {x : Int × Nat} (hx : x ∈ sink d fn l) :
    x.2 = fn ∨ ∃ y ∈ l, x.2 = y.2 := by
  induction l generalizing d with
  | nil =>
      rw [List.mem_singleton.1 hx]
      exact .inl rfl
  | cons y l ih =>
      unfold sink at hx
      split at hx
      · rcases List.mem_cons.1 hx with rfl | hx
        · exact .inr ⟨y, List.mem_cons_self, rfl⟩
        · exact (ih hx).imp_right fun ⟨z, hz, hxz⟩ => ⟨z, List.mem_cons_of_mem _ hz, hxz⟩
      · rcases List.mem_cons.1 hx with rfl | hx
        · exact .inl rfl
        · exact .inr ⟨x, hx, rfl⟩

/-- A timer that is due after all the others goes to the end. -/
theorem sink_eq_append {now d : Int} {fn : Nat} {l : List (Int × Nat)} (h : ∀ x ∈ dues now l, x.1 < now + d) :
    sink d fn l = l ++ [(d - total l, fn)] := by
  induction l generalizing now d with
  | nil => simp [sink]
  | cons x l ih =>
      obtain ⟨e, g⟩ := x
      have he : e < d := by simpa using h _ List.mem_cons_self
      have hrest : ∀ x ∈ dues (now + e) l, x.1 < now + e + (d - e) := fun x hx => by
        have hx := h x (List.mem_cons_of_mem _ hx)
        omega
      rw [sink, if_pos he, ih hrest, total_cons, List.cons_append, sub_add_eq_sub_sub]

/-- How much later the entries are, all together, than they should be. -/
theorem total_dues_sink (now d : Int) (fn : Nat) (l : List (Int × Nat)) : ∃ k n, total (dues now (sink d fn l)) =
    now + d + total (dues now l) + k * n ∧ (0 < d → 0 < k) ∧ 0 ≤ n ∧ (n = 0 → ∀ x ∈ dues now l, x.1 < now + d) := by
  induction l generalizing now d with
  | nil => exact ⟨d, 0, by simp [sink], id, le_rfl, fun _ => nofun⟩
  | cons x l ih =>
      obtain ⟨e, g⟩ := x
      unfold sink
      split
      · rename_i he
        obtain ⟨k, n, htotal, hk, hn, hall⟩ := ih (now + e) (d - e)
        have hsum : now + e + (d - e) = now + d := by ring
        refine ⟨k, n, ?_, fun _ => hk (by omega), hn, fun h0 x hx => ?_⟩
        · rw [dues_cons, total_cons, htotal, dues_cons, total_cons, hsum]
          ring
        · rcases List.mem_cons.1 hx with rfl | hx
          · exact Int.add_lt_add_left he now
          · rw [← hsum]
            exact hall h0 x hx
      · -- The new entry stops here, and so many come after it.
        refine ⟨d, (l.length + 1 : Nat), ?_, id, Int.natCast_nonneg _, fun h0 => by omega⟩
        rw [dues_cons, total_cons, total_dues_add, List.length_cons]
        ring

/-- **When the others stay on time**: if and only if the new one is due after all of them. -/
theorem sink_dues_iff {now d : Int} (hd : 0 < d) (fn : Nat) (l : List (Int × Nat)) :
    (dues now (sink d fn l)).Perm ((now + d, fn) :: dues now l) ↔ ∀ x ∈ dues now l, x.1 < now + d := by
  constructor
  · intro hperm
    obtain ⟨k, n, htotal, hk, hn, hall⟩ := total_dues_sink now d fn l
    have hsum : total (dues now (sink d fn l)) = now + d + total (dues now l) := (hperm.map Prod.fst).sum_eq
    have hzero : k * n = 0 := by omega
    exact hall ((mul_eq_zero.1 hzero).resolve_left (hk hd).ne')
  · intro h
    have hsum : now + total l + (d - total l) = now + d := by ring
    rw [sink_eq_append h, dues_append, dues_cons, dues_nil, hsum]
    exact List.perm_append_singleton _ _

/-! ## `add_timer` -/

section

variable {s s' : State} {l : List Nat} {p q : Nat}

theorem exchange_next (s : State) {p q : Nat} : (s.exchange p q).next = s.next := by
  funext x
  unfold State.exchange State.next State.set
  dsimp only
  split
  · rename_i hx
    rw [hx]
  · split
    · rename_i hx
      rw [hx]
    · rfl

theorem exchange_left (h : p ≠ q) : entry (s.exchange p q) p = entry s q := by
  simp [entry, State.exchange, State.set, h]

theorem exchange_right : entry (s.exchange p q) q = ((entry s p).1 - (entry s q).1, (entry s p).2) := by
  simp [entry, State.exchange, State.set]

theorem exchange_other {x : Nat} (hp : x ≠ p) (hq : x ≠ q) : (s.exchange p q).timerList x = s.timerList x := by
  simp [State.exchange, State.set, hp, hq]

/-- **The loop sinks the first entry**, and leaves the links alone. -/
theorem settle_spec {fuel : Nat} (hleads : Leads s.next (some p) (p :: l)) (hnodup : (p :: l).Nodup)
    (hfuel : l.length < fuel) : ∃ s', settle fuel p s = some s' ∧ s'.next = s.next ∧ s'.nextTimer = s.nextTimer ∧
      (∀ x ∉ p :: l, s'.timerList x = s.timerList x) ∧
      (p :: l).map (entry s') = sink (entry s p).1 (entry s p).2 (l.map (entry s)) := by
  induction fuel generalizing p l s with
  | zero => exact absurd hfuel (Nat.not_lt_zero _)
  | succ fuel ih =>
      have hrest := hleads.of_cons.2
      cases l with
      | nil =>
          have hnext : s.next p = none := hrest.head
          refine ⟨s, ?_, rfl, rfl, fun _ _ => rfl, rfl⟩
          rw [settle, hnext]
      | cons q l =>
          have hnext : s.next p = some q := hrest.head
          have hpq : p ≠ q := fun h => (List.nodup_cons.1 hnodup).1 (h ▸ List.mem_cons_self)
          by_cases hlt : (s.timerList q).jiffies < (s.timerList p).jiffies
          · have hleads' : Leads (s.exchange p q).next (some q) (q :: l) := by
              rw [exchange_next]
              exact hnext ▸ hrest
            obtain ⟨s', hs', hnext', hfirst, hsame, hvals⟩ :=
              ih hleads' (List.nodup_cons.1 hnodup).2 (Nat.lt_of_succ_lt_succ hfuel)
            refine ⟨s', ?_, hnext'.trans (exchange_next s), hfirst, fun x hx => ?_, ?_⟩
            · rw [settle, hnext]
              exact (if_pos hlt).trans hs'
            · rw [hsame x fun hxq => hx (List.mem_cons_of_mem _ hxq)]
              exact exchange_other (fun h => hx (h ▸ List.mem_cons_self))
                fun h => hx (h ▸ List.mem_cons_of_mem _ List.mem_cons_self)
            · have hp : entry s' p = entry s q := by
                have hp : p ∉ q :: l := (List.nodup_cons.1 hnodup).1
                rw [← exchange_left hpq]
                unfold entry
                rw [hsame p hp]
              have hothers : l.map (entry (s.exchange p q)) = l.map (entry s) := by
                refine List.map_congr_left fun x hx => ?_
                have hxp : x ≠ p := by
                  rintro rfl
                  exact (List.nodup_cons.1 hnodup).1 (List.mem_cons_of_mem _ hx)
                have hxq : x ≠ q := by
                  rintro rfl
                  exact (List.nodup_cons.1 (List.nodup_cons.1 hnodup).2).1 hx
                unfold entry
                rw [exchange_other hxp hxq]
              rw [List.map_cons, hvals, hp, exchange_right, hothers, List.map_cons]
              exact (if_pos hlt).symm
          · refine ⟨s, ?_, rfl, rfl, fun _ _ => rfl, ?_⟩
            · rw [settle, hnext]
              exact if_neg hlt
            · rw [List.map_cons, List.map_cons]
              exact (if_neg hlt).symm

/-- While there are fewer than `TIME_REQUESTS` timers, there is a free slot. -/
theorem exists_free (h : Rep s l) (hlen : l.length < TIME_REQUESTS) :
    ∃ p, (List.range TIME_REQUESTS).find? (fun p => (s.timerList p).fn = 0) = some p := by
  rw [← Option.isSome_iff_exists, List.find?_isSome]
  by_contra hno
  have hall : ∀ p ∈ List.range TIME_REQUESTS, p ∈ l := fun p hp => by
    refine (h.used p (List.mem_range.1 hp)).2 fun h0 => hno ⟨p, hp, ?_⟩
    simpa using h0
  have hle := (List.subperm_of_subset List.nodup_range hall).length_le
  rw [List.length_range] at hle
  omega

/-- There is no free slot otherwise. -/
theorem length_lt (h : Rep s l) {d : Int} (hd : 0 < d) {fn : Nat} (hfn : fn ≠ 0) (hs : (addTimer d fn s).isSome) :
    l.length < TIME_REQUESTS := by
  rw [addTimer, if_neg hfn, if_neg (not_le.2 hd)] at hs
  cases hfind : (List.range TIME_REQUESTS).find? fun p => (s.timerList p).fn = 0 with
  | none =>
      rw [hfind] at hs
      cases hs
  | some p =>
      have hfree : (s.timerList p).fn = 0 := by simpa using List.find?_some hfind
      have hp : p < TIME_REQUESTS := List.mem_range.1 (List.mem_of_find?_eq_some hfind)
      have hnodup : (p :: l).Nodup := List.nodup_cons.2 ⟨fun hl => (h.used p hp).1 hl hfree, h.nodup⟩
      have hsub : p :: l ⊆ List.range TIME_REQUESTS := fun x hx => by
        rcases List.mem_cons.1 hx with rfl | hx
        · exact List.mem_range.2 hp
        · exact List.mem_range.2 (h.bound x hx)
      have hle := (List.subperm_of_subset hnodup hsub).length_le
      rw [List.length_range] at hle
      exact hle

/-- **`add_timer`** takes a free slot, and sinks what it puts there. -/
theorem addTimer_spec (h : Rep s l) (hlen : l.length < TIME_REQUESTS) {d : Int} (hd : 0 < d) {fn : Nat}
    (hfn : fn ≠ 0) : ∃ s' l', addTimer d fn s = some ([], s') ∧ Rep s' l' ∧
      l'.map (entry s') = sink d fn (l.map (entry s)) := by
  obtain ⟨p, hfind⟩ := exists_free h hlen
  have hfree : (s.timerList p).fn = 0 := by simpa using List.find?_some hfind
  have hp : p < TIME_REQUESTS := List.mem_range.1 (List.mem_of_find?_eq_some hfind)
  have hnot : p ∉ l := fun hl => (h.used p hp).1 hl hfree
  let s₁ : State := { s.set p { jiffies := d, fn, next := s.nextTimer } with nextTimer := some p }
  have hself : s₁.timerList p = ⟨d, fn, s.nextTimer⟩ := if_pos rfl
  have hother : ∀ x, x ≠ p → s₁.timerList x = s.timerList x := fun x hx => if_neg hx
  have hne : ∀ x ∈ l, x ≠ p := fun x hx hxp => hnot (hxp ▸ hx)
  have hleads : Leads s₁.next (some p) (p :: l) := by
    apply Leads.cons
    have hnext : s₁.next p = s.nextTimer := congrArg Timer.next hself
    rw [hnext]
    exact h.leads.congr fun x hx => congrArg Timer.next (hother x (hne x hx))
  have hnodup : (p :: l).Nodup := List.nodup_cons.2 ⟨hnot, h.nodup⟩
  obtain ⟨s', hs', hnext', hfirst, hsame, hvals⟩ := settle_spec hleads hnodup hlen
  have hentries : l.map (entry s₁) = l.map (entry s) := List.map_congr_left fun x hx => by
    unfold entry
    rw [hother x (hne x hx)]
  rw [hentries, show entry s₁ p = (d, fn) from congrArg (fun t : Timer => (t.jiffies, t.fn)) hself] at hvals
  refine ⟨s', p :: l, ?_, ⟨?_, hnodup, fun x hx => ?_, fun x hx => ?_⟩, hvals⟩
  · rw [addTimer, if_neg hfn, if_neg (not_le.2 hd), hfind]
    show (settle TIME_REQUESTS p s₁ >>= fun s => some (([] : List Nat), s)) = _
    rw [hs']
    rfl
  · rw [hnext', hfirst]
    exact hleads
  · rcases List.mem_cons.1 hx with rfl | hx
    · exact hp
    · exact h.bound x hx
  · by_cases hmem : x ∈ p :: l
    · refine iff_of_true hmem ?_
      have hx' : entry s' x ∈ sink d fn (l.map (entry s)) := hvals ▸ List.mem_map_of_mem hmem
      rcases snd_of_mem_sink hx' with heq | ⟨y, hy, heq⟩
      · exact ne_of_eq_of_ne heq hfn
      · obtain ⟨z, hz, rfl⟩ := List.mem_map.1 hy
        exact ne_of_eq_of_ne heq ((h.used z (h.bound z hz)).1 hz)
    · have hxp : x ≠ p := fun hxp => hmem (hxp ▸ List.mem_cons_self)
      rw [hsame x hmem, hother x hxp, ← h.used x hx, List.mem_cons]
      exact or_iff_right hxp

/-! ## `do_timer` -/

/-- A tick, for the first entry. -/
def afterTick : List (Int × Nat) → List (Int × Nat)
  | [] => []
  | (d, fn) :: l => (d - 1, fn) :: l

theorem dues_afterTick (now : Int) (l : List (Int × Nat)) : dues (now + 1) (afterTick l) = dues now l := by
  cases l with
  | nil => rfl
  | cons x l => exact dues_tick now x.1 x.2 l

theorem tick_spec (h : Rep s l) : Rep (tick s) l ∧ l.map (entry (tick s)) = afterTick (l.map (entry s)) := by
  cases l with
  | nil =>
      have htick : tick s = s := by rw [tick, h.leads.head]; rfl
      rw [htick]
      exact ⟨h, rfl⟩
  | cons p l =>
      have hfirst : s.nextTimer = some p := h.leads.head
      have htick : tick s = s.set p { s.timerList p with jiffies := (s.timerList p).jiffies - 1 } := by
        rw [tick, hfirst]
      have hself : (tick s).timerList p = { s.timerList p with jiffies := (s.timerList p).jiffies - 1 } := by
        rw [htick]
        exact if_pos rfl
      have hother : ∀ x, x ≠ p → (tick s).timerList x = s.timerList x := fun x hx => by
        rw [htick]
        exact if_neg hx
      have hkeep : ∀ x, ((tick s).timerList x).next = (s.timerList x).next ∧
          ((tick s).timerList x).fn = (s.timerList x).fn := fun x => by
        by_cases hx : x = p
        · rw [hx, hself]
          exact ⟨rfl, rfl⟩
        · rw [hother x hx]
          exact ⟨rfl, rfl⟩
      refine ⟨⟨?_, h.nodup, h.bound, fun x hx => ?_⟩, ?_⟩
      · have hnext : (tick s).nextTimer = s.nextTimer := by rw [htick]; rfl
        rw [hnext]
        exact h.leads.congr fun x _ => (hkeep x).1
      · rw [(hkeep x).2]
        exact h.used x hx
      · have hentry : entry (tick s) p = ((entry s p).1 - 1, (entry s p).2) := by
          unfold entry
          rw [hself]
        have hrest : l.map (entry (tick s)) = l.map (entry s) := List.map_congr_left fun x hx => by
          have hxp : x ≠ p := fun hxp => (List.nodup_cons.1 h.nodup).1 (hxp ▸ hx)
          unfold entry
          rw [hother x hxp]
        rw [List.map_cons, hentry, hrest]
        rfl

/-- The loop of `do_timer` ends when the first entry is not due, or there is none. -/
theorem fire_eq_none (h : Rep s l) (hlater : ∀ x ∈ (l.map (entry s)).head?, 0 < x.1) : fire s = none := by
  unfold fire
  rw [h.leads.head]
  cases l with
  | nil => rfl
  | cons p l => exact if_neg (not_le.2 (hlater _ rfl))

/-- **Otherwise it takes out the first entry**, and calls its function. -/
theorem fire_eq_some (h : Rep s (p :: l)) (hdue : (entry s p).1 ≤ 0) :
    ∃ s', fire s = some ((entry s p).2, s') ∧ Rep s' l ∧ l.map (entry s') = l.map (entry s) := by
  have hfirst : s.nextTimer = some p := h.leads.head
  let s' : State := { s.set p { s.timerList p with fn := 0 } with nextTimer := s.next p }
  have hself : s'.timerList p = { s.timerList p with fn := 0 } := if_pos rfl
  have hother : ∀ x, x ≠ p → s'.timerList x = s.timerList x := fun x hx => if_neg hx
  have hnot : p ∉ l := (List.nodup_cons.1 h.nodup).1
  have hne : ∀ x ∈ l, x ≠ p := fun x hx hxp => hnot (hxp ▸ hx)
  refine ⟨s', ?_, ⟨?_, (List.nodup_cons.1 h.nodup).2, fun x hx => h.bound x (List.mem_cons_of_mem _ hx), ?_⟩, ?_⟩
  · unfold fire
    rw [hfirst]
    exact if_pos hdue
  · refine h.leads.of_cons.2.congr fun x hx => ?_
    exact congrArg Timer.next (hother x (hne x hx))
  · intro x hx
    by_cases hxp : x = p
    · subst hxp
      rw [hself]
      exact iff_of_false hnot fun h0 => h0 rfl
    · rw [hother x hxp, ← h.used x hx, List.mem_cons]
      exact (or_iff_right hxp).symm
  · refine List.map_congr_left fun x hx => ?_
    unfold entry
    rw [hother x (hne x hx)]

end

/-! ## Runs -/

/-- No two entries are due on one tick, and none is late. -/
def Ahead (inTick : Bool) : List (Int × Nat) → Prop
  | [] => True
  | x :: l => (if inTick then 0 ≤ x.1 else 0 < x.1) ∧ ∀ y ∈ l, 0 < y.1

/-- **What holds in every state**: what has been asked for has been called on its tick, or is in the list. -/
structure Inv (c : Config) (l : List Nat) : Prop where
  rep : Rep c.timers l
  ahead : Ahead c.inTick (l.map (entry c.timers))
  perm : c.registered.Perm (c.called ++ dues c.now (l.map (entry c.timers)))
  order : c.called.Pairwise fun x y => x.1 ≤ y.1
  past : ∀ x ∈ c.called, x.1 ≤ c.now

variable {c c' : Config} {l : List Nat}

theorem Ahead.pos {l : List (Int × Nat)} (h : Ahead false l) : ∀ x ∈ l, 0 < x.1 := by
  cases l with
  | nil => exact nofun
  | cons x l => exact List.forall_mem_cons.2 h

theorem Ahead.append {inTick : Bool} {l : List (Int × Nat)} (h : Ahead inTick l) {x : Int × Nat} (hx : 0 < x.1) :
    Ahead inTick (l ++ [x]) := by
  cases l with
  | nil =>
      refine ⟨?_, nofun⟩
      split
      · exact hx.le
      · exact hx
  | cons y l =>
      refine ⟨h.1, fun z hz => ?_⟩
      rcases List.mem_append.1 hz with hz | hz
      · exact h.2 z hz
      · rw [List.mem_singleton.1 hz]
        exact hx

theorem inv_boot : Inv boot [] where
  rep := ⟨.nil, List.nodup_nil, nofun, fun _ _ => by simp [boot]⟩
  ahead := trivial
  perm := .refl _
  order := .nil
  past := nofun

/-- A call that `add_timer` does not keep. -/
theorem addTimer_eq_self {d : Int} {fn : Nat} (h : fn = 0 ∨ d ≤ 0) (s : State) :
    ∃ fns, addTimer d fn s = some (fns, s) := by
  unfold addTimer
  by_cases hfn : fn = 0
  · exact ⟨[], if_pos hfn⟩
  · exact ⟨[fn], (if_neg hfn).trans (if_pos (h.resolve_left hfn))⟩

/-- **A timer that is due after all the others** goes to the end. -/
theorem Inv.add (h : Inv c l) {d : Int} {fn : Nat} (hok : Admits c (.add d fn))
    (hs : step c (.add d fn) = some c') : ∃ l', Inv c' l' := by
  obtain ⟨⟨fns, timers⟩, hadd, hs⟩ := Option.bind_eq_some_iff.1 hs
  cases hs
  by_cases hskip : fn = 0 ∨ d ≤ 0
  · obtain ⟨fns', hsame⟩ := addTimer_eq_self hskip c.timers
    rw [hsame] at hadd
    cases hadd
    refine ⟨l, h.rep, h.ahead, ?_, h.order, h.past⟩
    dsimp only
    rw [if_pos hskip]
    exact h.perm
  · have hfn : fn ≠ 0 := fun h0 => hskip (.inl h0)
    have hd : 0 < d := not_le.1 fun hle => hskip (.inr hle)
    have hlen := length_lt h.rep hd hfn (hadd ▸ rfl)
    obtain ⟨s', l', hadd', hrep, hvals⟩ := addTimer_spec h.rep hlen hd hfn
    rw [hadd'] at hadd
    cases hadd
    have hlast : ∀ x ∈ dues c.now (l.map (entry c.timers)), x.1 < c.now + d := fun x hx =>
      hok hd x (h.perm.mem_iff.2 (List.mem_append_right _ hx))
    refine ⟨l', hrep, ?_, ?_, h.order, h.past⟩
    · dsimp only
      rw [hvals, sink_eq_append hlast]
      refine h.ahead.append (sub_pos.2 ?_)
      by_cases hnil : l.map (entry c.timers) = []
      · rw [hnil]
        exact hd
      · obtain ⟨a, ha⟩ := total_mem_dues c.now hnil
        exact lt_of_add_lt_add_left (hlast _ ha)
    · dsimp only
      rw [if_neg hskip, hvals]
      have hsink := (sink_dues_iff hd fn (l.map (entry c.timers))).2 hlast
      refine (List.perm_append_singleton _ _).trans ?_
      refine ((h.perm.cons _).trans ?_).trans (hsink.symm.append_left _)
      exact List.perm_middle.symm

/-- Everything comes closer by a tick. -/
theorem Inv.tick (h : Inv c l) (hs : step c .tick = some c') : Inv c' l := by
  simp only [step] at hs
  split at hs
  · cases hs
  · rename_i hidle
    cases hs
    obtain ⟨hrep, hvals⟩ := tick_spec h.rep
    have hahead := h.ahead
    rw [Bool.eq_false_of_not_eq_true hidle] at hahead
    refine ⟨hrep, ?_, ?_, h.order, fun x hx => (h.past x hx).trans (by simp)⟩
    · dsimp only
      rw [hvals]
      cases hl : l.map (entry c.timers) with
      | nil => trivial
      | cons x xs =>
          rw [hl] at hahead
          exact ⟨Int.sub_nonneg_of_le hahead.1, hahead.2⟩
    · dsimp only
      rw [hvals, dues_afterTick]
      exact h.perm

/-- The first entry, when it is due, is due now. -/
theorem Inv.fire (h : Inv c l) (hs : step c .fire = some c') :
    ∃ l', Inv c' l' ∧ c'.inTick = true ∧ Ahead false (l'.map (entry c'.timers)) := by
  simp only [step] at hs
  split at hs
  · rename_i htick
    obtain ⟨⟨fn, timers⟩, hfire, hs⟩ := Option.map_eq_some_iff.1 hs
    subst hs
    have hahead := h.ahead
    rw [htick] at hahead
    cases l with
    | nil =>
        rw [fire_eq_none h.rep nofun] at hfire
        cases hfire
    | cons p l =>
        by_cases hdue : (entry c.timers p).1 ≤ 0
        · obtain ⟨s', hfire', hrep, hvals⟩ := fire_eq_some h.rep hdue
          rw [hfire'] at hfire
          cases hfire
          have hnow : (entry c.timers p).1 = 0 := le_antisymm hdue hahead.1
          have hlater : Ahead false (l.map (entry c.timers)) := by
            cases hl : l.map (entry c.timers) with
            | nil => trivial
            | cons x xs =>
                have hpos := hahead.2
                rw [hl] at hpos
                exact ⟨hpos x List.mem_cons_self, fun y hy => hpos y (List.mem_cons_of_mem _ hy)⟩
          refine ⟨l, ⟨hrep, ?_, ?_, ?_, ?_⟩, htick, ?_⟩
          · dsimp only
            rw [hvals, htick]
            cases hl : l.map (entry c.timers) with
            | nil => trivial
            | cons x xs =>
                rw [hl] at hlater
                exact ⟨le_of_lt hlater.1, hlater.2⟩
          · dsimp only
            rw [hvals, List.append_assoc]
            have hperm := h.perm
            rw [List.map_cons, dues, hnow, add_zero] at hperm
            exact hperm
          · refine List.pairwise_append.2 ⟨h.order, List.pairwise_singleton _ _, fun x hx y hy => ?_⟩
            rw [List.mem_singleton.1 hy]
            exact h.past x hx
          · intro x hx
            rcases List.mem_append.1 hx with hx | hx
            · exact h.past x hx
            · rw [List.mem_singleton.1 hx]
          · dsimp only
            rw [hvals]
            exact hlater
        · rw [fire_eq_none h.rep fun x hx => by cases hx; exact not_le.1 hdue] at hfire
          cases hfire
  · cases hs

/-- The loop leaves nothing that is due. -/
theorem Inv.done (h : Inv c l) (hs : step c .done = some c') : Inv c' l := by
  simp only [step] at hs
  split at hs
  · rename_i hdone
    cases hs
    refine ⟨h.rep, ?_, h.perm, h.order, h.past⟩
    have hahead := h.ahead
    cases l with
    | nil => trivial
    | cons p l =>
        refine ⟨?_, hahead.2⟩
        by_contra hdue
        obtain ⟨s', hfire, -, -⟩ := fire_eq_some h.rep (not_lt.1 hdue)
        rw [hdone.2] at hfire
        cases hfire
  · cases hs

theorem Inv.step (h : Inv c l) {e : Event} (hok : Admits c e) (hs : step c e = some c') : ∃ l', Inv c' l' := by
  cases e with
  | add d fn => exact h.add hok hs
  | tick => exact ⟨l, h.tick hs⟩
  | fire =>
      obtain ⟨l', h', -, -⟩ := h.fire hs
      exact ⟨l', h'⟩
  | done => exact ⟨l, h.done hs⟩

theorem Inv.reaches (h : Inv c l) (hr : Reaches Admits c c') : ∃ l', Inv c' l' := by
  induction hr with
  | refl => exact ⟨l, h⟩
  | tail _ hstep ih =>
      obtain ⟨l₁, h₁⟩ := ih
      obtain ⟨e, hok, hs⟩ := hstep
      exact h₁.step hok hs

/-- Nothing is left to call on this tick. -/
theorem Inv.isSome_done (h : Inv c l) (htick : c.inTick = true) (hahead : Ahead false (l.map (entry c.timers))) :
    (Timers.step c .done).isSome := by
  have hnone : Timers.fire c.timers = none := fire_eq_none h.rep fun x hx =>
    hahead.pos x (List.mem_of_mem_head? hx)
  simp [Timers.step, htick, hnone]

theorem Inv.onTime (h : Inv c l) : OnTime c where
  exact hidle := by
    have hahead := h.ahead
    rw [hidle] at hahead
    have hpast : c.called.filter (fun x => x.1 ≤ c.now) = c.called :=
      List.filter_eq_self.2 fun x hx => by simpa using h.past x hx
    have hlater : (dues c.now (l.map (entry c.timers))).filter (fun x => x.1 ≤ c.now) = [] :=
      List.filter_eq_nil_iff.2 fun x hx => by simpa using lt_of_mem_dues hahead.pos hx
    have hperm := h.perm.filter fun x => x.1 ≤ c.now
    rw [List.filter_append, hpast, hlater, List.append_nil] at hperm
    exact hperm.symm
  order := h.order
  ends htick := by
    have hahead := h.ahead
    rw [htick] at hahead
    cases l with
    | nil => exact .inl (h.isSome_done htick trivial)
    | cons p l =>
        by_cases hdue : (entry c.timers p).1 ≤ 0
        · obtain ⟨s', hfire, -, -⟩ := fire_eq_some h.rep hdue
          have hs : Timers.step c .fire =
              some { c with timers := s', called := c.called ++ [(c.now, (entry c.timers p).2)] } := by
            simp [Timers.step, htick, hfire]
          obtain ⟨l', h', htick', hlater⟩ := h.fire hs
          exact .inr ⟨_, hs, h'.isSome_done htick' hlater⟩
        · exact .inl (h.isSome_done htick ⟨not_le.1 hdue, hahead.2⟩)
  room hroom d fn := by
    have hlen := h.perm.length_eq
    rw [List.length_append, length_dues, List.length_map] at hlen
    by_cases hskip : fn = 0 ∨ d ≤ 0
    · obtain ⟨fns, hsame⟩ := addTimer_eq_self hskip c.timers
      simp [Timers.step, hsame]
    · have hfn : fn ≠ 0 := fun h0 => hskip (.inl h0)
      have hd : 0 < d := not_le.1 fun hle => hskip (.inr hle)
      obtain ⟨s', l', hadd, -, -⟩ := addTimer_spec h.rep (by omega) hd hfn
      simp [Timers.step, hadd]

/-- **Timers are on time**, if each new one is due after all the others. -/
theorem timers_on_time (hr : Reaches Admits boot c) : OnTime c := by
  obtain ⟨l, h⟩ := inv_boot.reaches hr
  exact h.onTime

/-- The ways a run goes on by a list of events. -/
def runs (c : Config) : List Event → Option Config
  | [] => some c
  | e :: es => (step c e).bind fun c => runs c es

theorem reaches_of_runs {es : List Event} (h : runs c es = some c') : Reaches (fun _ _ => True) c c' := by
  induction es generalizing c with
  | nil =>
      cases h
      exact .refl
  | cons e es ih =>
      obtain ⟨c₁, hs, h⟩ := Option.bind_eq_some_iff.1 h
      exact .head ⟨e, trivial, hs⟩ (ih h)

/-- Two timers, the later one asked for last. -/
theorem timers_on_time_two : ∃ c : Config, c.registered = [(5, 1), (10, 2)] ∧ OnTime c := by
  refine ⟨_, ?_, timers_on_time (.tail (.single ⟨.add 5 1, nofun, rfl⟩) ⟨.add 10 2, ?_, rfl⟩)⟩
  · rfl
  · rintro - x hx
    rw [List.mem_singleton.1 hx]
    decide

/-- **A timer that is asked for later and due earlier delays the other**: after ten ticks the one that was due by
then has not been called. -/
theorem earlier_timer_delays : ∃ c, Reaches (fun _ _ => True) boot c ∧ ¬ OnTime c := by
  let ten : List Event := [.add 10 2, .add 5 1, .tick, .done, .tick, .done, .tick, .done, .tick, .done,
    .tick, .fire, .done, .tick, .done, .tick, .done, .tick, .done, .tick, .done, .tick, .done]
  have hrun : ∃ c, runs boot ten = some c ∧ c.inTick = false ∧ c.now = 10 ∧ c.registered = [(10, 2), (5, 1)] ∧
      c.called = [(5, 1)] := ⟨_, rfl, rfl, rfl, rfl, rfl⟩
  obtain ⟨c, hc, hidle, hnow, hregistered, hcalled⟩ := hrun
  refine ⟨c, reaches_of_runs hc, fun h => ?_⟩
  have hlen := (h.exact hidle).length_eq
  rw [hcalled, hregistered, hnow] at hlen
  exact absurd hlen (by decide)

end Timers
end Sched
end Linux095
