import Mathlib

/-!
# `Links.Ring` — doubly linked lists threaded through the elements

`Links α` is a pair of pointer fields on every element of `α`. A list of elements *describes* the structure
they thread: `Ring` a circular doubly linked list, `Chain` a `NULL`-terminated one with a head pointer kept
outside. The lemmas say what unlinking an element and linking one in do to the description, and that fields
of elements outside the list are irrelevant.
-/

namespace Links

/-- The two pointer fields. -/
@[ext]
structure Fields (α : Type) where
  next : α → Option α
  prev : α → Option α

variable {α : Type} [DecidableEq α]

namespace Fields

def setNext (L : Fields α) (a : α) (v : Option α) : Fields α :=
  { L with next := fun x => if x = a then v else L.next x }

def setPrev (L : Fields α) (a : α) (v : Option α) : Fields α :=
  { L with prev := fun x => if x = a then v else L.prev x }

@[simp] theorem setNext_next (L : Fields α) (a x : α) (v : Option α) :
    (L.setNext a v).next x = if x = a then v else L.next x := rfl
@[simp] theorem setNext_prev (L : Fields α) (a : α) (v : Option α) : (L.setNext a v).prev = L.prev := rfl
@[simp] theorem setPrev_prev (L : Fields α) (a x : α) (v : Option α) :
    (L.setPrev a v).prev x = if x = a then v else L.prev x := rfl
@[simp] theorem setPrev_next (L : Fields α) (a : α) (v : Option α) : (L.setPrev a v).next = L.next := rfl
@[simp] theorem setNext_setNext (L : Fields α) (a : α) (v w : Option α) :
    (L.setNext a v).setNext a w = L.setNext a w := by
  ext1
  · funext x
    by_cases hx : x = a <;> simp [hx]
  · rfl

end Fields

/-- `b` follows `a`, and knows it. -/
def Linked (L : Fields α) (a b : α) : Prop := L.next a = some b ∧ L.prev b = some a

/-! ## Rings -/

/-- The elements of `l`, in this order, form one circular doubly linked list. -/
structure Ring (L : Fields α) (l : List α) : Prop where
  chain : l.IsChain (Linked L)
  wrap : ∀ z ∈ l.getLast?, ∀ x ∈ l.head?, Linked L z x
  nodup : l.Nodup

omit [DecidableEq α] in
/-- Where a ring is cut open does not matter. -/
theorem Ring.rotate {L : Fields α} {a b : List α} (h : Ring L (a ++ b)) : Ring L (b ++ a) := by
  rcases a with _ | ⟨x, a⟩
  · simpa using h
  rcases b with _ | ⟨y, b⟩
  · simpa using h
  obtain ⟨hchain, hwrap, hnd⟩ := h
  obtain ⟨ha, hb, hab⟩ := List.isChain_append.mp hchain
  refine ⟨List.isChain_append.mpr ⟨hb, ha, ?_⟩, ?_, ?_⟩
  · intro z hz w hw
    exact hwrap z (by rwa [List.getLast?_append_cons]) w (by simpa using hw)
  · intro z hz w hw
    exact hab z (by rwa [List.getLast?_append_cons] at hz) w (by simpa using hw)
  · exact (List.perm_append_comm.nodup_iff).mp hnd

omit [DecidableEq α] in
/-- Every element of a ring has a neighbour on either side, in the ring. -/
theorem Ring.neighbours {L : Fields α} {l : List α} (h : Ring L l) {a : α} (ha : a ∈ l) :
    ∃ y ∈ l, ∃ z ∈ l, Linked L a y ∧ Linked L z a := by
  obtain ⟨p, q, rfl⟩ := List.append_of_mem ha
  have hr : Ring L (a :: (q ++ p)) := by simpa using h.rotate
  have hmem : ∀ {x}, x ∈ a :: (q ++ p) → x ∈ p ++ a :: q := by
    intro x hx
    simp only [List.mem_cons, List.mem_append] at hx ⊢
    tauto
  cases ht : q ++ p with
  | nil =>
      rw [ht] at hr
      exact ⟨a, ha, a, ha, hr.wrap a rfl a rfl, hr.wrap a rfl a rfl⟩
  | cons y t =>
      rw [ht] at hr hmem
      have hz : (y :: t).getLast? = some ((y :: t).getLast (by simp)) := List.getLast?_eq_some_getLast _
      refine ⟨y, hmem (by simp), (y :: t).getLast (by simp), hmem ?_, ?_, ?_⟩
      · exact List.mem_cons_of_mem _ (List.getLast_mem _)
      · exact (List.isChain_cons_cons.mp hr.chain).1
      · exact hr.wrap _ (by rw [List.getLast?_cons_cons]; exact hz) a rfl

omit [DecidableEq α] in
/-- The first element of a ring of two or more lies between the last of the others and the first. -/
theorem Ring.around {L : Fields α} {a z y : α} {t : List α} (h : Ring L (a :: t))
    (hy : y ∈ t.head?) (hz : z ∈ t.getLast?) : Linked L a y ∧ Linked L z a ∧ z ≠ a ∧ y ≠ a := by
  have ha : a ∉ t := (List.nodup_cons.mp h.nodup).1
  refine ⟨(List.isChain_cons.mp h.chain).1 y hy, h.wrap z ?_ a rfl, ?_, ?_⟩
  · rw [List.getLast?_cons, Option.mem_def.mp hz]
    rfl
  · exact fun he => ha (he ▸ List.mem_of_getLast? hz)
  · exact fun he => ha (he ▸ List.mem_of_mem_head? hy)

/-- Take `a` out between its neighbours `z` and `y`. -/
def unlink (L : Fields α) (z a y : α) : Fields α :=
  (((L.setNext z (some y)).setPrev y (some z)).setNext a none).setPrev a none

/-- Put `a` in between `z` and `y`. -/
def linkBetween (L : Fields α) (z a y : α) : Fields α :=
  (((L.setNext a (some y)).setPrev a (some z)).setNext z (some a)).setPrev y (some a)

/-- Unlinking the first element of a ring of two or more leaves the ring of the others. -/
theorem Ring.unlink {L : Fields α} {a z y : α} {t : List α} (h : Ring L (a :: t))
    (hy : y ∈ t.head?) (hz : z ∈ t.getLast?) : Ring (unlink L z a y) t := by
  obtain ⟨hlink, hlink', hza, hya⟩ := h.around hy hz
  obtain ⟨hchain, hwrap, hnd⟩ := h
  obtain ⟨ha, hndt⟩ := List.nodup_cons.mp hnd
  refine ⟨?_, ?_, hndt⟩
  · refine (List.isChain_cons.mp hchain).2.imp_of_mem_imp fun u v hu hv huv => ?_
    have hua : u ≠ a := fun he => ha (he ▸ hu)
    have hva : v ≠ a := fun he => ha (he ▸ hv)
    -- `z` used to be followed by `a`, and `y` to be preceded by it, so neither link is inside `t`
    have huz : u ≠ z := by
      rintro rfl
      exact hva (Option.some.inj (huv.1.symm.trans hlink'.1))
    have hvy : v ≠ y := by
      rintro rfl
      exact hua (Option.some.inj (huv.2.symm.trans hlink.2))
    simpa [Linked, Links.unlink, hua, hva, huz, hvy] using huv
  · intro z' hz' y' hy'
    obtain rfl := Option.mem_unique hz hz'
    obtain rfl := Option.mem_unique hy hy'
    simp [Linked, Links.unlink, hza, hya]

/-- Linking a new element in before the head puts it at the end of the ring. -/
theorem Ring.linkLast {L : Fields α} {a z y : α} {t : List α} (h : Ring L t) (ha : a ∉ t)
    (hy : y ∈ t.head?) (hz : z ∈ t.getLast?) : Ring (linkBetween L z a y) (t ++ [a]) := by
  obtain ⟨hchain, hwrap, hnd⟩ := h
  have hzy : Linked L z y := hwrap z hz y hy
  have hzt : z ∈ t := List.mem_of_getLast? hz
  have hyt : y ∈ t := List.mem_of_mem_head? hy
  have hza : z ≠ a := fun he => ha (he ▸ hzt)
  have hya : y ≠ a := fun he => ha (he ▸ hyt)
  refine ⟨List.isChain_append.mpr ⟨?_, List.isChain_singleton a, ?_⟩, ?_, ?_⟩
  · refine hchain.imp_of_mem_tail_imp fun u v hu hv huv => ?_
    have hua : u ≠ a := fun he => ha (he ▸ hu)
    have hva : v ≠ a := fun he => ha (he ▸ List.mem_of_mem_tail hv)
    -- the head `y` follows nothing inside `t`, so the link from `z` to `y` is not inside `t` either
    have hvy : v ≠ y := by
      rintro rfl
      obtain ⟨w, t', rfl⟩ := List.exists_cons_of_ne_nil (List.ne_nil_of_mem hyt)
      obtain rfl : w = v := by simpa using hy
      exact (List.nodup_cons.mp hnd).1 hv
    have huz : u ≠ z := by
      rintro rfl
      exact hvy (Option.some.inj (huv.1.symm.trans hzy.1))
    simpa [Linked, linkBetween, hua, hva, huz, hvy] using huv
  · intro z' hz' a' ha'
    obtain rfl := Option.mem_unique hz hz'
    obtain rfl : a = a' := by simpa using ha'
    simp [Linked, linkBetween, Ne.symm hya]
  · intro a' ha' y' hy'
    obtain rfl : a = a' := by simpa using ha'
    obtain rfl : y = y' := by
      rw [List.head?_append, Option.mem_def.mp hy] at hy'
      simpa using hy'
    simp [Linked, linkBetween, Ne.symm hza]
  · exact List.nodup_append.mpr ⟨hnd, List.nodup_singleton a, by
      intro u hu v hv
      obtain rfl : v = a := by simpa using hv
      rintro rfl
      exact ha hu⟩

/-! ## Chains -/

/-- From the head pointer `h` the elements of `l`, in this order, form a `NULL`-terminated doubly linked
    list. -/
structure Chain (L : Fields α) (h : Option α) (l : List α) : Prop where
  head : h = l.head?
  chain : l.IsChain (Linked L)
  first : ∀ x ∈ l.head?, L.prev x = none
  last : ∀ z ∈ l.getLast?, L.next z = none
  nodup : l.Nodup

omit [DecidableEq α] in
theorem chain_nil (L : Fields α) : Chain L none [] :=
  ⟨rfl, List.isChain_nil, by simp, by simp, List.nodup_nil⟩

omit [DecidableEq α] in
/-- Only the fields of its own elements matter to a chain. -/
theorem Chain.congr {L L' : Fields α} {l : List α} {h : Option α} (hc : Chain L h l)
    (hn : ∀ x ∈ l, L'.next x = L.next x) (hp : ∀ x ∈ l, L'.prev x = L.prev x) : Chain L' h l where
  head := hc.head
  chain := hc.chain.imp_of_mem_imp fun u v hu hv huv => by
    rw [Linked, hn u hu, hp v hv]
    exact huv
  first := fun x hx => by rw [hp x (List.mem_of_mem_head? hx), hc.first x hx]
  last := fun z hz => by rw [hn z (List.mem_of_getLast? hz), hc.last z hz]
  nodup := hc.nodup

omit [DecidableEq α] in
/-- The neighbours of a member, read off its fields. -/
theorem Chain.fields {L : Fields α} {a b : List α} {x : α} {h : Option α} (hc : Chain L h (a ++ x :: b)) :
    L.prev x = a.getLast? ∧ L.next x = b.head? := by
  obtain ⟨-, hxb, hax⟩ := List.isChain_append.mp hc.chain
  constructor
  · cases ha : a.getLast? with
    | none =>
        obtain rfl := List.getLast?_eq_none_iff.mp ha
        exact hc.first x rfl
    | some p => exact (hax p ha x rfl).2
  · cases hb : b.head? with
    | none =>
        obtain rfl := List.head?_eq_none_iff.mp hb
        exact hc.last x (by simp)
    | some n => exact ((List.isChain_cons.mp hxb).1 n hb).1

namespace Fields

/-- The predecessor of `x` becomes that of its successor, where there is one. -/
def bridgePrev (L : Fields α) (x : α) : Fields α :=
  match L.next x with
  | some n => L.setPrev n (L.prev x)
  | none => L

/-- The successor of `x` becomes that of its predecessor, where there is one. -/
def bridgeNext (L : Fields α) (x : α) : Fields α :=
  match L.prev x with
  | some p => L.setNext p (L.next x)
  | none => L

theorem bridge_next {L : Fields α} {x : α} (hn : L.next x ≠ some x) (hp : L.prev x ≠ some x) :
    ((L.bridgePrev x).bridgeNext x).next x = L.next x := by
  unfold bridgeNext bridgePrev
  cases h : L.next x with
  | none => cases h' : L.prev x <;> simp_all
  | some n =>
      have hxn : x ≠ n := fun he => hn (by rw [h, ← he])
      cases h' : L.prev x with
      | none => simp [h, h', hxn]
      | some p =>
          have hxp : x ≠ p := fun he => hp (by rw [h', ← he])
          simp [h, h', hxn, hxp]

end Fields

/-- Re-point the fields around `x` as its removal does, then clear its own. -/
def detach (L : Fields α) (x : α) : Fields α :=
  (((L.bridgePrev x).bridgeNext x).setNext x none).setPrev x none

theorem detach_next {L : Fields α} {x : α} (h : L.next x ≠ some x) (u : α) :
    (detach L x).next u = if u = x then none else if L.prev x = some u then L.next x else L.next u := by
  unfold detach Fields.bridgeNext Fields.bridgePrev
  cases hn : L.next x with
  | none =>
      cases hp : L.prev x with
      | none => simp
      | some p => simp [hn, eq_comm]
  | some n =>
      have hxn : x ≠ n := fun he => h (by rw [hn, ← he])
      cases hp : L.prev x with
      | none => simp [hp, hxn]
      | some p => simp [hp, hn, hxn, eq_comm]

theorem detach_prev {L : Fields α} {x : α} (h : L.next x ≠ some x) (u : α) :
    (detach L x).prev u = if u = x then none else if L.next x = some u then L.prev x else L.prev u := by
  unfold detach Fields.bridgeNext Fields.bridgePrev
  cases hn : L.next x with
  | none => cases hp : L.prev x <;> simp
  | some n =>
      have hxn : x ≠ n := fun he => h (by rw [hn, ← he])
      cases hp : L.prev x with
      | none => simp [hp, hxn, eq_comm]
      | some p => simp [hp, hxn, eq_comm]

/-- Removing a member of a chain: the head pointer moves on when it pointed to `x`. -/
theorem Chain.detach {L : Fields α} {a b : List α} {x : α} {h : Option α}
    (hc : Chain L h (a ++ x :: b)) :
    Chain (detach L x) (if h = some x then L.next x else h) (a ++ b) := by
  obtain ⟨hprev, hnext⟩ := hc.fields
  obtain ⟨hca, hcxb, hax⟩ := List.isChain_append.mp hc.chain
  obtain ⟨hxb, hcb⟩ := List.isChain_cons.mp hcxb
  have hnd := hc.nodup
  rw [List.nodup_append, List.nodup_cons] at hnd
  obtain ⟨hnda, ⟨hxb', hndb⟩, hdis⟩ := hnd
  have hxa : x ∉ a := fun hx => hdis x hx x (by simp) rfl
  have hself : L.next x ≠ some x := by
    rw [hnext]
    exact fun hb => hxb' (List.mem_of_mem_head? hb)
  -- a link inside `a` or inside `b` does not touch `x`, so neither of its ends was re-pointed
  have hkeep : ∀ u v, u ≠ x → v ≠ x → Linked L u v → Linked (Links.detach L x) u v := by
    intro u v hu hv huv
    refine ⟨?_, ?_⟩
    · rw [detach_next hself, if_neg hu, if_neg, huv.1]
      intro hp
      rw [hprev] at hp
      exact hv (Option.some.inj (huv.1.symm.trans (hax u hp x rfl).1))
    · rw [detach_prev hself, if_neg hv, if_neg, huv.2]
      intro hn
      rw [hnext] at hn
      exact hu (Option.some.inj (huv.2.symm.trans (hxb v hn).2))
  refine ⟨?_, List.isChain_append.mpr ⟨?_, ?_, ?_⟩, ?_, ?_, ?_⟩
  · cases a with
    | nil => simp [hc.head, hnext]
    | cons w a =>
        have hwx : w ≠ x := fun he => hxa (by simp [he])
        simp [hc.head, hwx]
  · exact hca.imp_of_mem_imp fun u v hu hv huv =>
      hkeep u v (fun he => hxa (he ▸ hu)) (fun he => hxa (he ▸ hv)) huv
  · exact hcb.imp_of_mem_imp fun u v hu hv huv =>
      hkeep u v (fun he => hxb' (he ▸ hu)) (fun he => hxb' (he ▸ hv)) huv
  · intro p hp n hn
    have hpx : p ≠ x := fun he => hxa (he ▸ List.mem_of_getLast? hp)
    have hnx : n ≠ x := fun he => hxb' (he ▸ List.mem_of_mem_head? hn)
    refine ⟨?_, ?_⟩
    · rw [detach_next hself, if_neg hpx, if_pos (hprev.trans hp), hnext, hn]
    · rw [detach_prev hself, if_neg hnx, if_pos (hnext.trans hn), hprev, hp]
  · intro w hw
    cases a with
    | nil =>
        have hwx : w ≠ x := fun he => hxb' (he ▸ List.mem_of_mem_head? hw)
        rw [detach_prev hself, if_neg hwx, if_pos (hnext.trans hw), hprev]
        rfl
    | cons v a =>
        obtain rfl : v = w := by simpa using hw
        have hvx : v ≠ x := fun he => hxa (by simp [he])
        rw [detach_prev hself, if_neg hvx, if_neg, hc.first v (by simp)]
        intro hn
        rw [hnext] at hn
        exact hdis v (by simp) v (List.mem_cons_of_mem _ (List.mem_of_mem_head? hn)) rfl
  · intro w hw
    rcases b.eq_nil_or_concat' with rfl | ⟨b', v, rfl⟩
    · rw [List.append_nil] at hw
      have hwx : w ≠ x := fun he => hxa (he ▸ List.mem_of_getLast? hw)
      rw [detach_next hself, if_neg hwx, if_pos (hprev.trans hw), hnext]
      rfl
    · obtain rfl : v = w := by simpa using hw
      have hvx : v ≠ x := fun he => hxb' (by simp [he])
      have hlast : (a ++ x :: (b' ++ [v])).getLast? = some v := by
        rw [← List.cons_append, ← List.append_assoc, List.getLast?_concat]
      rw [detach_next hself, if_neg hvx, if_neg, hc.last v hlast]
      intro hp
      rw [hprev] at hp
      exact hdis v (List.mem_of_getLast? hp) v (by simp) rfl
  · exact List.nodup_append.mpr ⟨hnda, hndb, fun u hu v hv => hdis u hu v (List.mem_cons_of_mem _ hv)⟩

/-- Link `x` in at the head of the chain whose head pointer is `h`. -/
def attach (L : Fields α) (h : Option α) (x : α) : Fields α :=
  let L1 := (L.setPrev x none).setNext x h
  match h with
  | some y => L1.setPrev y (some x)
  | none => L1

theorem attach_next (L : Fields α) (h : Option α) (x u : α) :
    (attach L h x).next u = if u = x then h else L.next u := by
  cases h <;> rfl

theorem attach_prev {L : Fields α} {h : Option α} {x : α} (hx : h ≠ some x) (u : α) :
    (attach L h x).prev u = if u = x then none else if h = some u then some x else L.prev u := by
  cases h with
  | none => simp [attach]
  | some y =>
      have hyx : x ≠ y := fun he => hx (by rw [he])
      by_cases huy : u = y <;> by_cases hux : u = x <;> simp_all [attach, eq_comm]

/-- A new element linked in at the head of a chain. -/
theorem Chain.attach {L : Fields α} {l : List α} {h : Option α} {x : α} (hc : Chain L h l) (hx : x ∉ l) :
    Chain (attach L h x) (some x) (x :: l) := by
  have hhx : h ≠ some x := fun he => hx (List.mem_of_mem_head? (hc.head.symm.trans he))
  refine ⟨rfl, List.isChain_cons.mpr ⟨?_, ?_⟩, ?_, ?_, List.nodup_cons.mpr ⟨hx, hc.nodup⟩⟩
  · intro y hy
    have hyx : y ≠ x := fun he => hx (he ▸ List.mem_of_mem_head? hy)
    have hh : h = some y := hc.head.trans hy
    exact ⟨by rw [attach_next, if_pos rfl, hh], by rw [attach_prev hhx, if_neg hyx, if_pos hh]⟩
  · refine hc.chain.imp_of_mem_tail_imp fun u v hu hv huv => ?_
    have hux : u ≠ x := fun he => hx (he ▸ hu)
    have hvx : v ≠ x := fun he => hx (he ▸ List.mem_of_mem_tail hv)
    refine ⟨by rw [attach_next, if_neg hux, huv.1], ?_⟩
    rw [attach_prev hhx, if_neg hvx, if_neg, huv.2]
    -- the head of `l` has no predecessor inside `l`
    intro hhv
    have hfirst := hc.first v (hc.head.symm.trans hhv)
    exact absurd (huv.2.symm.trans hfirst) (by simp)
  · intro w hw
    obtain rfl : x = w := by simpa using hw
    rw [attach_prev hhx, if_pos rfl]
  · intro w hw
    rcases l.eq_nil_or_concat' with rfl | ⟨l', v, rfl⟩
    · obtain rfl : x = w := by simpa using hw
      rw [attach_next, if_pos rfl, hc.head]
      rfl
    · rw [← List.cons_append, List.getLast?_concat] at hw
      obtain rfl : v = w := Option.some.inj hw
      have hvx : v ≠ x := fun he => hx (by simp [he])
      rw [attach_next, if_neg hvx, hc.last v (by simp)]

end Links
