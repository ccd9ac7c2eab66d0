import Linux095.BlkDrv.LlRwBlk
import Linux095.Links.Singly
import Mathlib.Data.List.Perm.Basic
import Mathlib.Data.List.Pairwise

/-!
# `BlkDrv.RequestQueue` — the queue of a block device

`add_request` puts a request into the queue of a device: a swap request (one without a buffer) goes behind the swap
requests that wait, an ordinary one where the elevator says. `end_request` takes the active request, the first, off.

* `QueueIs` — the requests of a device in their order; `queueIs_addRequest`, `queueIs_endRequest`;
* `Step` — calls of `add_request` and `end_request` on one device, and what has been submitted and served;
* `swap_order` — **as long as the elevator puts no ordinary request ahead of a swap request, swap requests are served
  in order and before what is ordinary**; `swap_overtaken` is a run where it does.
-/

namespace Linux095
namespace BlkDrv
open Fs Links Relation

/-- The requests of the device `m`, the active one first. -/
def QueueIs (k : Kernel) (m : Nat) (l : List Nat) : Prop :=
  Leads (fun r => (k.request r).next) (k.blkDev m).currentRequest l

/-! ## Where a request goes -/

/-- `add_request` breaks its loop between `tmp` and `n`. -/
def stops (k : Kernel) (req : Request) (tmp n : Nat) : Bool :=
  if req.bh.isNone then (k.request n).bh.isSome
  else (inOrder (k.request tmp) req ∨ ¬ inOrder (k.request tmp) (k.request n)) ∧ inOrder req (k.request n)

/-- The requests behind `tmp` once `r` is among them. -/
def place (k : Kernel) (req : Request) (r : Nat) : Nat → List Nat → List Nat
  | _, [] => [r]
  | tmp, n :: l => if stops k req tmp n then r :: n :: l else n :: place k req r n l

theorem insertPoint_succ {k : Kernel} {req : Request} {fuel tmp n : Nat} (h : (k.request tmp).next = some n) :
    insertPoint k req (fuel + 1) tmp = if stops k req tmp n then tmp else insertPoint k req fuel n := by
  unfold stops
  rw [insertPoint, h]
  by_cases hb : req.bh.isNone
  · simp only [hb, if_true]
  · simp only [hb, Bool.false_eq_true, if_false, decide_eq_true_eq]

/-- The loop of `add_request` finds the place. -/
theorem insertPoint_spec {k : Kernel} {req : Request} {r fuel tmp : Nat} {l : List Nat}
    (h : Leads (fun r => (k.request r).next) (some tmp) (tmp :: l)) (hfuel : l.length < fuel) :
    ∃ l₁ l₂, tmp :: l = l₁ ++ insertPoint k req fuel tmp :: l₂ ∧
      tmp :: place k req r tmp l = l₁ ++ insertPoint k req fuel tmp :: r :: l₂ := by
  induction l generalizing tmp fuel with
  | nil =>
      obtain ⟨fuel, rfl⟩ := Nat.exists_eq_succ_of_ne_zero (Nat.ne_of_gt (Nat.zero_lt_of_lt hfuel))
      have hn : (k.request tmp).next = none := h.of_cons.2.head
      refine ⟨[], [], ?_, ?_⟩ <;>
        · unfold insertPoint
          rw [hn]
          rfl
  | cons n l ih =>
      obtain ⟨fuel, rfl⟩ := Nat.exists_eq_succ_of_ne_zero (Nat.ne_of_gt (Nat.zero_lt_of_lt hfuel))
      have hrest := h.of_cons.2
      have hn : (k.request tmp).next = some n := hrest.head
      rw [insertPoint_succ hn]
      by_cases hs : stops k req tmp n
      · rw [if_pos hs]
        refine ⟨[], n :: l, rfl, ?_⟩
        unfold place
        rw [if_pos hs]
        rfl
      · rw [if_neg hs]
        obtain ⟨l₁, l₂, heq, hplace⟩ := ih (hn ▸ hrest) (Nat.lt_of_succ_lt_succ hfuel)
        refine ⟨tmp :: l₁, l₂, ?_, ?_⟩
        · rw [heq]
          rfl
        · unfold place
          rw [if_neg hs, hplace]
          rfl

theorem mem_place {k : Kernel} {req : Request} {r tmp x : Nat} {l : List Nat} :
    x ∈ place k req r tmp l ↔ x = r ∨ x ∈ l := by
  induction l generalizing tmp with
  | nil => simp [place]
  | cons n l ih =>
      unfold place
      split
      · simp
      · simp only [List.mem_cons, ih]
        tauto

theorem place_perm {k : Kernel} {req : Request} {r tmp : Nat} {l : List Nat} :
    (place k req r tmp l).Perm (r :: l) := by
  induction l generalizing tmp with
  | nil => exact .refl _
  | cons n l ih =>
      unfold place
      split
      · exact .refl _
      · exact (ih.cons n).trans (.swap r n l)

/-! ## What a call changes -/

/-- A request keeps all of its fields but its place. -/
def Relinked (k k' : Kernel) : Prop := ∀ x, ∃ n, k'.request x = { k.request x with next := n }

namespace Relinked

variable {k k' k'' : Kernel}

theorem refl (k : Kernel) : Relinked k k := fun _ => ⟨_, rfl⟩

theorem trans (h : Relinked k k') (h' : Relinked k' k'') : Relinked k k'' := by
  intro x
  obtain ⟨n, hn⟩ := h x
  obtain ⟨n', hn'⟩ := h' x
  refine ⟨n', ?_⟩
  rw [hn', hn]

theorem setRequest (k : Kernel) (r : Nat) (f : Request → Option Nat) :
    Relinked k (setRequest k r fun q => { q with next := f q }) := by
  intro x
  by_cases hx : x = r
  · exact ⟨f (k.request x), by simp [BlkDrv.setRequest, hx]⟩
  · exact ⟨(k.request x).next, by simp [BlkDrv.setRequest, hx]⟩

theorem bh (h : Relinked k k') (x : Nat) : (k'.request x).bh = (k.request x).bh := by
  obtain ⟨n, hn⟩ := h x
  rw [hn]

theorem dev (h : Relinked k k') (x : Nat) : (k'.request x).dev = (k.request x).dev := by
  obtain ⟨n, hn⟩ := h x
  rw [hn]

theorem cmd (h : Relinked k k') (x : Nat) : (k'.request x).cmd = (k.request x).cmd := by
  obtain ⟨n, hn⟩ := h x
  rw [hn]

theorem stops (h : Relinked k k') (r tmp n : Nat) :
    stops k' (k'.request r) tmp n = BlkDrv.stops k (k.request r) tmp n := by
  obtain ⟨_, hr⟩ := h r
  obtain ⟨_, htmp⟩ := h tmp
  obtain ⟨_, hn⟩ := h n
  unfold BlkDrv.stops
  rw [hr, htmp, hn]
  rfl

end Relinked

theorem request_markClean (k : Kernel) (r : Nat) : (markClean k r).request = k.request := by
  unfold markClean
  cases (k.request r).bh <;> rfl

theorem blkDev_markClean (k : Kernel) (r : Nat) : (markClean k r).blkDev = k.blkDev := by
  unfold markClean
  cases (k.request r).bh <;> rfl

/-- `tmp->next` and `req->next`, once `r` is linked in behind `tmp`. -/
theorem next_link (k : Kernel) (r tmp : Nat) :
    (fun x => ((setRequest (setRequest k r fun q => { q with next := (k.request tmp).next }) tmp
      fun q => { q with next := some r }).request x).next) =
    Function.update (Function.update (fun x => (k.request x).next) r (k.request tmp).next) tmp (some r) := by
  funext x
  by_cases htmp : x = tmp
  · subst htmp
    simp [setRequest]
  · rw [Function.update_of_ne htmp]
    by_cases hr : x = r
    · subst hr
      simp [setRequest, htmp]
    · simp [setRequest, htmp, hr]

theorem relinked_enqueue (m r : Nat) (k : Kernel) : Relinked k (enqueue m r k) := by
  unfold enqueue
  cases (k.blkDev m).currentRequest with
  | none => exact .refl k
  | some c => exact (Relinked.setRequest k r _).trans (.setRequest _ _ _)

theorem relinked_markClean (k : Kernel) (r : Nat) : Relinked k (markClean k r) := by
  intro x
  rw [request_markClean]
  exact Relinked.refl k x

theorem relinked_addRequest (m r : Nat) (k : Kernel) : Relinked k (addRequest m r k) :=
  ((Relinked.setRequest k r _).trans (relinked_markClean _ r)).trans (relinked_enqueue m r _)

/-- The queue once `r` has been added to `l`. -/
def addTo (k : Kernel) (r : Nat) : List Nat → List Nat
  | [] => [r]
  | c :: l => c :: place k (k.request r) r c l

theorem addTo_perm {k : Kernel} {r : Nat} {l : List Nat} : (addTo k r l).Perm (r :: l) := by
  cases l with
  | nil => exact .refl _
  | cons c l => exact (place_perm.cons c).trans (.swap r c l)

theorem Relinked.addTo {k k' : Kernel} (h : Relinked k k') (r : Nat) (l : List Nat) : addTo k' r l = addTo k r l := by
  have hplace : ∀ tmp l, place k' (k'.request r) r tmp l = place k (k.request r) r tmp l := by
    intro tmp l
    induction l generalizing tmp with
    | nil => rfl
    | cons n l ih =>
        unfold place
        rw [h.stops, ih]
  cases l with
  | nil => rfl
  | cons c l => exact congrArg (c :: ·) (hplace c l)

theorem length_le {l : List Nat} {n : Nat} (hnodup : l.Nodup) (hlt : ∀ x ∈ l, x < n) : l.length ≤ n := by
  have hsub : l ⊆ List.range n := fun x hx => List.mem_range.mpr (hlt x hx)
  simpa using (hnodup.subperm hsub).length_le

theorem queueIs_enqueue {k : Kernel} {m r : Nat} {l : List Nat} (h : QueueIs k m l) (hnodup : l.Nodup)
    (hlt : ∀ x ∈ l, x < NR_REQUEST) (hr : r ∉ l) (hnext : (k.request r).next = none) :
    QueueIs (enqueue m r k) m (addTo k r l) := by
  cases l with
  | nil =>
      have hc : (k.blkDev m).currentRequest = none := h.head
      unfold enqueue QueueIs
      simp only [hc, setCurrentRequest, if_true, addTo]
      apply Leads.cons
      rw [hnext]
      exact .nil
  | cons c l =>
      have hc : (k.blkDev m).currentRequest = some c := h.head
      have hleads := h
      unfold QueueIs at hleads
      rw [hc] at hleads
      have hlen : l.length < NR_REQUEST := length_le hnodup hlt
      obtain ⟨l₁, l₂, heq, hplace⟩ :=
        @insertPoint_spec k (k.request r) r _ _ _ hleads hlen
      unfold enqueue QueueIs addTo
      simp only [hc]
      rw [next_link, hplace]
      refine Leads.insert ?_ ?_ ?_
      · rw [← heq]
        exact h
      · rw [← heq]
        exact hnodup
      · rw [← heq]
        exact hr

/-- **`add_request` adds `r` to the queue.** -/
theorem queueIs_addRequest {k : Kernel} {m r : Nat} {l : List Nat} (h : QueueIs k m l) (hnodup : l.Nodup)
    (hlt : ∀ x ∈ l, x < NR_REQUEST) (hr : r ∉ l) : QueueIs (addRequest m r k) m (addTo k r l) := by
  have hnew : Relinked k (markClean (setRequest k r fun q => { q with next := none }) r) :=
    (Relinked.setRequest k r _).trans (relinked_markClean _ r)
  unfold addRequest
  rw [← hnew.addTo r l]
  apply queueIs_enqueue _ hnodup hlt hr
  · rw [request_markClean]
    simp [setRequest]
  · unfold QueueIs
    rw [request_markClean, blkDev_markClean]
    refine Leads.congr h fun x hx => ?_
    have hne : x ≠ r := ne_of_mem_of_not_mem hx hr
    simp [setRequest, hne]

theorem next_enqueue {k : Kernel} {m r x : Nat} {l : List Nat} (h : QueueIs k m l) (hlen : l.length ≤ NR_REQUEST)
    (hx : x ∉ l) (hxr : x ≠ r) : ((enqueue m r k).request x).next = (k.request x).next := by
  cases l with
  | nil =>
      have hc : (k.blkDev m).currentRequest = none := h.head
      unfold enqueue
      rw [hc]
      rfl
  | cons c l =>
      have hc : (k.blkDev m).currentRequest = some c := h.head
      have hleads := h
      unfold QueueIs at hleads
      rw [hc] at hleads
      obtain ⟨l₁, l₂, heq, -⟩ := @insertPoint_spec k (k.request r) r _ _ _ hleads hlen
      -- the request behind which `r` goes is in the queue
      have hne : x ≠ insertPoint k (k.request r) NR_REQUEST c := by
        rintro rfl
        apply hx
        rw [heq]
        simp
      unfold enqueue
      simp [hc, setRequest, hne, hxr]

/-- `add_request` leaves the other devices alone. -/
theorem queueIs_addRequest_other {k : Kernel} {m m' r : Nat} {l l' : List Nat} (h : QueueIs k m l)
    (hnodup : l.Nodup) (hlt : ∀ x ∈ l, x < NR_REQUEST) (h' : QueueIs k m' l') (hm : m' ≠ m) (hr : r ∉ l)
    (hr' : r ∉ l') (hapart : ∀ x ∈ l', x ∉ l) : QueueIs (addRequest m r k) m' l' := by
  have hmarked : ∀ {m l}, QueueIs k m l → r ∉ l →
      QueueIs (markClean (setRequest k r fun q => { q with next := none }) r) m l := by
    intro m l h hr
    unfold QueueIs
    rw [request_markClean, blkDev_markClean]
    refine Leads.congr h fun x hx => ?_
    simp [setRequest, ne_of_mem_of_not_mem hx hr]
  have hblk : ∀ k : Kernel, (enqueue m r k).blkDev m' = k.blkDev m' := by
    intro k
    unfold enqueue
    cases (k.blkDev m).currentRequest with
    | none => exact if_neg hm
    | some c => rfl
  unfold addRequest QueueIs
  rw [hblk]
  refine Leads.congr (hmarked h' hr') fun x hx => ?_
  exact next_enqueue (hmarked h hr) (length_le hnodup hlt) (hapart x hx) (ne_of_mem_of_not_mem hx hr')

/-- `add_request` locks and unlocks nothing. -/
theorem bLock_addRequest (k : Kernel) (m r b : Nat) : ((addRequest m r k).bh b).bLock = (k.bh b).bLock := by
  have hclean : ∀ k, ((markClean k r).bh b).bLock = (k.bh b).bLock := by
    intro k
    unfold markClean
    cases (k.request r).bh with
    | none => rfl
    | some b' => by_cases hb : b = b' <;> simp [Kernel.setDirt, Kernel.setBh, hb]
  have henqueue : ∀ k, (enqueue m r k).bh = k.bh := by
    intro k
    unfold enqueue
    cases (k.blkDev m).currentRequest <;> rfl
  unfold addRequest
  rw [henqueue, hclean]
  rfl

/-- `end_request` unlocks the buffer of the active request. -/
theorem bLock_endRequest {k : Kernel} {m r : Nat} (u : Bool) (hc : (k.blkDev m).currentRequest = some r) (b : Nat) :
    ((endRequest m u k).bh b).bLock = if (k.request r).bh = some b then false else (k.bh b).bLock := by
  unfold endRequest
  cases hb : (k.request r).bh with
  | none => simp [hc, hb, setRequest, setCurrentRequest]
  | some b' =>
      by_cases hbb : b = b'
      · simp [hc, hb, setRequest, setCurrentRequest, Kernel.setUptodate, Kernel.setLock, Kernel.setBh, hbb]
      · simp [hc, hb, setRequest, setCurrentRequest, Kernel.setUptodate, Kernel.setLock, Kernel.setBh, hbb,
          Ne.symm hbb]

/-- **`end_request` takes the active request off the queue**, and its slot is empty. -/
theorem endRequest_some {k : Kernel} {m r : Nat} (u : Bool) (hc : (k.blkDev m).currentRequest = some r) :
    (endRequest m u k).request = (fun x => if x = r then { k.request x with dev := -1 } else k.request x) ∧
      (endRequest m u k).blkDev =
        fun x => if x = m then { k.blkDev x with currentRequest := (k.request r).next } else k.blkDev x := by
  unfold endRequest
  cases hb : (k.request r).bh <;>
    simp [hc, hb, setRequest, setCurrentRequest, Kernel.setUptodate, Kernel.setLock, Kernel.setBh]

theorem queueIs_endRequest {k : Kernel} {m r : Nat} {l : List Nat} (u : Bool) (h : QueueIs k m (r :: l)) :
    QueueIs (endRequest m u k) m l := by
  obtain ⟨hreq, hblk⟩ := endRequest_some u h.of_cons.1
  unfold QueueIs
  rw [hreq, hblk]
  simp only [if_true]
  refine h.of_cons.2.congr fun x _ => ?_
  split <;> rfl

/-! ## Calls one after the other -/

/-- A device with what has been submitted to it (the buffer of each request, in order), which of the submissions a
slot holds, and which of them have been served, in order. -/
structure Device where
  k : Kernel
  submitted : List (Option Nat)
  tag : Nat → Nat
  served : List Nat

namespace Device

/-- Nothing has been submitted. -/
def start (k : Kernel) : Device := ⟨k, [], fun _ => 0, []⟩

/-- The slot `r` is filled with `q`, and goes to `add_request`. -/
def add (c : Device) (m r : Nat) (q : Request) : Device where
  k := addRequest m r (setRequest c.k r fun _ => q)
  submitted := c.submitted ++ [q.bh]
  tag := fun x => if x = r then c.submitted.length else c.tag x
  served := c.served

/-- A driver counts sectors and errors in the active request. -/
def drive (c : Device) (r : Nat) (sector : BitVec 32) (nrSectors errors : Nat) (buffer : X86.Addr) : Device :=
  { c with k := setRequest c.k r fun q => { q with sector, nrSectors, errors, buffer } }

/-- `end_request`, when `r` is active. -/
def done (c : Device) (m r : Nat) (uptodate : Bool) : Device :=
  { c with k := endRequest m uptodate c.k, served := c.served ++ [c.tag r] }

/-- The submission `i` is a swap request. -/
def isSwap (c : Device) (i : Nat) : Bool := c.submitted[i]? == some none

/-- What has been served, then what will be if nothing more is submitted. -/
def order (c : Device) (l : List Nat) : List Nat := c.served ++ l.map c.tag

end Device

/-- The elevator stops ahead of no swap request that waits when the ordinary request `q` is submitted. -/
def Clear (m : Nat) (c : Device) (q : Request) : Prop :=
  q.bh.isSome → ∀ l₁ tmp n l₂, QueueIs c.k m (l₁ ++ tmp :: n :: l₂) → (c.k.request n).bh.isNone →
    stops c.k q tmp n = false

/-- One call for the device `m`, which submits only what is `ok`. A driver ends a request only when one is active. -/
inductive Step (m : Nat) (ok : Device → Request → Prop) : Device → Device → Prop
  | add {c : Device} {r : Nat} (q : Request) (hr : r < NR_REQUEST) (hfree : (c.k.request r).dev < 0)
      (hq : 0 ≤ q.dev) (hok : ok c q) : Step m ok c (c.add m r q)
  | drive {c : Device} {r : Nat} (sector : BitVec 32) (nrSectors errors : Nat) (buffer : X86.Addr)
      (hr : (c.k.blkDev m).currentRequest = some r) : Step m ok c (c.drive r sector nrSectors errors buffer)
  | done {c : Device} {r : Nat} (u : Bool) (hr : (c.k.blkDev m).currentRequest = some r) :
      Step m ok c (c.done m r u)

/-- The calls made since nothing was submitted. -/
def Run (m : Nat) (ok : Device → Request → Prop) (c : Device) : Prop :=
  ∃ k : Kernel, (k.blkDev m).currentRequest = none ∧ ReflTransGen (Step m ok) (.start k) c

/-- **What is expected of runs**: swap requests are served in order, what waits behind the active request is served
swap requests first, and nothing is lost or served twice. -/
structure SwapOrder (m : Nat) (ok : Device → Request → Prop) : Prop where
  inOrder : ∀ c, Run m ok c → (c.served.filter c.isSwap).Pairwise (· < ·)
  first : ∀ c c' active l, Run m ok c → ReflTransGen (Step m ok) c c' → QueueIs c.k m (active :: l) →
    ∀ s ∈ l, ∀ o ∈ l, (c.k.request s).bh = none → (c.k.request o).bh ≠ none → c.tag o ∈ c'.served →
      [c.tag s, c.tag o].Sublist c'.served
  once : ∀ c, Run m ok c → ∃ l, QueueIs c.k m l ∧ (c.order l).Perm (List.range c.submitted.length)

/-! ## The queue holds what has been submitted and not served -/

/-- **The invariant**: `l` is the queue. -/
structure Queued (m : Nat) (c : Device) (l : List Nat) : Prop where
  queue : QueueIs c.k m l
  nodup : l.Nodup
  slot : ∀ r ∈ l, r < NR_REQUEST ∧ 0 ≤ (c.k.request r).dev
  once : (c.order l).Perm (List.range c.submitted.length)
  bh : ∀ r ∈ l, c.submitted[c.tag r]? = some (c.k.request r).bh

namespace Queued

variable {m r : Nat} {c c' : Device} {l : List Nat}

theorem start {k : Kernel} (hk : (k.blkDev m).currentRequest = none) : Queued m (.start k) [] where
  queue := by
    unfold QueueIs Device.start
    rw [hk]
    exact .nil
  nodup := List.nodup_nil
  slot := fun r hr => absurd hr List.not_mem_nil
  once := .refl _
  bh := fun r hr => absurd hr List.not_mem_nil

theorem not_mem (h : Queued m c l) (hfree : (c.k.request r).dev < 0) : r ∉ l := by
  intro hr
  have := (h.slot r hr).2
  omega

theorem tag_lt (h : Queued m c l) {i : Nat} (hi : i ∈ c.order l) : i < c.submitted.length := by
  have := h.once.mem_iff.mp hi
  exact List.mem_range.mp this

theorem order_nodup (h : Queued m c l) : (c.order l).Nodup := h.once.nodup_iff.mpr List.nodup_range

theorem isSwap_iff (h : Queued m c l) (hr : r ∈ l) : c.isSwap (c.tag r) = (c.k.request r).bh.isNone := by
  unfold Device.isSwap
  rw [h.bh r hr]
  cases (c.k.request r).bh <;> rfl

/-- The driver keeps the queue. -/
theorem drive (h : Queued m c l) {s : BitVec 32} {n e : Nat} {a : X86.Addr} : Queued m (c.drive r s n e a) l := by
  have hreq : ∀ x, ((c.drive r s n e a).k.request x).next = (c.k.request x).next ∧
      ((c.drive r s n e a).k.request x).dev = (c.k.request x).dev ∧
      ((c.drive r s n e a).k.request x).bh = (c.k.request x).bh := by
    intro x
    simp only [Device.drive, setRequest]
    split <;> exact ⟨rfl, rfl, rfl⟩
  refine ⟨?_, h.nodup, ?_, h.once, ?_⟩
  · exact Leads.congr h.queue fun x _ => (hreq x).1
  · intro x hx
    rw [(hreq x).2.1]
    exact h.slot x hx
  · intro x hx
    rw [(hreq x).2.2]
    exact h.bh x hx

/-- `end_request` serves the head. -/
theorem done (h : Queued m c (r :: l)) (u : Bool) : Queued m (c.done m r u) l := by
  obtain ⟨hreq, -⟩ := endRequest_some u h.queue.of_cons.1
  have hne : ∀ x ∈ l, x ≠ r := by
    rintro x hx rfl
    exact (List.nodup_cons.mp h.nodup).1 hx
  have hsame : ∀ x ∈ l, (c.done m r u).k.request x = c.k.request x := by
    intro x hx
    show (endRequest m u c.k).request x = c.k.request x
    rw [hreq]
    exact if_neg (hne x hx)
  refine ⟨queueIs_endRequest u h.queue, (List.nodup_cons.mp h.nodup).2, ?_, ?_, ?_⟩
  · intro x hx
    rw [hsame x hx]
    exact h.slot x (List.mem_cons_of_mem _ hx)
  · have honce := h.once
    unfold Device.order Device.done at *
    simpa using honce
  · intro x hx
    rw [hsame x hx]
    exact h.bh x (List.mem_cons_of_mem _ hx)

end Queued

/-! ## A submission -/

theorem place_append {k : Kernel} {req : Request} {r tmp : Nat} {s o : List Nat}
    (h : ∀ l₁ tmp' n l₂, tmp :: s = l₁ ++ tmp' :: n :: l₂ → stops k req tmp' n = false) :
    ∃ tmp', place k req r tmp (s ++ o) = s ++ place k req r tmp' o := by
  induction s generalizing tmp with
  | nil => exact ⟨tmp, rfl⟩
  | cons n s ih =>
      have hs : stops k req tmp n = false := h [] tmp n s rfl
      obtain ⟨tmp', htmp'⟩ := ih fun l₁ a b l₂ heq => h (tmp :: l₁) a b l₂ (by rw [heq]; rfl)
      refine ⟨tmp', ?_⟩
      rw [List.cons_append, place, hs, htmp']
      rfl

/-- A request goes in somewhere. -/
theorem addTo_split (k : Kernel) (r : Nat) (l : List Nat) :
    ∃ l₁ l₂, l = l₁ ++ l₂ ∧ addTo k r l = l₁ ++ r :: l₂ := by
  have hplace : ∀ tmp l, ∃ l₁ l₂, l = l₁ ++ l₂ ∧ place k (k.request r) r tmp l = l₁ ++ r :: l₂ := by
    intro tmp l
    induction l generalizing tmp with
    | nil => exact ⟨[], [], rfl, rfl⟩
    | cons n l ih =>
        by_cases hs : stops k (k.request r) tmp n
        · exact ⟨[], n :: l, rfl, by rw [place, if_pos hs]; rfl⟩
        · obtain ⟨l₁, l₂, rfl, heq⟩ := ih n
          exact ⟨n :: l₁, l₂, rfl, by rw [place, if_neg hs, heq]; rfl⟩
  cases l with
  | nil => exact ⟨[], [], rfl, rfl⟩
  | cons c l =>
      obtain ⟨l₁, l₂, rfl, heq⟩ := hplace c l
      exact ⟨c :: l₁, l₂, rfl, congrArg (c :: ·) heq⟩

namespace Queued

variable {m r : Nat} {c c' : Device} {l : List Nat}

/-- The slots that are filled stay as they are. -/
theorem request_add (h : Queued m c l) (q : Request) (hfree : (c.k.request r).dev < 0) :
    ∀ x ∈ l, ((c.add m r q).k.request x).bh = (c.k.request x).bh ∧
      ((c.add m r q).k.request x).dev = (c.k.request x).dev ∧ (c.add m r q).tag x = c.tag x := by
  intro x hx
  have hne : x ≠ r := ne_of_mem_of_not_mem hx (h.not_mem hfree)
  have hrel := relinked_addRequest m r (setRequest c.k r fun _ => q)
  refine ⟨(hrel.bh x).trans ?_, (hrel.dev x).trans ?_, if_neg hne⟩ <;>
    simp [setRequest, hne]

theorem request_new (c : Device) (q : Request) (m r : Nat) :
    ((c.add m r q).k.request r).bh = q.bh ∧ ((c.add m r q).k.request r).dev = q.dev ∧
      (c.add m r q).tag r = c.submitted.length := by
  have hrel := relinked_addRequest m r (setRequest c.k r fun _ => q)
  refine ⟨(hrel.bh r).trans ?_, (hrel.dev r).trans ?_, if_pos rfl⟩ <;>
    simp [setRequest]

theorem order_add (h : Queued m c l) (q : Request) (hfree : (c.k.request r).dev < 0) {l₁ l₂ : List Nat}
    (hl : l = l₁ ++ l₂) :
    (c.add m r q).order (l₁ ++ r :: l₂) =
      c.served ++ l₁.map c.tag ++ c.submitted.length :: l₂.map c.tag := by
  have htag : ∀ x ∈ l, (c.add m r q).tag x = c.tag x := fun x hx => (h.request_add q hfree x hx).2.2
  have h₁ : l₁.map (c.add m r q).tag = l₁.map c.tag :=
    List.map_congr_left fun x hx => htag x (by rw [hl]; exact List.mem_append_left _ hx)
  have h₂ : l₂.map (c.add m r q).tag = l₂.map c.tag :=
    List.map_congr_left fun x hx => htag x (by rw [hl]; exact List.mem_append_right _ hx)
  unfold Device.order
  rw [List.map_append, List.map_cons, h₁, h₂, (request_new c q m r).2.2, List.append_assoc]
  rfl

/-- `add_request` takes in one more. -/
theorem add (h : Queued m c l) (q : Request) (hr : r < NR_REQUEST) (hfree : (c.k.request r).dev < 0)
    (hq : 0 ≤ q.dev) : Queued m (c.add m r q) (addTo (setRequest c.k r fun _ => q) r l) := by
  have hnot := h.not_mem hfree
  have hqueue : QueueIs (setRequest c.k r fun _ => q) m l := by
    refine Leads.congr h.queue fun x hx => ?_
    have hne : x ≠ r := ne_of_mem_of_not_mem hx hnot
    simp [setRequest, hne]
  have hmem : ∀ x, x ∈ addTo (setRequest c.k r fun _ => q) r l ↔ x = r ∨ x ∈ l := by
    intro x
    rw [addTo_perm.mem_iff, List.mem_cons]
  refine ⟨queueIs_addRequest hqueue h.nodup (fun x hx => (h.slot x hx).1) hnot, ?_, ?_, ?_, ?_⟩
  · exact addTo_perm.nodup_iff.mpr (List.nodup_cons.mpr ⟨hnot, h.nodup⟩)
  · intro x hx
    rcases (hmem x).mp hx with rfl | hx
    · rw [(request_new c q m x).2.1]
      exact ⟨hr, hq⟩
    · rw [(h.request_add q hfree x hx).2.1]
      exact h.slot x hx
  · obtain ⟨l₁, l₂, hl, heq⟩ := addTo_split (setRequest c.k r fun _ => q) r l
    rw [heq, h.order_add q hfree hl]
    have honce := h.once
    unfold Device.order at honce
    rw [hl, List.map_append, ← List.append_assoc] at honce
    have hlen : (c.add m r q).submitted.length = c.submitted.length + 1 := by simp [Device.add]
    rw [hlen, List.range_succ]
    exact List.perm_middle.trans ((honce.cons _).trans (List.perm_append_singleton _ _).symm)
  · intro x hx
    show (c.submitted ++ [q.bh])[(c.add m r q).tag x]? = _
    rcases (hmem x).mp hx with rfl | hx
    · rw [(request_new c q m x).2.2, (request_new c q m x).1]
      exact List.getElem?_concat_length
    · obtain ⟨hbh, -, htag⟩ := h.request_add q hfree x hx
      rw [hbh, htag, List.getElem?_append_left, h.bh x hx]
      apply h.tag_lt
      exact List.mem_append_right _ (List.mem_map_of_mem hx)

end Queued

/-! ## The order of what is served -/

/-- A submission goes in somewhere, and everything else stays in order. -/
theorem order_sublist {m : Nat} {ok : Device → Request → Prop} {c c' : Device} {l : List Nat} (h : Queued m c l)
    (hs : Step m ok c c') : ∃ l', Queued m c' l' ∧ (c.order l).Sublist (c'.order l') := by
  cases hs with
  | @add r q hr hfree hq hok =>
      refine ⟨_, h.add q hr hfree hq, ?_⟩
      obtain ⟨l₁, l₂, hl, heq⟩ := addTo_split (setRequest c.k r fun _ => q) r l
      rw [heq, h.order_add q hfree hl, hl]
      unfold Device.order
      rw [List.map_append, ← List.append_assoc]
      exact (List.Sublist.refl _).append (List.sublist_cons_self _ _)
  | drive s n e a hr => exact ⟨l, h.drive, .refl _⟩
  | @done r u hr =>
      cases l with
      | nil =>
          have hnone := h.queue.head
          rw [hr] at hnone
          exact absurd hnone (by simp)
      | cons a l =>
          have ha : a = r := Option.some.inj (h.queue.head.symm.trans hr)
          subst ha
          refine ⟨l, h.done u, ?_⟩
          unfold Device.order Device.done
          rw [List.append_assoc]
          exact .refl _

theorem order_sublist_run {m : Nat} {ok : Device → Request → Prop} {c c' : Device} {l : List Nat}
    (h : Queued m c l) (hs : ReflTransGen (Step m ok) c c') :
    ∃ l', Queued m c' l' ∧ (c.order l).Sublist (c'.order l') := by
  induction hs with
  | refl => exact ⟨l, h, .refl _⟩
  | tail _ hstep ih =>
      obtain ⟨l₁, h₁, hsub₁⟩ := ih
      obtain ⟨l₂, h₂, hsub₂⟩ := order_sublist h₁ hstep
      exact ⟨l₂, h₂, hsub₁.trans hsub₂⟩

/-- What is first in the order is served first. -/
theorem served_first {m : Nat} {c : Device} {l : List Nat} (h : Queued m c l) {i j : Nat}
    (hsub : [i, j].Sublist (c.order l)) (hj : j ∈ c.served) : [i, j].Sublist c.served := by
  obtain ⟨a, b, hab, ha, hb⟩ := List.sublist_append_iff.mp hsub
  rcases List.eq_nil_or_concat b with rfl | ⟨b', x, rfl⟩
  · rw [List.append_nil] at hab
    rw [hab]
    exact ha
  · have hx : x = j := by
      have hlast := congrArg List.getLast? hab
      simpa using hlast.symm
    subst hx
    have hj' : x ∈ l.map c.tag := hb.subset (by simp)
    exact absurd hj' (List.disjoint_of_nodup_append h.order_nodup hj)

/-- A number larger than all goes into a list in order, behind all that count. -/
theorem pairwise_insert {S₁ S₂ : List Nat} {p p' : Nat → Bool} {n : Nat} (hlt : ∀ i ∈ S₁ ++ S₂, i < n)
    (hp : ∀ i ∈ S₁ ++ S₂, p' i = p i) (h : ((S₁ ++ S₂).filter p).Pairwise (· < ·))
    (hn : p' n = true → ∀ i ∈ S₂, p i = false) : ((S₁ ++ n :: S₂).filter p').Pairwise (· < ·) := by
  have h₁ : S₁.filter p' = S₁.filter p := List.filter_congr fun i hi => hp i (List.mem_append_left _ hi)
  have h₂ : S₂.filter p' = S₂.filter p := List.filter_congr fun i hi => hp i (List.mem_append_right _ hi)
  rw [List.filter_append] at h
  cases hpn : p' n with
  | false =>
      rw [List.filter_append, List.filter_cons_of_neg (by simp [hpn]), h₁, h₂]
      exact h
  | true =>
      have hnil : S₂.filter p = [] := by
        rw [List.filter_eq_nil_iff]
        intro i hi
        simp [hn hpn i hi]
      rw [hnil, List.append_nil] at h
      rw [List.filter_append, List.filter_cons_of_pos hpn, h₁, h₂, hnil, List.pairwise_append]
      refine ⟨h, List.pairwise_singleton _ _, ?_⟩
      intro i hi j hj
      rw [List.mem_singleton.mp hj]
      exact hlt i (List.mem_append_left _ (List.mem_of_mem_filter hi))

/-- **The invariant of clear runs**: behind the active request swap requests come first, and they are in order. -/
structure Ordered (c : Device) (l : List Nat) : Prop where
  behind : ∃ s o, l.tail = s ++ o ∧ (∀ x ∈ s, (c.k.request x).bh = none) ∧ ∀ x ∈ o, (c.k.request x).bh ≠ none
  swaps : ((c.order l).filter c.isSwap).Pairwise (· < ·)

namespace Ordered

variable {m r : Nat} {c : Device} {l : List Nat}

/-- The first ordinary request that waits, or the end, is where a swap request goes. -/
theorem place_swap {k : Kernel} {req : Request} {r tmp : Nat} {s o : List Nat} (hreq : req.bh = none)
    (hs : ∀ x ∈ s, (k.request x).bh = none) (ho : ∀ x ∈ o, (k.request x).bh ≠ none) :
    place k req r tmp (s ++ o) = s ++ r :: o := by
  have hstops : ∀ tmp n, stops k req tmp n = (k.request n).bh.isSome := by
    intro tmp n
    simp [stops, hreq]
  obtain ⟨tmp', htmp'⟩ := @place_append k req r tmp s o <| by
    intro l₁ a n l₂ heq
    have hn : n ∈ s := by
      have hmem : n ∈ (tmp :: s).tail := by
        rw [heq]
        cases l₁ <;> simp
      exact hmem
    rw [hstops, hs n hn]
    rfl
  rw [htmp']
  cases o with
  | nil => rfl
  | cons n o =>
      have hn : stops k req tmp' n = true := by
        rw [hstops]
        exact Option.isSome_iff_ne_none.mpr (ho n List.mem_cons_self)
      rw [place, if_pos hn]

theorem isSwap_add (c : Device) (m r : Nat) (q : Request) {i : Nat} (hi : i < c.submitted.length) :
    (c.add m r q).isSwap i = c.isSwap i := by
  unfold Device.isSwap Device.add
  rw [List.getElem?_append_left hi]

theorem isSwap_new (c : Device) (m r : Nat) (q : Request) :
    (c.add m r q).isSwap c.submitted.length = q.bh.isNone := by
  unfold Device.isSwap Device.add
  rw [List.getElem?_concat_length]
  cases q.bh <;> rfl

/-- The swap requests stay in order when none of them waits behind the new one, should it be a swap request. -/
theorem swaps_add (h : Queued m c l) (ho : Ordered c l) (q : Request) (hfree : (c.k.request r).dev < 0)
    (l₁ : List Nat) {l₂ : List Nat} (hl : l = l₁ ++ l₂) (hq : q.bh = none → ∀ x ∈ l₂, (c.k.request x).bh ≠ none) :
    (((c.add m r q).order (l₁ ++ r :: l₂)).filter (c.add m r q).isSwap).Pairwise (· < ·) := by
  have horder : c.order l = c.served ++ l₁.map c.tag ++ l₂.map c.tag := by
    unfold Device.order
    rw [hl, List.map_append, List.append_assoc]
  have hlt : ∀ i ∈ c.served ++ l₁.map c.tag ++ l₂.map c.tag, i < c.submitted.length := by
    intro i hi
    rw [← horder] at hi
    exact h.tag_lt hi
  have hswaps := ho.swaps
  rw [horder] at hswaps
  rw [h.order_add q hfree hl]
  apply pairwise_insert hlt (fun i hi => isSwap_add c m r q (hlt i hi)) hswaps
  intro hnew i hi
  rw [isSwap_new, Option.isNone_iff_eq_none] at hnew
  obtain ⟨x, hx, rfl⟩ := List.mem_map.mp hi
  rw [h.isSwap_iff (by rw [hl]; exact List.mem_append_right _ hx)]
  exact Option.isNone_eq_false_iff.mpr (Option.isSome_iff_ne_none.mpr (hq hnew x hx))

/-- **`add_request` keeps the order**, unless an ordinary request goes ahead of a swap request. -/
theorem add (h : Queued m c l) (ho : Ordered c l) (q : Request) (hfree : (c.k.request r).dev < 0)
    (hclear : Clear m c q) : Ordered (c.add m r q) (addTo (setRequest c.k r fun _ => q) r l) := by
  have hold : ∀ x ∈ l, ((c.add m r q).k.request x).bh = (c.k.request x).bh :=
    fun x hx => (h.request_add q hfree x hx).1
  have hnew : ((c.add m r q).k.request r).bh = q.bh := (Queued.request_new c q m r).1
  cases l with
  | nil => exact ⟨⟨[], [], rfl, by simp, by simp⟩, swaps_add h ho q hfree [] rfl fun _ _ hx => by simp at hx⟩
  | cons a t =>
      obtain ⟨s, o, ht, hs, hord⟩ := ho.behind
      have ht : t = s ++ o := ht
      subst ht
      have hne : ∀ x ∈ a :: (s ++ o), (setRequest c.k r fun _ => q).request x = c.k.request x := by
        intro x hx
        have hxr : x ≠ r := ne_of_mem_of_not_mem hx (h.not_mem hfree)
        simp [setRequest, hxr]
      have hr : (setRequest c.k r fun _ => q).request r = q := by simp [setRequest]
      have hsl : ∀ x ∈ s, x ∈ a :: (s ++ o) := fun x hx => by simp [hx]
      have hol : ∀ x ∈ o, x ∈ a :: (s ++ o) := fun x hx => by simp [hx]
      rw [addTo, hr]
      cases hq : q.bh with
      | none =>
          rw [place_swap hq (fun x hx => by rw [hne x (hsl x hx)]; exact hs x hx)
            fun x hx => by rw [hne x (hol x hx)]; exact hord x hx]
          refine ⟨⟨s ++ [r], o, by simp, ?_, ?_⟩, swaps_add h ho q hfree (a :: s) rfl fun _ => hord⟩
          · intro x hx
            rcases List.mem_append.mp hx with hx | hx
            · rw [hold x (hsl x hx)]
              exact hs x hx
            · rw [List.mem_singleton.mp hx, hnew]
              exact hq
          · intro x hx
            rw [hold x (hol x hx)]
            exact hord x hx
      | some b =>
          obtain ⟨tmp', htmp'⟩ := @place_append (setRequest c.k r fun _ => q) q r a s o <| by
              intro l₁ x n l₂ heq
              have hmem : x ∈ a :: s ∧ n ∈ s := by
                refine ⟨by rw [heq]; simp, ?_⟩
                have hn : n ∈ (a :: s).tail := by
                  rw [heq]
                  cases l₁ <;> simp
                exact hn
              have hstops : stops (setRequest c.k r fun _ => q) q x n = stops c.k q x n := by
                unfold stops
                rw [hne x (by have := hmem.1; simp at this ⊢; tauto), hne n (hsl n hmem.2)]
              rw [hstops]
              apply hclear (by rw [hq]; rfl) l₁ x n (l₂ ++ o)
              · have hqueue := h.queue
                have heq' : a :: (s ++ o) = l₁ ++ x :: n :: (l₂ ++ o) := by
                  rw [← List.cons_append, heq]
                  simp
                rw [heq'] at hqueue
                exact hqueue
              · rw [hs n hmem.2]
                rfl
          refine ⟨⟨s, place (setRequest c.k r fun _ => q) q r tmp' o, by rw [htmp']; rfl, ?_, ?_⟩, ?_⟩
          · intro x hx
            rw [hold x (hsl x hx)]
            exact hs x hx
          · intro x hx
            rcases mem_place.mp hx with rfl | hx
            · rw [hnew, hq]
              exact Option.some_ne_none b
            · rw [hold x (hol x hx)]
              exact hord x hx
          · obtain ⟨l₁, l₂, hl, heq⟩ := addTo_split (setRequest c.k r fun _ => q) r (a :: (s ++ o))
            rw [addTo, hr] at heq
            rw [heq]
            exact swaps_add h ho q hfree l₁ hl fun hnone => absurd (hq.symm.trans hnone) (Option.some_ne_none b)

/-- `end_request` keeps the order. -/
theorem done (h : Queued m c (r :: l)) (ho : Ordered c (r :: l)) (u : Bool) : Ordered (c.done m r u) l := by
  obtain ⟨hreq, -⟩ := endRequest_some u h.queue.of_cons.1
  have hbh : ∀ x, ((c.done m r u).k.request x).bh = (c.k.request x).bh := by
    intro x
    show ((endRequest m u c.k).request x).bh = _
    by_cases hx : x = r <;> simp [hreq, hx]
  obtain ⟨s, o, hl, hs, hord⟩ := ho.behind
  have hl : l = s ++ o := hl
  refine ⟨?_, ?_⟩
  · cases s with
    | nil =>
        refine ⟨[], o.tail, by rw [hl]; rfl, by simp, fun x hx => ?_⟩
        rw [hbh]
        exact hord x (List.mem_of_mem_tail hx)
    | cons a s =>
        refine ⟨s, o, by rw [hl]; rfl, fun x hx => ?_, fun x hx => ?_⟩
        · rw [hbh]
          exact hs x (List.mem_cons_of_mem _ hx)
        · rw [hbh]
          exact hord x hx
  · have horder : (c.done m r u).order l = c.order (r :: l) := by
      unfold Device.order Device.done
      rw [List.append_assoc]
      rfl
    rw [horder]
    exact ho.swaps

/-- A driver at work keeps the order. -/
theorem drive (ho : Ordered c l) {s : BitVec 32} {n e : Nat} {a : X86.Addr} : Ordered (c.drive r s n e a) l := by
  have hbh : ∀ x, ((c.drive r s n e a).k.request x).bh = (c.k.request x).bh := by
    intro x
    simp only [Device.drive, setRequest]
    split <;> rfl
  obtain ⟨⟨s, o, hl, hs, hord⟩, hswaps⟩ := ho
  refine ⟨⟨s, o, hl, fun x hx => ?_, fun x hx => ?_⟩, hswaps⟩
  · rw [hbh]
    exact hs x hx
  · rw [hbh]
    exact hord x hx

end Ordered

/-- Every run keeps what has been submitted. -/
theorem queued_run {m : Nat} {ok : Device → Request → Prop} {c : Device} (hc : Run m ok c) :
    ∃ l, Queued m c l := by
  obtain ⟨k, hk, hrun⟩ := hc
  obtain ⟨l, h, -⟩ := order_sublist_run (Queued.start hk) hrun
  exact ⟨l, h⟩

/-- One call of a clear run. -/
theorem ordered_step {m : Nat} {c c' : Device} {l : List Nat} (h : Queued m c l) (ho : Ordered c l)
    (hs : Step m (Clear m) c c') : ∃ l', Queued m c' l' ∧ Ordered c' l' := by
  cases hs with
  | add q hr hfree hq hok => exact ⟨_, h.add q hr hfree hq, ho.add h q hfree hok⟩
  | drive s n e a hr => exact ⟨l, h.drive, ho.drive⟩
  | @done r u hr =>
      cases l with
      | nil =>
          have hnone := h.queue.head
          rw [hr] at hnone
          exact absurd hnone (by simp)
      | cons a l =>
          have ha : a = r := Option.some.inj (h.queue.head.symm.trans hr)
          subst ha
          exact ⟨l, h.done u, ho.done h u⟩

/-- A clear run. -/
theorem ordered_run {m : Nat} {c : Device} (hc : Run m (Clear m) c) : ∃ l, Queued m c l ∧ Ordered c l := by
  obtain ⟨k, hk, hrun⟩ := hc
  induction hrun with
  | refl => exact ⟨[], .start hk, ⟨[], [], rfl, by simp, by simp⟩, .nil⟩
  | tail _ hstep ih =>
      obtain ⟨l, h, ho⟩ := ih
      exact ordered_step h ho hstep

/-- **Swap requests are served in order, and before what is ordinary, each once**, in every run where no ordinary
request is put ahead of a swap request. -/
theorem swap_order (m : Nat) : SwapOrder m (Clear m) where
  inOrder := by
    intro c hc
    obtain ⟨l, h, ho⟩ := ordered_run hc
    have hsub : (c.served.filter c.isSwap).Sublist ((c.order l).filter c.isSwap) :=
      (List.sublist_append_left _ _).filter _
    exact ho.swaps.sublist hsub
  first := by
    intro c c' active l hc hrun hqueue s hs o ho hsbh hobh hserved
    obtain ⟨l₀, h, hord⟩ := ordered_run hc
    have hl₀ : l₀ = active :: l := h.queue.unique hqueue
    subst hl₀
    -- behind the active request `s` comes before `o`, in what is served and what will be
    obtain ⟨ls, lo, hl, hswap, hordinary⟩ := hord.behind
    have hl : l = ls ++ lo := hl
    have hs' : s ∈ ls := by
      rcases List.mem_append.mp (hl ▸ hs) with hs | hs
      · exact hs
      · exact absurd hsbh (hordinary s hs)
    have ho' : o ∈ lo := by
      rcases List.mem_append.mp (hl ▸ ho) with ho | ho
      · exact absurd (hswap o ho) hobh
      · exact ho
    have hpair : [s, o].Sublist l := by
      rw [hl]
      exact (List.singleton_sublist.mpr hs').append (List.singleton_sublist.mpr ho')
    have hsub : [c.tag s, c.tag o].Sublist (c.order (active :: l)) :=
      ((hpair.map c.tag).cons _).trans (List.sublist_append_right _ _)
    obtain ⟨l', h', hle⟩ := order_sublist_run h hrun
    exact served_first h' (hsub.trans hle) hserved
  once := by
    intro c hc
    obtain ⟨l, h⟩ := queued_run hc
    exact ⟨l, h.queue, h.once⟩

/-! ## A swap request that is overtaken -/

/-- A device that nothing has been submitted to; the slots are empty. -/
def idleDevice : Kernel where
  mem := fun _ => 0
  inode := fun _ => .zero
  superBlock := fun _ => .zero
  nrBuffers := 0
  bh := fun _ => ⟨0, 0, 0, false, false, 0, true, none, none, none, none⟩
  hashTable := fun _ => none
  freeList := none
  request := fun _ => ⟨-1, .read, 0, 0, 0, 0, none, none⟩
  blkDev := fun _ => ⟨true, none⟩

/-- A block of a file system on the first partition is read. -/
def readBlock (b : Nat) : Request := ⟨0x301, .read, 0, BitVec.ofNat 32 (20 + 2 * b), 2, 0, some b, none⟩

/-- A page goes out to the second partition. -/
def swapOut (nr : Nat) : Request := ⟨0x302, .write, 0, BitVec.ofNat 32 (8 * nr), 8, 0, none, none⟩

/-- The second block goes ahead of the first page, for reads go before writes, and takes the second page with it. -/
theorem swap_overtaken : ∃ c, Run 3 (fun _ _ => True) c ∧ c.submitted = [some 0, none, some 1, none] ∧
    c.served = [0, 3, 2, 1] ∧ ¬ (c.served.filter c.isSwap).Pairwise (· < ·) := by
  let c₁ := (Device.start idleDevice).add 3 31 (readBlock 0)
  let c₂ := c₁.add 3 30 (swapOut 1)
  let c₃ := c₂.add 3 29 (readBlock 1)
  let c₄ := c₃.add 3 28 (swapOut 2)
  refine ⟨((((c₄.done 3 31 true).done 3 28 true).done 3 29 true).done 3 30 true), ⟨idleDevice, rfl, ?_⟩, ?_⟩
  · refine .head (.add (readBlock 0) (r := 31) ?_ ?_ ?_ trivial) ?_
    · decide
    · decide
    · decide
    refine .head (.add (swapOut 1) (r := 30) ?_ ?_ ?_ trivial) ?_
    · decide
    · decide
    · decide
    refine .head (.add (readBlock 1) (r := 29) ?_ ?_ ?_ trivial) ?_
    · decide
    · decide
    · decide
    refine .head (.add (swapOut 2) (r := 28) ?_ ?_ ?_ trivial) ?_
    · decide
    · decide
    · decide
    refine .head (.done (r := 31) true ?_) ?_
    · decide
    refine .head (.done (r := 28) true ?_) ?_
    · decide
    refine .head (.done (r := 29) true ?_) ?_
    · decide
    exact .single (.done (r := 30) true (by decide))
  · decide

end BlkDrv
end Linux095
