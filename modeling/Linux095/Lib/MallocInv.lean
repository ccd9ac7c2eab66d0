import Linux095.Lib.Malloc
import Mathlib.Data.List.Nodup
import Mathlib.Data.List.Perm.Subperm

/-!
# `Lib.MallocInv` — what the heap keeps

* `Lists` — the descriptors are on one chain each, or free;
* `Bucket` — **the objects of a page** are those of its free chain and those that are in use;
* `Inv` — the invariant, and `Inv.step`;
* `kernel_heap` — what it means for the callers of `malloc` and `free_s`.
-/

namespace Linux095
namespace Lib
namespace Malloc
open Links Heap

/-! ## Sizes and pages -/

theorem sizeOf_ok {k : Nat} (h : k < bucketDir.length) :
    16 ≤ sizeOf k ∧ sizeOf k ≤ PAGE_SIZE ∧ PAGE_SIZE / sizeOf k * sizeOf k = PAGE_SIZE := by
  have hall : ∀ k < bucketDir.length,
      16 ≤ sizeOf k ∧ sizeOf k ≤ PAGE_SIZE ∧ PAGE_SIZE / sizeOf k * sizeOf k = PAGE_SIZE := by decide
  exact hall k h

theorem bucketOf_some {len k : Nat} (h : bucketOf len = some k) : k < bucketDir.length ∧ len ≤ sizeOf k := by
  unfold bucketOf at h
  have hmem := List.mem_of_find?_eq_some h
  have hle := List.find?_some h
  exact ⟨List.mem_range.1 hmem, by simpa using hle⟩

section Objects

variable {size page o o' : Nat}

theorem mem_objects : o ∈ objects size page ↔ ∃ i < PAGE_SIZE / size, o = page + i * size := by
  unfold objects
  rw [List.mem_map]
  constructor
  · rintro ⟨i, hi, rfl⟩
    exact ⟨i, List.mem_range.1 hi, rfl⟩
  · rintro ⟨i, hi, rfl⟩
    exact ⟨i, List.mem_range.2 hi, rfl⟩

theorem length_objects : (objects size page).length = PAGE_SIZE / size := by
  unfold objects
  rw [List.length_map, List.length_range]

theorem objects_nodup (hsize : 0 < size) : (objects size page).Nodup := by
  refine List.Nodup.map (fun i j h => ?_) List.nodup_range
  exact Nat.eq_of_mul_eq_mul_right hsize (Nat.add_left_cancel h)

/-- An object lies inside its page. -/
theorem object_within (hfull : PAGE_SIZE / size * size = PAGE_SIZE) (h : o ∈ objects size page) :
    page ≤ o ∧ o + size ≤ page + PAGE_SIZE := by
  obtain ⟨i, hi, rfl⟩ := mem_objects.1 h
  have hle : (i + 1) * size ≤ PAGE_SIZE / size * size := Nat.mul_le_mul_right size hi
  rw [Nat.add_mul, Nat.one_mul, hfull] at hle
  omega

/-- Two objects of a page do not overlap. -/
theorem objects_apart (h : o ∈ objects size page) (h' : o' ∈ objects size page) (hne : o ≠ o') :
    o + size ≤ o' ∨ o' + size ≤ o := by
  obtain ⟨i, -, rfl⟩ := mem_objects.1 h
  obtain ⟨j, -, rfl⟩ := mem_objects.1 h'
  rcases Nat.lt_trichotomy i j with hij | rfl | hji
  · have := Nat.mul_le_mul_right size hij
    rw [Nat.succ_mul] at this
    omega
  · exact absurd rfl hne
  · have := Nat.mul_le_mul_right size hji
    rw [Nat.succ_mul] at this
    omega

theorem pageOf_eq (hpage : page % PAGE_SIZE = 0) (hle : page ≤ o) (hlt : o < page + PAGE_SIZE) : pageOf o = page := by
  unfold pageOf PAGE_SIZE at *
  omega

theorem pageOf_object (hpage : page % PAGE_SIZE = 0) (hsize : 0 < size) (hfull : PAGE_SIZE / size * size = PAGE_SIZE)
    (h : o ∈ objects size page) : pageOf o = page := by
  obtain ⟨hle, hlt⟩ := object_within hfull h
  exact pageOf_eq hpage hle (by omega)

/-- The pointers of the objects lead through the page, and on to `rest`. -/
theorem leads_objects {next : Nat → Option Nat} {q : Option Nat} {rest : List Nat} (hsize : 0 < size)
    (hfull : PAGE_SIZE / size * size = PAGE_SIZE) (hrest : Leads next q rest)
    (hnext : ∀ x ∈ objects size page, next x = if x + size < page + PAGE_SIZE then some (x + size) else q) :
    Leads next (some page) (objects size page ++ rest) := by
  have hpos : 0 < PAGE_SIZE / size := Nat.pos_of_mul_pos_right (hfull ▸ (by decide : 0 < PAGE_SIZE))
  have htail : ∀ m j, j + m = PAGE_SIZE / size →
      Leads next (if j < PAGE_SIZE / size then some (page + j * size) else q)
        ((List.range' j m).map (fun i => page + i * size) ++ rest) := by
    intro m
    induction m with
    | zero =>
        intro j hj
        rw [if_neg (by omega)]
        exact hrest
    | succ m ih =>
        intro j hj
        rw [if_pos (by omega), List.range'_succ]
        apply Leads.cons
        have hlt : page + j * size + size < page + PAGE_SIZE ↔ j + 1 < PAGE_SIZE / size := by
          rw [← Nat.mul_lt_mul_right hsize (b := j + 1), hfull, Nat.add_mul, Nat.one_mul]
          omega
        rw [hnext _ (mem_objects.2 ⟨j, by omega, rfl⟩)]
        simp only [hlt]
        have heq : page + j * size + size = page + (j + 1) * size := by
          rw [Nat.add_mul, Nat.one_mul, Nat.add_assoc]
        rw [heq]
        exact ih (j + 1) (by omega)
  have hall := htail (PAGE_SIZE / size) 0 (by omega)
  rw [if_pos hpos, Nat.zero_mul, Nat.add_zero, ← List.range_eq_range'] at hall
  exact hall

end Objects

/-- The blocks of a page that are in use. -/
def onPage (live : List Block) (page : Nat) : List Nat := (live.map Block.addr).filter fun a => pageOf a = page

section OnPage

variable {live : List Block} {b : Block} {page : Nat}

theorem mem_onPage {a : Nat} : a ∈ onPage live page ↔ (∃ b ∈ live, b.addr = a) ∧ pageOf a = page := by
  unfold onPage
  rw [List.mem_filter, List.mem_map]
  simp

theorem onPage_cons_self (h : pageOf b.addr = page) : onPage (b :: live) page = b.addr :: onPage live page := by
  unfold onPage
  rw [List.map_cons, List.filter_cons_of_pos (by simpa using h)]

theorem onPage_cons_ne (h : pageOf b.addr ≠ page) : onPage (b :: live) page = onPage live page := by
  unfold onPage
  rw [List.map_cons, List.filter_cons_of_neg (by simpa using h)]

theorem onPage_erase (hb : b ∈ live) (page : Nat) : (onPage live page).Perm (onPage (b :: live.erase b) page) :=
  ((List.perm_cons_erase hb).map Block.addr).filter _

end OnPage

/-! ## The invariant -/

/-- The chains of descriptors: `C k` for `bucket_dir[k]`, and the free ones `F`. -/
structure Lists (h : Heap) (C : Nat → List Nat) (F : List Nat) : Prop where
  chain : ∀ k, Leads h.next (h.chain k) (C k)
  free : Leads h.next h.freeBucketDesc F
  mem : ∀ k, ∀ d ∈ C k, d ∈ h.descs ∧ d ∉ F ∧ k < bucketDir.length
  memFree : ∀ d ∈ F, d ∈ h.descs
  nodup : ∀ k, (C k).Nodup
  nodupFree : F.Nodup
  apart : ∀ k k' d, d ∈ C k → d ∈ C k' → k = k'

/-- A page of `bucket_dir[k]` with its descriptor `d`; `objs` are its free objects. -/
structure Bucket (h : Heap) (live : List Block) (k d : Nat) (objs : List Nat) : Prop where
  size : (h.desc d).bucketSize = sizeOf k
  aligned : (h.desc d).page % PAGE_SIZE = 0
  ne_zero : (h.desc d).page ≠ 0
  leads : Leads h.word (h.desc d).freeptr objs
  perm : (objs ++ onPage live (h.desc d).page).Perm (objects (sizeOf k) (h.desc d).page)
  refcnt : (h.desc d).refcnt.toNat = (onPage live (h.desc d).page).length

/-- A descriptor that has been taken for a page of `bucket_dir[k]`, and is not on a chain yet. -/
structure Taken (h : Heap) (C : Nat → List Nat) (F : List Nat) (k d : Nat) : Prop where
  mem : d ∈ h.descs
  notFree : d ∉ F
  notMem : ∀ k', d ∉ C k'
  refcnt : (h.desc d).refcnt = 0
  size : (h.desc d).bucketSize = sizeOf k

/-- What the search of `free_s` has found is good still: a predecessor that leads to `d` is on the chain. -/
structure Found (h : Heap) (C : Nat → List Nat) (addr k : Nat) (prev : Option Nat) (d : Nat) : Prop where
  mem : d ∈ C k
  page : (h.desc d).page = pageOf addr
  prev : ∀ a, prev = some a → h.next a = some d → a ∈ C k

/-- Where a call may be. -/
def Waits (h : Heap) (live : List Block) (C : Nat → List Nat) (F : List Nat) : Proc → Prop
  | .idle => True
  | .descPage len k => bucketOf len = some k
  | .bucketPage len k d => bucketOf len = some k ∧ Taken h C F k d
  | .freeing b k prev d => b ∈ live ∧ Found h C b.addr k prev d

/-- Two calls have not taken one descriptor, and do not free one block. -/
def Excludes : Proc → Proc → Prop
  | .bucketPage _ _ d, .bucketPage _ _ d' => d ≠ d'
  | .freeing b _ _ _, .freeing b' _ _ _ => b ≠ b'
  | _, _ => True

/-- The calls that sleep in `malloc`, or are interrupted in `free_s`. -/
structure Waiting (s : State) (C : Nat → List Nat) (F : List Nat) : Prop where
  waits : ∀ p, Waits s.heap s.live C F (s.procs p)
  apart : ∀ p p', p ≠ p' → Excludes (s.procs p) (s.procs p')

/-- **The invariant.** Only the page of `x` may have no object in use. -/
structure Inv (s : State) (C : Nat → List Nat) (F : List Nat) (x : Option Nat) : Prop where
  lists : Lists s.heap C F
  waiting : Waiting s C F
  bucket : ∀ k, ∀ d ∈ C k, ∃ objs, Bucket s.heap s.live k d objs
  used : ∀ k, ∀ d ∈ C k, x ≠ some d → onPage s.live (s.heap.desc d).page ≠ []
  owned : ∀ k, ∀ d ∈ C k, (s.heap.desc d).page ∈ s.owned ∧ ∀ d' ∈ s.heap.descs, pageOf d' ≠ (s.heap.desc d).page
  descs : ∀ d ∈ s.heap.descs, pageOf d ∈ s.owned
  inj : ∀ k k' d d', d ∈ C k → d' ∈ C k' → (s.heap.desc d).page = (s.heap.desc d').page → d = d'
  live : ∀ b ∈ s.live, ∃ k, ∃ d ∈ C k, (s.heap.desc d).page = pageOf b.addr ∧ bucketOf b.len = some k

/-! ## What the parts depend on -/

section Parts

variable {h h' : Heap} {C : Nat → List Nat} {F : List Nat} {s s' : State} {x : Option Nat}

theorem Lists.congr (hl : Lists h C F) (hnext : h'.next = h.next) (hchain : h'.chain = h.chain)
    (hfree : h'.freeBucketDesc = h.freeBucketDesc) (hdescs : h'.descs = h.descs) : Lists h' C F where
  chain k := by
    rw [hnext, hchain]
    exact hl.chain k
  free := by
    rw [hnext, hfree]
    exact hl.free
  mem k d hd := by
    rw [hdescs]
    exact hl.mem k d hd
  memFree d hd := by
    rw [hdescs]
    exact hl.memFree d hd
  nodup := hl.nodup
  nodupFree := hl.nodupFree
  apart := hl.apart

/-- A chain is not longer than the bound of the searches. -/
theorem Lists.length_le (hl : Lists h C F) (k : Nat) : (C k).length ≤ h.descs.length :=
  (List.subperm_of_subset (hl.nodup k) fun d hd => (hl.mem k d hd).1).length_le

/-- Nothing that concerns the page has changed. -/
theorem Bucket.congr {live live' : List Block} {k d : Nat} {objs : List Nat} (hb : Bucket h live k d objs)
    (hdesc : h'.desc d = h.desc d) (hword : ∀ o ∈ objs, h'.word o = h.word o)
    (hlive : (onPage live' (h.desc d).page).Perm (onPage live (h.desc d).page)) : Bucket h' live' k d objs where
  size := by
    rw [hdesc]
    exact hb.size
  aligned := by
    rw [hdesc]
    exact hb.aligned
  ne_zero := by
    rw [hdesc]
    exact hb.ne_zero
  leads := by
    rw [hdesc]
    exact hb.leads.congr hword
  perm := by
    rw [hdesc]
    exact (hlive.append_left objs).trans hb.perm
  refcnt := by
    rw [hdesc, hlive.length_eq]
    exact hb.refcnt

/-- A page has at most 256 objects. -/
theorem Bucket.length_le {live : List Block} {k d : Nat} {objs : List Nat} (hb : Bucket h live k d objs)
    (hk : k < bucketDir.length) : objs.length + (onPage live (h.desc d).page).length ≤ 256 := by
  have hlen := hb.perm.length_eq
  rw [List.length_append, length_objects] at hlen
  rw [hlen]
  exact Nat.le_trans (Nat.div_le_div_left (sizeOf_ok hk).1 (by decide)) (by decide)

/-- A free object is on the page, and not in use. -/
theorem Bucket.free_object {live : List Block} {k d o : Nat} {objs : List Nat} (hb : Bucket h live k d objs)
    (ho : o ∈ objs) : o ∈ objects (sizeOf k) (h.desc d).page :=
  hb.perm.mem_iff.1 (List.mem_append_left _ ho)

theorem Bucket.live_object {live : List Block} {k d o : Nat} {objs : List Nat} (hb : Bucket h live k d objs)
    (ho : o ∈ onPage live (h.desc d).page) : o ∈ objects (sizeOf k) (h.desc d).page :=
  hb.perm.mem_iff.1 (List.mem_append_right _ ho)

theorem Bucket.nodup {live : List Block} {k d : Nat} {objs : List Nat} (hb : Bucket h live k d objs)
    (hk : k < bucketDir.length) : (objs ++ onPage live (h.desc d).page).Nodup :=
  hb.perm.nodup_iff.2 (objects_nodup (Nat.lt_of_lt_of_le (by decide) (sizeOf_ok hk).1))

theorem Taken.congr {k d : Nat} (ht : Taken h C F k d) (hdescs : h'.descs = h.descs) (hdesc : h'.desc d = h.desc d) :
    Taken h' C F k d where
  mem := by
    rw [hdescs]
    exact ht.mem
  notFree := ht.notFree
  notMem := ht.notMem
  refcnt := by
    rw [hdesc]
    exact ht.refcnt
  size := by
    rw [hdesc]
    exact ht.size

theorem Waits.mono {live live' : List Block} {C' : Nat → List Nat} {F' : List Nat} {q : Proc} (hq : Waits h live C F q)
    (ht : ∀ len k d, q = .bucketPage len k d → Taken h C F k d → Taken h' C' F' k d)
    (hf : ∀ b k prev d, q = .freeing b k prev d → b ∈ live → Found h C b.addr k prev d →
      b ∈ live' ∧ Found h' C' b.addr k prev d) : Waits h' live' C' F' q := by
  cases q with
  | idle => exact trivial
  | descPage len k => exact hq
  | bucketPage len k d => exact ⟨hq.1, ht len k d rfl hq.2⟩
  | freeing b k prev d => exact hf b k prev d rfl hq.1 hq.2

theorem Excludes.symm {q q' : Proc} (h : Excludes q q') : Excludes q' q := by
  cases q <;> cases q' <;> first | exact trivial | exact Ne.symm h

end Parts

/-! ## Assignments -/

section Assignments

variable {h : Heap} {d x k : Nat} {v : BucketDesc}

theorem desc_setDesc_self : (h.setDesc d v).desc d = v := if_pos rfl

theorem desc_setDesc_ne (hx : x ≠ d) : (h.setDesc d v).desc x = h.desc x := if_neg hx

theorem next_setDesc (hv : v.next = (h.desc d).next) : (h.setDesc d v).next = h.next := by
  funext x
  unfold Heap.next
  by_cases hx : x = d
  · rw [hx, desc_setDesc_self, hv]
  · rw [desc_setDesc_ne hx]

theorem next_update (hv : (h.setDesc d v).next d = v.next) :
    (h.setDesc d v).next = Function.update h.next d v.next := by
  funext x
  by_cases hx : x = d
  · rw [hx, Function.update_self, hv]
  · rw [Function.update_of_ne hx]
    unfold Heap.next
    rw [desc_setDesc_ne hx]

theorem next_setNext (n : Option Nat) : (h.setNext d n).next = Function.update h.next d n :=
  next_update (by
    unfold Heap.next
    rw [desc_setDesc_self])

theorem page_setDesc (hv : v.page = (h.desc d).page) (x : Nat) : ((h.setDesc d v).desc x).page = (h.desc x).page := by
  by_cases hx : x = d
  · rw [hx, desc_setDesc_self, hv]
  · rw [desc_setDesc_ne hx]

end Assignments

/-! ## `malloc` -/

section Take

variable {s : State} {C : Nat → List Nat} {F : List Nat} {x : Option Nat} {k d : Nat}

theorem take_some {h : Heap} {o : Nat} (ho : (h.desc d).freeptr = some o) : h.take d =
    some (h.setDesc d
      { h.desc d with
        freeptr := h.word o
        refcnt := (h.desc d).refcnt + 1 }, o) := by
  unfold Heap.take
  rw [ho]

/-- One object more of the page of `d` is in use. -/
theorem Inv.take {len o : Nat} (h : Inv s C F x) (hd : d ∈ C k) (hx : ∀ d', x = some d' → d' = d)
    (ho : (s.heap.desc d).freeptr = some o) (hlen : bucketOf len = some k) :
    Inv
      { s with
        heap := s.heap.setDesc d
          { s.heap.desc d with
            freeptr := s.heap.word o
            refcnt := (s.heap.desc d).refcnt + 1 }
        live := ⟨o, len⟩ :: s.live } C F none := by
  obtain ⟨objs, hb⟩ := h.bucket k d hd
  have hk := (h.lists.mem k d hd).2.2
  obtain ⟨hmin, -, hfull⟩ := sizeOf_ok hk
  obtain ⟨rest, rfl⟩ : ∃ rest, objs = o :: rest := by
    have hhead := hb.leads.head
    cases objs with
    | nil => simp [ho] at hhead
    | cons a rest => exact ⟨rest, by simp_all⟩
  have hleads := hb.leads.of_cons.2
  have hpage : pageOf o = (s.heap.desc d).page :=
    pageOf_object hb.aligned (by omega) hfull (hb.free_object List.mem_cons_self)
  have hsame := page_setDesc (h := s.heap) (d := d)
    (v := { s.heap.desc d with freeptr := s.heap.word o, refcnt := (s.heap.desc d).refcnt + 1 }) rfl
  have hnext := next_setDesc (h := s.heap) (d := d)
    (v := { s.heap.desc d with freeptr := s.heap.word o, refcnt := (s.heap.desc d).refcnt + 1 }) rfl
  refine ⟨h.lists.congr hnext rfl rfl rfl, ⟨fun p => (h.waiting.waits p).mono ?_ ?_, h.waiting.apart⟩, ?_, ?_, ?_,
    h.descs, ?_, ?_⟩
  · intro len' k' d' _ ht
    refine ht.congr rfl (desc_setDesc_ne ?_)
    rintro rfl
    exact ht.notMem k hd
  · intro b k' prev d' _ hb' hf
    refine ⟨List.mem_cons_of_mem _ hb', hf.mem, ?_, ?_⟩
    · simp only [hsame]
      exact hf.page
    · simp only [hnext]
      exact hf.prev
  · intro k' d' hd'
    by_cases hne : d' = d
    · obtain rfl := hne
      obtain rfl := h.lists.apart k k' d' hd hd'
      refine ⟨rest, ?_, ?_, ?_, ?_, ?_, ?_⟩ <;> simp only [desc_setDesc_self]
      · exact hb.size
      · exact hb.aligned
      · exact hb.ne_zero
      · exact hleads
      · rw [onPage_cons_self hpage]
        exact List.perm_middle.trans hb.perm
      · have hle := hb.length_le hk
        rw [onPage_cons_self hpage, List.length_cons, ← hb.refcnt, BitVec.toNat_add]
        rw [hb.refcnt.symm, List.length_cons] at hle
        exact Nat.mod_eq_of_lt (by rw [show (1 : BitVec 16).toNat = 1 from rfl]; omega)
    · obtain ⟨objs', hb'⟩ := h.bucket k' d' hd'
      refine ⟨objs', hb'.congr (desc_setDesc_ne hne) (fun _ _ => rfl) ?_⟩
      rw [onPage_cons_ne]
      rw [hpage]
      exact fun heq => hne (h.inj k' k d' d hd' hd heq.symm)
  · intro k' d' hd' _
    simp only [hsame]
    by_cases hne : d' = d
    · rw [hne, onPage_cons_self hpage]
      exact List.cons_ne_nil _ _
    · rw [onPage_cons_ne]
      · exact h.used k' d' hd' fun hx' => hne (hx d' hx')
      · rw [hpage]
        exact fun heq => hne (h.inj k' k d' d hd' hd heq.symm)
  · intro k' d' hd'
    simp only [hsame]
    exact h.owned k' d' hd'
  · intro k' k'' d' d'' hd' hd'' heq
    simp only [hsame] at heq
    exact h.inj k' k'' d' d'' hd' hd'' heq
  · intro b hb'
    simp only [hsame]
    rcases List.mem_cons.1 hb' with rfl | hb'
    · exact ⟨k, d, hd, hpage.symm, hlen⟩
    · exact h.live b hb'

end Take

/-! ## The calls that wait -/

section Procs

variable {s : State} {C : Nat → List Nat} {F : List Nat} {p p' : Nat} {q : Proc}

theorem procs_setProc_self : (s.setProc p q).procs p = q := if_pos rfl

theorem procs_setProc_ne (hne : p' ≠ p) : (s.setProc p q).procs p' = s.procs p' := if_neg hne

theorem Waiting.setProc (h : Waiting s C F) (hq : Waits s.heap s.live C F q)
    (hex : ∀ p', p' ≠ p → Excludes q (s.procs p')) : Waiting (s.setProc p q) C F where
  waits p' := by
    by_cases hne : p' = p
    · rw [hne, procs_setProc_self]
      exact hq
    · rw [procs_setProc_ne hne]
      exact h.waits p'
  apart p₁ p₂ hne := by
    by_cases h₁ : p₁ = p
    · rw [h₁, procs_setProc_self, procs_setProc_ne (by omega)]
      exact hex p₂ (by omega)
    · rw [procs_setProc_ne h₁]
      by_cases h₂ : p₂ = p
      · rw [h₂, procs_setProc_self]
        exact (hex p₁ h₁).symm
      · rw [procs_setProc_ne h₂]
        exact h.apart p₁ p₂ hne

/-- Only where a call is has changed. -/
theorem Inv.setProc {x : Option Nat} (h : Inv s C F x) (hq : Waits s.heap s.live C F q)
    (hex : ∀ p', p' ≠ p → Excludes q (s.procs p')) : Inv (s.setProc p q) C F x where
  lists := h.lists
  waiting := h.waiting.setProc hq hex
  bucket := h.bucket
  used := h.used
  owned := h.owned
  descs := h.descs
  inj := h.inj
  live := h.live

end Procs

/-! ## A new descriptor -/

section NewBucket

variable {s : State} {C : Nat → List Nat} {F : List Nat} {p len k d page : Nat}

/-- A free descriptor is taken. -/
theorem Inv.takeDesc (h : Inv s C (d :: F) none) (k : Nat) :
    Inv { s with heap := s.heap.takeDesc k d } C F none ∧ Taken (s.heap.takeDesc k d) C F k d := by
  have hdF : d ∉ F := (List.nodup_cons.1 h.lists.nodupFree).1
  have hdC : ∀ k', d ∉ C k' := fun k' hd => (h.lists.mem k' d hd).2.1 List.mem_cons_self
  have hsub : ∀ {d'}, d' ∉ d :: F → d' ≠ d ∧ d' ∉ F := fun hd' => ⟨List.ne_of_not_mem_cons hd',
    List.not_mem_of_not_mem_cons hd'⟩
  have hother : ∀ d', d' ≠ d → (s.heap.takeDesc k d).desc d' = s.heap.desc d' := fun d' hne => desc_setDesc_ne hne
  have hnext : (s.heap.takeDesc k d).next = s.heap.next :=
    next_setDesc (h := s.heap) (v := { s.heap.desc d with refcnt := 0, bucketSize := sizeOf k }) rfl
  have hpage : ∀ d', ((s.heap.takeDesc k d).desc d').page = (s.heap.desc d').page :=
    page_setDesc (h := s.heap) (v := { s.heap.desc d with refcnt := 0, bucketSize := sizeOf k }) rfl
  have hself : (s.heap.takeDesc k d).desc d = { s.heap.desc d with refcnt := 0, bucketSize := sizeOf k } :=
    desc_setDesc_self
  refine ⟨⟨⟨?_, ?_, ?_, ?_, h.lists.nodup, (List.nodup_cons.1 h.lists.nodupFree).2, h.lists.apart⟩,
    ⟨fun p => (h.waiting.waits p).mono ?_ ?_, h.waiting.apart⟩, ?_, ?_, ?_, h.descs, ?_, ?_⟩, ?_⟩
  · intro k'
    simp only [hnext]
    exact h.lists.chain k'
  · simp only [hnext]
    exact h.lists.free.of_cons.2
  · intro k' d' hd'
    obtain ⟨hmem, hF, hk'⟩ := h.lists.mem k' d' hd'
    exact ⟨hmem, (hsub hF).2, hk'⟩
  · intro d' hd'
    exact h.lists.memFree d' (List.mem_cons_of_mem _ hd')
  · intro len' k' d' _ ht
    have ht' : Taken (s.heap.takeDesc k d) C (d :: F) k' d' := ht.congr rfl (hother d' (hsub ht.notFree).1)
    exact ⟨ht'.mem, (hsub ht.notFree).2, ht'.notMem, ht'.refcnt, ht'.size⟩
  · intro b k' prev d' _ hb hf
    refine ⟨hb, hf.mem, ?_, ?_⟩
    · rw [hpage]
      exact hf.page
    · simp only [hnext]
      exact hf.prev
  · intro k' d' hd'
    obtain ⟨objs, hb⟩ := h.bucket k' d' hd'
    refine ⟨objs, hb.congr (hother d' ?_) (fun _ _ => rfl) (List.Perm.refl _)⟩
    rintro rfl
    exact hdC k' hd'
  · intro k' d' hd' hx
    simp only [hpage]
    exact h.used k' d' hd' hx
  · intro k' d' hd'
    simp only [hpage]
    exact h.owned k' d' hd'
  · intro k' k'' d' d'' hd' hd'' heq
    simp only [hpage] at heq
    exact h.inj k' k'' d' d'' hd' hd'' heq
  · intro b hb
    simp only [hpage]
    exact h.live b hb
  · exact ⟨h.lists.memFree d List.mem_cons_self, hdF, hdC, by rw [hself], by rw [hself]⟩

/-- **`init_bucket_desc`**: the descriptors of a fresh page are free. -/
theorem Inv.initBucketDesc (h : Inv s C F none) (hpage : s.Fresh page) :
    Inv
      { s with
        heap := s.heap.initBucketDesc page
        owned := page :: s.owned } C (objects DESC_SIZE page ++ F) none := by
  obtain ⟨haligned, -, hfresh⟩ := hpage
  have hfull : PAGE_SIZE / DESC_SIZE * DESC_SIZE = PAGE_SIZE := by decide
  have hnewPage : ∀ {x}, x ∈ objects DESC_SIZE page → pageOf x = page := fun hx =>
    pageOf_object haligned (by decide) hfull hx
  have hold : ∀ {x}, x ∈ s.heap.descs → x ∉ objects DESC_SIZE page := by
    intro x hx hx'
    exact hfresh (hnewPage hx' ▸ h.descs x hx)
  have hdesc : ∀ {x}, x ∉ objects DESC_SIZE page → (s.heap.initBucketDesc page).desc x = s.heap.desc x := fun hx =>
    if_neg hx
  have hnext : ∀ x ∈ s.heap.descs, (s.heap.initBucketDesc page).next x = s.heap.next x := by
    intro x hx
    unfold Heap.next
    rw [hdesc (hold hx)]
  have hC : ∀ {k d}, d ∈ C k → (s.heap.initBucketDesc page).desc d = s.heap.desc d := fun hd =>
    hdesc (hold (h.lists.mem _ _ hd).1)
  have hmem : ∀ {x}, x ∈ s.heap.descs → x ∈ (s.heap.initBucketDesc page).descs := fun hx =>
    List.mem_append_right _ hx
  refine ⟨⟨?_, ?_, ?_, ?_, h.lists.nodup, ?_, h.lists.apart⟩,
    ⟨fun p => (h.waiting.waits p).mono ?_ ?_, h.waiting.apart⟩, ?_, ?_, ?_, ?_, ?_, ?_⟩
  · intro k
    exact (h.lists.chain k).congr fun x hx => hnext x (h.lists.mem k x hx).1
  · apply leads_objects (by decide) hfull (q := s.heap.freeBucketDesc)
    · exact h.lists.free.congr fun x hx => hnext x (h.lists.memFree x hx)
    · intro x hx
      unfold Heap.next Heap.initBucketDesc
      simp only [if_pos hx]
  · intro k d hd
    obtain ⟨hd', hF, hk⟩ := h.lists.mem k d hd
    refine ⟨hmem hd', fun hF' => ?_, hk⟩
    rcases List.mem_append.1 hF' with hnew | hF'
    · exact hold hd' hnew
    · exact hF hF'
  · intro x hx
    rcases List.mem_append.1 hx with hx | hx
    · exact List.mem_append_left _ hx
    · exact hmem (h.lists.memFree x hx)
  · apply List.Nodup.append (objects_nodup (by decide)) h.lists.nodupFree
    intro x hx hx'
    exact hold (h.lists.memFree x hx') hx
  · intro len k d _ ht
    have ht' : (s.heap.initBucketDesc page).desc d = s.heap.desc d := hdesc (hold ht.mem)
    refine ⟨hmem ht.mem, fun hF => ?_, ht.notMem, by rw [ht']; exact ht.refcnt, by rw [ht']; exact ht.size⟩
    rcases List.mem_append.1 hF with hnew | hF
    · exact hold ht.mem hnew
    · exact ht.notFree hF
  · intro b k prev d _ hb hf
    refine ⟨hb, hf.mem, by rw [hC hf.mem]; exact hf.page, ?_⟩
    intro a ha had
    by_cases hnew : a ∈ objects DESC_SIZE page
    · -- a new descriptor leads to a free one
      exfalso
      have hd := h.lists.mem k d hf.mem
      unfold Heap.next Heap.initBucketDesc at had
      simp only [if_pos hnew] at had
      split at had
      · rename_i hlt
        obtain ⟨i, hi, rfl⟩ := mem_objects.1 hnew
        obtain rfl := Option.some.inj had
        have hstep : page + i * DESC_SIZE + DESC_SIZE = page + (i + 1) * DESC_SIZE := by
          rw [Nat.add_mul, Nat.one_mul, Nat.add_assoc]
        rw [hstep] at hd hlt
        refine hold hd.1 (mem_objects.2 ⟨i + 1, ?_, rfl⟩)
        unfold PAGE_SIZE DESC_SIZE at *
        omega
      · have hhead := h.lists.free.head
        rw [had] at hhead
        exact hd.2.1 (List.mem_of_mem_head? hhead.symm)
    · refine hf.prev a ha ?_
      unfold Heap.next at had ⊢
      rwa [hdesc hnew] at had
  · intro k d hd
    obtain ⟨objs, hb⟩ := h.bucket k d hd
    exact ⟨objs, hb.congr (hC hd) (fun _ _ => rfl) (List.Perm.refl _)⟩
  · intro k d hd hx
    simp only [hC hd]
    exact h.used k d hd hx
  · intro k d hd
    simp only [hC hd]
    obtain ⟨hown, hapart⟩ := h.owned k d hd
    refine ⟨List.mem_cons_of_mem _ hown, fun d' hd' => ?_⟩
    rcases List.mem_append.1 hd' with hnew | hd'
    · rw [hnewPage hnew]
      rintro rfl
      exact hfresh hown
    · exact hapart d' hd'
  · intro x hx
    rcases List.mem_append.1 hx with hx | hx
    · rw [hnewPage hx]
      exact List.mem_cons_self
    · exact List.mem_cons_of_mem _ (h.descs x hx)
  · intro k k' d d' hd hd' heq
    simp only [hC hd, hC hd'] at heq
    exact h.inj k k' d d' hd hd' heq
  · intro b hb
    obtain ⟨k, d, hd, hrest⟩ := h.live b hb
    refine ⟨k, d, hd, ?_⟩
    simp only [hC hd]
    exact hrest

/-- `malloc` sleeps. -/
theorem Inv.newBucket (h : Inv s C F none) (p : Nat) (hk : bucketOf len = some k) :
    ∃ C' F', Inv (s.after p len k (s.heap.newBucket k)) C' F' none := by
  have hhead := h.lists.free.head
  cases F with
  | nil =>
      refine ⟨C, [], ?_⟩
      unfold Heap.newBucket
      rw [hhead]
      exact h.setProc (q := .descPage len k) hk fun _ _ => trivial
  | cons d F =>
      obtain ⟨htake, htaken⟩ := h.takeDesc k
      refine ⟨C, F, ?_⟩
      unfold Heap.newBucket
      rw [hhead]
      refine htake.setProc (q := .bucketPage len k d) ⟨hk, htaken⟩ fun p' _ => ?_
      have hwaits := h.waiting.waits p'
      show Excludes _ (s.procs p')
      cases hq : s.procs p' with
      | bucketPage len' k' d' =>
          rw [hq] at hwaits
          rintro rfl
          exact hwaits.2.notFree List.mem_cons_self
      | _ => exact trivial

end NewBucket

/-! ## A new page of objects -/

section LinkBucket

variable {s : State} {C : Nat → List Nat} {F : List Nat} {p len k d page : Nat}

theorem mem_link {k' d' : Nat} : d' ∈ Function.update C k (d :: C k) k' ↔ k' = k ∧ d' = d ∨ d' ∈ C k' := by
  by_cases hk : k' = k
  · subst hk
    rw [Function.update_self, List.mem_cons]
    simp
  · rw [Function.update_of_ne hk]
    simp [hk]

/-- The lists, when `d` is linked in. -/
theorem Lists.link {h h' : Heap} (hl : Lists h C F) (hk : k < bucketDir.length) (hd : Taken h C F k d)
    (hnext : h'.next = Function.update h.next d (h.chain k)) (hchain : h'.chain = Function.update h.chain k (some d))
    (hfree : h'.freeBucketDesc = h.freeBucketDesc) (hdescs : h'.descs = h.descs) :
    Lists h' (Function.update C k (d :: C k)) F where
  chain k' := by
    rw [hnext, hchain]
    by_cases hk' : k' = k
    · subst hk'
      rw [Function.update_self, Function.update_self]
      exact (hl.chain k').push (hd.notMem k')
    · rw [Function.update_of_ne hk', Function.update_of_ne hk']
      refine (hl.chain k').congr fun x hx => Function.update_of_ne ?_ _ _
      rintro rfl
      exact hd.notMem k' hx
  free := by
    rw [hnext, hfree]
    refine hl.free.congr fun x hx => Function.update_of_ne ?_ _ _
    rintro rfl
    exact hd.notFree hx
  mem k' d' hd' := by
    rw [hdescs]
    rcases mem_link.1 hd' with ⟨rfl, rfl⟩ | hd'
    · exact ⟨hd.mem, hd.notFree, hk⟩
    · exact hl.mem k' d' hd'
  memFree d' hd' := by
    rw [hdescs]
    exact hl.memFree d' hd'
  nodup k' := by
    by_cases hk' : k' = k
    · subst hk'
      rw [Function.update_self]
      exact List.nodup_cons.2 ⟨hd.notMem k', hl.nodup k'⟩
    · rw [Function.update_of_ne hk']
      exact hl.nodup k'
  nodupFree := hl.nodupFree
  apart k₁ k₂ d' h₁ h₂ := by
    rcases mem_link.1 h₁ with ⟨rfl, rfl⟩ | h₁' <;> rcases mem_link.1 h₂ with ⟨hk₂, hd₂⟩ | h₂'
    · exact hk₂.symm
    · exact absurd h₂' (hd.notMem k₂)
    · rw [hd₂] at h₁'
      exact absurd h₁' (hd.notMem k₁)
    · exact hl.apart k₁ k₂ d' h₁' h₂'

/-- **The page is linked in**, with none of its objects in use. -/
theorem Inv.linkBucket (h : Inv s C F none) (hk : k < bucketDir.length) (hd : Taken s.heap C F k d)
    (hone : ∀ p len' k', s.procs p ≠ .bucketPage len' k' d) (hpage : s.Fresh page) :
    Inv
      { s with
        heap := s.heap.linkBucket k d page
        owned := page :: s.owned } (Function.update C k (d :: C k)) F (some d) := by
  obtain ⟨haligned, hne0, hfresh⟩ := hpage
  obtain ⟨hmin, -, hfull⟩ := sizeOf_ok hk
  have hself : (s.heap.linkBucket k d page).desc d =
      { s.heap.desc d with
        page := page
        freeptr := some page
        next := s.heap.chain k } := desc_setDesc_self
  have hother : ∀ {d'}, d' ≠ d → (s.heap.linkBucket k d page).desc d' = s.heap.desc d' := fun hne =>
    desc_setDesc_ne hne
  have hne : ∀ {k' d'}, d' ∈ C k' → d' ≠ d := by
    rintro k' d' hd' rfl
    exact hd.notMem k' hd'
  have hnext : (s.heap.linkBucket k d page).next = Function.update s.heap.next d (s.heap.chain k) := by
    funext x
    unfold Heap.next
    by_cases hx : x = d
    · rw [hx, Function.update_self, hself]
    · rw [Function.update_of_ne hx, hother hx]
  have hchain : (s.heap.linkBucket k d page).chain = Function.update s.heap.chain k (some d) := by
    funext x
    by_cases hx : x = k
    · rw [hx, Function.update_self]
      exact if_pos rfl
    · rw [Function.update_of_ne hx]
      exact if_neg hx
  have hempty : onPage s.live page = [] := by
    rw [List.eq_nil_iff_forall_not_mem]
    intro a ha
    obtain ⟨⟨b, hb, rfl⟩, hpg⟩ := mem_onPage.1 ha
    obtain ⟨k', d', hd', hpg', -⟩ := h.live b hb
    exact hfresh (hpg ▸ hpg' ▸ (h.owned k' d' hd').1)
  have hpageNe : ∀ {k' d'}, d' ∈ C k' → (s.heap.desc d').page ≠ page := by
    rintro k' d' hd' rfl
    exact hfresh (h.owned k' d' hd').1
  refine ⟨h.lists.link hk hd hnext hchain rfl rfl, ⟨fun p => (h.waiting.waits p).mono ?_ ?_, h.waiting.apart⟩,
    ?_, ?_, ?_, ?_, ?_, ?_⟩
  · intro len' k' d' hp ht
    have hdd : d' ≠ d := by
      rintro rfl
      exact hone p len' k' hp
    have ht' : Taken (s.heap.linkBucket k d page) C F k' d' := ht.congr rfl (hother hdd)
    refine ⟨ht'.mem, ht'.notFree, fun k'' hd'' => ?_, ht'.refcnt, ht'.size⟩
    rcases mem_link.1 hd'' with ⟨-, heq⟩ | hd''
    · exact hdd heq
    · exact ht.notMem k'' hd''
  · intro b k' prev d' _ hb hf
    refine ⟨hb, mem_link.2 (Or.inr hf.mem), by rw [hother (hne hf.mem)]; exact hf.page, ?_⟩
    intro a ha had
    rw [hnext] at had
    by_cases hadd : a = d
    · -- what `d` leads to was the first of `bucket_dir[k]`
      rw [hadd, Function.update_self] at had
      have hhead := (h.lists.chain k).head
      rw [had] at hhead
      have hkk := h.lists.apart k' k d' hf.mem (List.mem_of_mem_head? hhead.symm)
      exact mem_link.2 (Or.inl ⟨hkk, hadd⟩)
    · rw [Function.update_of_ne hadd] at had
      exact mem_link.2 (Or.inr (hf.prev a ha had))
  · intro k' d' hd'
    rcases mem_link.1 hd' with ⟨rfl, rfl⟩ | hd'
    · refine ⟨objects (sizeOf k') page, ?_, ?_, ?_, ?_, ?_, ?_⟩ <;> simp only [hself]
      · exact hd.size
      · exact haligned
      · exact hne0
      · rw [← List.append_nil (objects _ _)]
        apply leads_objects (by omega) hfull .nil
        intro x hx
        obtain ⟨hle, hlt⟩ := object_within hfull hx
        unfold Heap.linkBucket
        simp only [hx, true_and]
        rw [if_pos (by omega)]
      · rw [hempty, List.append_nil]
      · rw [hempty, hd.refcnt]
        rfl
    · obtain ⟨objs, hb⟩ := h.bucket k' d' hd'
      refine ⟨objs, hb.congr (hother (hne hd')) (fun o ho => if_neg ?_) (List.Perm.refl _)⟩
      rintro ⟨hle, hlt⟩
      obtain ⟨hmin', -, hfull'⟩ := sizeOf_ok (h.lists.mem k' d' hd').2.2
      have hpg := pageOf_object hb.aligned (by omega) hfull' (hb.free_object ho)
      exact hpageNe hd' (hpg.symm.trans (pageOf_eq haligned hle hlt))
  · intro k' d' hd' hx
    rcases mem_link.1 hd' with ⟨rfl, rfl⟩ | hd'
    · exact absurd rfl hx
    · simp only [hother (hne hd')]
      exact h.used k' d' hd' nofun
  · intro k' d' hd'
    rcases mem_link.1 hd' with ⟨rfl, rfl⟩ | hd'
    · simp only [hself]
      refine ⟨List.mem_cons_self, ?_⟩
      rintro d'' hd'' rfl
      exact hfresh (h.descs d'' hd'')
    · simp only [hother (hne hd')]
      obtain ⟨hown, hapart⟩ := h.owned k' d' hd'
      exact ⟨List.mem_cons_of_mem _ hown, hapart⟩
  · intro d' hd'
    exact List.mem_cons_of_mem _ (h.descs d' hd')
  · intro k₁ k₂ d₁ d₂ h₁ h₂ heq
    rcases mem_link.1 h₁ with ⟨rfl, rfl⟩ | h₁' <;> rcases mem_link.1 h₂ with ⟨-, hd₂⟩ | h₂'
    · exact hd₂.symm
    · simp only [hself, hother (hne h₂')] at heq
      exact absurd heq.symm (hpageNe h₂')
    · rw [hd₂] at heq ⊢
      simp only [hself, hother (hne h₁')] at heq
      exact absurd heq (hpageNe h₁')
    · simp only [hother (hne h₁'), hother (hne h₂')] at heq
      exact h.inj k₁ k₂ d₁ d₂ h₁' h₂' heq
  · intro b hb
    obtain ⟨k', d', hd', hrest⟩ := h.live b hb
    refine ⟨k', d', mem_link.2 (Or.inr hd'), ?_⟩
    simp only [hother (hne hd')]
    exact hrest

end LinkBucket

/-! ## `free_s` -/

section Free

variable {s : State} {C : Nat → List Nat} {F : List Nat} {k d : Nat} {b : Block}

/-- The heap when an object is free again. -/
def putBack (h : Heap) (obj d : Nat) : Heap :=
  (h.setWord obj (h.desc d).freeptr).setDesc d
    { h.desc d with
      freeptr := some obj
      refcnt := (h.desc d).refcnt - 1 }

theorem Inv.apart_page {k' d' : Nat} {x : Option Nat} (h : Inv s C F x) (hd : d ∈ C k) (hd' : d' ∈ C k')
    (hne : d' ≠ d) : (s.heap.desc d).page ≠ (s.heap.desc d').page := fun heq => hne (h.inj k' k d' d hd' hd heq.symm)

/-- One object fewer of the page of `d` is in use. -/
theorem Inv.putBack (h : Inv s C F none) (hb : b ∈ s.live) (hd : d ∈ C k)
    (hpage : (s.heap.desc d).page = pageOf b.addr) (hone : ∀ p k prev d, s.procs p ≠ .freeing b k prev d) :
    Inv
      { s with
        heap := putBack s.heap b.addr d
        live := s.live.erase b } C F (some d) := by
  have hself : (Malloc.putBack s.heap b.addr d).desc d =
      { s.heap.desc d with
        freeptr := some b.addr
        refcnt := (s.heap.desc d).refcnt - 1 } := desc_setDesc_self
  have hother : ∀ {d'}, d' ≠ d → (Malloc.putBack s.heap b.addr d).desc d' = s.heap.desc d' := fun hne =>
    desc_setDesc_ne hne
  have hnext : (Malloc.putBack s.heap b.addr d).next = s.heap.next :=
    next_setDesc (h := s.heap.setWord b.addr (s.heap.desc d).freeptr)
      (v := { s.heap.desc d with freeptr := some b.addr, refcnt := (s.heap.desc d).refcnt - 1 }) rfl
  have hsame : ∀ d', ((Malloc.putBack s.heap b.addr d).desc d').page = (s.heap.desc d').page :=
    page_setDesc (h := s.heap.setWord b.addr (s.heap.desc d).freeptr)
      (v := { s.heap.desc d with freeptr := some b.addr, refcnt := (s.heap.desc d).refcnt - 1 }) rfl
  have hself' := onPage_erase hb (s.heap.desc d).page
  rw [onPage_cons_self hpage.symm] at hself'
  have hother' : ∀ {k' d'}, d' ∈ C k' → d' ≠ d →
      (onPage (s.live.erase b) (s.heap.desc d').page).Perm (onPage s.live (s.heap.desc d').page) := by
    intro k' d' hd' hne
    have hperm := onPage_erase hb (s.heap.desc d').page
    rw [onPage_cons_ne (hpage ▸ h.apart_page hd hd' hne)] at hperm
    exact hperm.symm
  refine ⟨h.lists.congr hnext rfl rfl rfl, ⟨fun p => (h.waiting.waits p).mono ?_ ?_, h.waiting.apart⟩,
    ?_, ?_, ?_, h.descs, ?_, ?_⟩
  · intro len k' d' _ ht
    refine ht.congr rfl (hother ?_)
    rintro rfl
    exact ht.notMem k hd
  · intro b' k' prev d' hp hb' hf
    have hbb : b' ≠ b := by
      rintro rfl
      exact hone _ _ _ _ hp
    refine ⟨(List.mem_erase_of_ne hbb).2 hb', hf.mem, by rw [hsame]; exact hf.page, ?_⟩
    simp only [hnext]
    exact hf.prev
  · intro k' d' hd'
    obtain ⟨objs, hbk⟩ := h.bucket k' d' hd'
    by_cases hne : d' = d
    · obtain rfl := hne
      obtain rfl := h.lists.apart k k' d' hd hd'
      have hk := (h.lists.mem k d' hd).2.2
      have hnotMem : b.addr ∉ objs := by
        intro hmem
        have hdisj := List.disjoint_of_nodup_append (hbk.nodup hk)
        exact hdisj hmem (mem_onPage.2 ⟨⟨b, hb, rfl⟩, hpage.symm⟩)
      refine ⟨b.addr :: objs, ?_, ?_, ?_, ?_, ?_, ?_⟩ <;> simp only [hself]
      · exact hbk.size
      · exact hbk.aligned
      · exact hbk.ne_zero
      · apply Leads.cons
        have hword : (Malloc.putBack s.heap b.addr d').word b.addr = (s.heap.desc d').freeptr := if_pos rfl
        rw [hword]
        refine hbk.leads.congr fun o ho => if_neg ?_
        rintro rfl
        exact hnotMem ho
      · have hmove : (b.addr :: objs ++ onPage (s.live.erase b) (s.heap.desc d').page).Perm
            (objs ++ onPage s.live (s.heap.desc d').page) :=
          (List.perm_middle.symm).trans (hself'.symm.append_left objs)
        exact hmove.trans hbk.perm
      · have hlen := hself'.length_eq
        have href := hbk.refcnt
        rw [List.length_cons] at hlen
        rw [BitVec.toNat_sub_of_le]
        · rw [href, hlen]
          rfl
        · rw [BitVec.le_def, href, hlen]
          exact Nat.le_add_left 1 _
    · refine ⟨objs, hbk.congr (hother hne) (fun o ho => if_neg ?_) (hother' hd' hne)⟩
      rintro rfl
      obtain ⟨hmin, -, hfull⟩ := sizeOf_ok (h.lists.mem k' d' hd').2.2
      have hpg := pageOf_object hbk.aligned (by omega) hfull (hbk.free_object ho)
      exact h.apart_page hd hd' hne (hpage.trans hpg)
  · intro k' d' hd' hx
    have hne : d' ≠ d := by
      rintro rfl
      exact hx rfl
    simp only [hsame]
    intro hnil
    have hperm := hother' hd' hne
    rw [hnil] at hperm
    exact h.used k' d' hd' nofun hperm.symm.eq_nil
  · intro k' d' hd'
    simp only [hsame]
    exact h.owned k' d' hd'
  · intro k₁ k₂ d₁ d₂ h₁ h₂ heq
    simp only [hsame] at heq
    exact h.inj k₁ k₂ d₁ d₂ h₁ h₂ heq
  · intro b' hb'
    simp only [hsame]
    exact h.live b' (List.mem_of_mem_erase hb')

theorem mem_unlink {l₁ l₂ : List Nat} {k' d' : Nat} {h : Heap} (hl : Lists h C F) (hC : C k = l₁ ++ d :: l₂) :
    d' ∈ Function.update C k (l₁ ++ l₂) k' ↔ d' ∈ C k' ∧ d' ≠ d := by
  have hnodup := hC ▸ hl.nodup k
  by_cases hk : k' = k
  · subst hk
    rw [Function.update_self, hC]
    have hd : d ∉ l₁ ++ l₂ := (List.nodup_middle.1 hnodup).notMem
    constructor
    · intro hd'
      refine ⟨?_, ?_⟩
      · rw [List.mem_append, List.mem_cons]
        rcases List.mem_append.1 hd' with hd' | hd'
        · exact Or.inl hd'
        · exact Or.inr (Or.inr hd')
      · rintro rfl
        exact hd hd'
    · rintro ⟨hd', hne⟩
      rw [List.mem_append, List.mem_cons] at hd'
      rw [List.mem_append]
      rcases hd' with hd' | rfl | hd'
      · exact Or.inl hd'
      · exact absurd rfl hne
      · exact Or.inr hd'
  · rw [Function.update_of_ne hk]
    constructor
    · intro hd'
      refine ⟨hd', ?_⟩
      rintro rfl
      exact hk (hl.apart k' k d' hd' (hC ▸ List.mem_append_right _ List.mem_cons_self))
    · exact fun h => h.1

/-- The predecessor is the right one, also where the one that was found has become stale. -/
theorem predecessor_eq {h : Heap} {l₁ l₂ : List Nat} {prev : Option Nat} (hl : Lists h C F) (hC : C k = l₁ ++ d :: l₂)
    (hprev : ∀ a, prev = some a → h.next a = some d → a ∈ C k) : h.predecessor k prev d = l₁.getLast? := by
  have hleads := hC ▸ hl.chain k
  have hnodup := hC ▸ hl.nodup k
  unfold predecessor
  split
  · rcases (hl.chain k).search_spec (fun b => h.next b == some d) (hl.length_le k) none with
      ⟨m₁, a, m₂, heq, hq, -, hs⟩ | ⟨hno, hs⟩
    · rw [hs]
      refine (hleads.getLast_of_next hnodup ?_ (by simpa using hq)).symm
      rw [← hC, heq]
      exact List.mem_append_right _ List.mem_cons_self
    · rw [hs]
      cases hlast : l₁.getLast? with
      | none => rfl
      | some a =>
          obtain ⟨m, rfl⟩ := List.getLast?_eq_some_iff.1 hlast
          have hleads' : Leads h.next (h.chain k) (m ++ a :: d :: l₂) := by simpa using hleads
          have hmem : a ∈ C k := by simp [hC]
          have hfalse := hno a hmem
          rw [hleads'.next_eq, List.head?_cons] at hfalse
          simp at hfalse
  · rename_i hstale
    cases prev with
    | none =>
        have hchain : h.chain k = some d := by simpa [stale] using hstale
        cases l₁ with
        | nil => rfl
        | cons a l₁ =>
            have hhead := hleads.head
            rw [hchain] at hhead
            obtain rfl := Option.some.inj hhead
            simp at hnodup
    | some a =>
        have hnext : h.next a = some d := by simpa [stale] using hstale
        exact (hleads.getLast_of_next hnodup (hC ▸ hprev a rfl hnext) hnext).symm

/-- The heap when a descriptor that is on no chain has become free. -/
def detach (h : Heap) (d : Nat) : Heap := { h.setNext d h.freeBucketDesc with freeBucketDesc := some d }

theorem next_detach (h : Heap) (d : Nat) : (detach h d).next = Function.update h.next d h.freeBucketDesc :=
  next_setNext _

theorem leads_detach {h : Heap} {p : Option Nat} {l : List Nat} (hl : Leads h.next p l) (hd : d ∉ l) :
    Leads (detach h d).next p l := by
  rw [next_detach]
  refine hl.congr fun x hx => Function.update_of_ne ?_ _ _
  rintro rfl
  exact hd hx

theorem desc_detach (h : Heap) (d x : Nat) : ∃ n, (detach h d).desc x = { h.desc x with next := n } := by
  by_cases hx : x = d
  · refine ⟨h.freeBucketDesc, ?_⟩
    rw [hx]
    exact desc_setDesc_self
  · exact ⟨(h.desc x).next, desc_setDesc_ne hx⟩

/-- What taking a descriptor out of its chain does. -/
structure Unlinked (h h' : Heap) (d : Nat) (l₁ l₂ : List Nat) : Prop where
  next : ∀ a n, a ≠ d → h'.next a = some n → h.next a = some n ∨ l₂.head? = some n ∧ l₁.getLast? = some a
  nextSelf : h'.next d = h.freeBucketDesc
  desc : ∀ x, ∃ n, h'.desc x = { h.desc x with next := n }
  word : h'.word = h.word
  descs : h'.descs = h.descs

/-- **`free_s` takes the descriptor out of its chain.** -/
theorem unlink_some {h : Heap} {l₁ l₂ : List Nat} {prev : Option Nat} (hl : Lists h C F) (hC : C k = l₁ ++ d :: l₂)
    (hprev : ∀ a, prev = some a → h.next a = some d → a ∈ C k) :
    ∃ h', h.unlink k prev d = some h' ∧ Lists h' (Function.update C k (l₁ ++ l₂)) (d :: F) ∧
      Unlinked h h' d l₁ l₂ := by
  have hleads := hC ▸ hl.chain k
  have hnodup := hC ▸ hl.nodup k
  have hd := hl.mem k d (hC ▸ List.mem_append_right _ List.mem_cons_self)
  have hnotMem : d ∉ l₁ ++ l₂ := (List.nodup_middle.1 hnodup).notMem
  have hmem : ∀ k', ∀ d' ∈ Function.update C k (l₁ ++ l₂) k', d' ∈ h.descs ∧ d' ∉ d :: F ∧ k' < bucketDir.length := by
    intro k' d' hd'
    obtain ⟨hd', hne⟩ := (mem_unlink hl hC).1 hd'
    obtain ⟨hdescs, hF, hk'⟩ := hl.mem k' d' hd'
    exact ⟨hdescs, fun hF' => (List.mem_cons.1 hF').elim hne hF, hk'⟩
  have hmemFree : ∀ d' ∈ d :: F, d' ∈ h.descs := by
    intro d' hd'
    rcases List.mem_cons.1 hd' with rfl | hd'
    · exact hd.1
    · exact hl.memFree d' hd'
  have hnodup' : ∀ k', (Function.update C k (l₁ ++ l₂) k').Nodup := by
    intro k'
    by_cases hk : k' = k
    · subst hk
      rw [Function.update_self]
      exact (List.nodup_cons.1 (List.nodup_middle.1 hnodup)).2
    · rw [Function.update_of_ne hk]
      exact hl.nodup k'
  have hapart : ∀ k₁ k₂ d', d' ∈ Function.update C k (l₁ ++ l₂) k₁ → d' ∈ Function.update C k (l₁ ++ l₂) k₂ →
      k₁ = k₂ := fun k₁ k₂ d' h₁ h₂ => hl.apart k₁ k₂ d' ((mem_unlink hl hC).1 h₁).1 ((mem_unlink hl hC).1 h₂).1
  unfold Heap.unlink
  rw [predecessor_eq hl hC hprev]
  cases hlast : l₁.getLast? with
  | none =>
      obtain rfl := List.getLast?_eq_none_iff.1 hlast
      have hchain := hleads.head
      rw [List.nil_append, List.head?_cons] at hchain
      rw [List.nil_append] at hleads hnotMem
      have hfirst : ∀ k', Leads h.next ((h.setChain k (h.next d)).chain k') (Function.update C k ([] ++ l₂) k') := by
        intro k'
        by_cases hk : k' = k
        · subst hk
          rw [Function.update_self]
          show Leads h.next (if k' = k' then h.next d else h.chain k') l₂
          rw [if_pos rfl]
          exact hleads.of_cons.2
        · rw [Function.update_of_ne hk]
          show Leads h.next (if k' = k then h.next d else h.chain k') (C k')
          rw [if_neg hk]
          exact hl.chain k'
      refine ⟨detach (h.setChain k (h.next d)) d, ?_, ⟨?_, ?_, hmem, hmemFree, hnodup', ?_, hapart⟩, ?_, ?_,
        desc_detach _ d, rfl, rfl⟩
      · simp only [hchain, ne_eq, not_true_eq_false, if_false]
        rfl
      · exact fun k' => leads_detach (hfirst k') fun hd' => ((mem_unlink hl hC).1 hd').2 rfl
      · rw [next_detach]
        exact hl.free.push hd.2.1
      · exact List.nodup_cons.2 ⟨hd.2.1, hl.nodupFree⟩
      · intro a n hne hn
        rw [next_detach, Function.update_of_ne hne] at hn
        exact Or.inl hn
      · rw [next_detach, Function.update_self]
        rfl
  | some b =>
      obtain ⟨m, rfl⟩ := List.getLast?_eq_some_iff.1 hlast
      have hassoc : m ++ [b] ++ d :: l₂ = m ++ b :: d :: l₂ := List.append_assoc _ _ _
      have hassoc' : m ++ [b] ++ l₂ = m ++ b :: l₂ := List.append_assoc _ _ _
      have hbk : b ∈ C k := hC ▸ hassoc ▸ List.mem_append_right _ List.mem_cons_self
      have hfirst : ∀ k', Leads (h.setNext b (h.next d)).next (h.chain k')
          (Function.update C k (m ++ [b] ++ l₂) k') := by
        intro k'
        rw [next_setNext]
        by_cases hk : k' = k
        · subst hk
          rw [Function.update_self, hassoc']
          exact (hassoc ▸ hleads).unlink (hassoc ▸ hnodup)
        · rw [Function.update_of_ne hk]
          refine (hl.chain k').congr fun x hx => Function.update_of_ne ?_ _ _
          rintro rfl
          exact hk (hl.apart k' k x hx hbk)
      have hfree : Leads (h.setNext b (h.next d)).next h.freeBucketDesc F := by
        rw [next_setNext]
        refine hl.free.congr fun x hx => Function.update_of_ne ?_ _ _
        rintro rfl
        exact (hl.mem k x hbk).2.1 hx
      refine ⟨detach (h.setNext b (h.next d)) d, rfl, ⟨?_, ?_, hmem, hmemFree, hnodup', ?_, hapart⟩, ?_, ?_, ?_,
        rfl, rfl⟩
      · exact fun k' => leads_detach (hfirst k') fun hd' => ((mem_unlink hl hC).1 hd').2 rfl
      · rw [next_detach]
        exact hfree.push hd.2.1
      · exact List.nodup_cons.2 ⟨hd.2.1, hl.nodupFree⟩
      · intro a n hne hn
        rw [next_detach, Function.update_of_ne hne, next_setNext] at hn
        by_cases hab : a = b
        · rw [hab, Function.update_self, hleads.next_eq] at hn
          exact Or.inr ⟨hn, hab ▸ hlast⟩
        · rw [Function.update_of_ne hab] at hn
          exact Or.inl hn
      · rw [next_detach, Function.update_self]
        rfl
      · intro x
        obtain ⟨n, hn⟩ := desc_detach (h.setNext b (h.next d)) d x
        refine ⟨n, ?_⟩
        rw [hn]
        by_cases hx : x = b
        · rw [hx]
          show { (h.setDesc b _).desc b with next := n } = _
          rw [desc_setDesc_self]
        · show { (h.setDesc b _).desc x with next := n } = _
          rw [desc_setDesc_ne hx]

/-- **A page without objects in use is given back**, and its descriptor is free. -/
theorem Inv.unlink {prev : Option Nat} (h : Inv s C F (some d)) (hd : d ∈ C k)
    (hempty : onPage s.live (s.heap.desc d).page = [])
    (hprev : ∀ a, prev = some a → s.heap.next a = some d → a ∈ C k) :
    ∃ h' C' F', s.heap.unlink k prev d = some h' ∧
      Inv
        { s with
          heap := h'
          owned := s.owned.filter fun x => some (s.heap.desc d).page ≠ some x } C' F' none := by
  obtain ⟨l₁, l₂, hC⟩ := List.append_of_mem hd
  obtain ⟨h', hun, hlists, hrest⟩ := unlink_some h.lists hC hprev
  refine ⟨h', Function.update C k (l₁ ++ l₂), d :: F, hun, ?_⟩
  have hmem : ∀ {k' d'}, d' ∈ Function.update C k (l₁ ++ l₂) k' → d' ∈ C k' ∧ d' ≠ d := fun hd' =>
    (mem_unlink h.lists hC).1 hd'
  have hpage : ∀ x, (h'.desc x).page = (s.heap.desc x).page := by
    intro x
    obtain ⟨n, hn⟩ := hrest.desc x
    rw [hn]
  have hkeep : ∀ {pg}, pg ∈ s.owned → pg ≠ (s.heap.desc d).page →
      pg ∈ s.owned.filter fun x => some (s.heap.desc d).page ≠ some x := by
    intro pg hpg hne
    refine List.mem_filter.2 ⟨hpg, ?_⟩
    simpa using hne.symm
  refine ⟨hlists, ⟨fun p => (h.waiting.waits p).mono ?_ ?_, h.waiting.apart⟩, ?_, ?_, ?_, ?_, ?_, ?_⟩
  · intro len k' d' _ ht
    obtain ⟨n, hn⟩ := hrest.desc d'
    have hne : d' ≠ d := by
      rintro rfl
      exact ht.notMem k hd
    refine ⟨by rw [hrest.descs]; exact ht.mem, fun hF => ?_, fun k'' hd' => ht.notMem k'' (hmem hd').1,
      by rw [hn]; exact ht.refcnt, by rw [hn]; exact ht.size⟩
    exact (List.mem_cons.1 hF).elim hne ht.notFree
  · intro b' k' prev' d' _ hb' hf
    have hne : d' ≠ d := by
      rintro rfl
      have hon := mem_onPage.2 ⟨⟨b', hb', rfl⟩, hf.page.symm⟩
      rw [hempty] at hon
      exact absurd hon List.not_mem_nil
    refine ⟨hb', (mem_unlink h.lists hC).2 ⟨hf.mem, hne⟩, by rw [hpage]; exact hf.page, ?_⟩
    intro a ha had
    by_cases hadd : a = d
    · -- the descriptor that has become free leads to a free one
      rw [hadd, hrest.nextSelf] at had
      have hhead := h.lists.free.head
      rw [had] at hhead
      exact absurd (List.mem_of_mem_head? hhead.symm) (h.lists.mem k' d' hf.mem).2.1
    · rcases hrest.next a d' hadd had with had | ⟨hhead, hlast⟩
      · exact (mem_unlink h.lists hC).2 ⟨hf.prev a ha had, hadd⟩
      · have hk : k' = k := h.lists.apart k' k d' hf.mem
          (hC ▸ List.mem_append_right _ (List.mem_cons_of_mem _ (List.mem_of_mem_head? hhead)))
        rw [hk]
        exact (mem_unlink h.lists hC).2 ⟨hC ▸ List.mem_append_left _ (List.mem_of_getLast? hlast), hadd⟩
  · intro k' d' hd'
    obtain ⟨objs, hb⟩ := h.bucket k' d' (hmem hd').1
    obtain ⟨n, hn⟩ := hrest.desc d'
    refine ⟨objs, ?_, ?_, ?_, ?_, ?_, ?_⟩ <;> simp only [hn, hrest.word]
    · exact hb.size
    · exact hb.aligned
    · exact hb.ne_zero
    · exact hb.leads
    · exact hb.perm
    · exact hb.refcnt
  · intro k' d' hd' _
    simp only [hpage]
    refine h.used k' d' (hmem hd').1 fun heq => ?_
    exact (hmem hd').2 (Option.some.inj heq).symm
  · intro k' d' hd'
    simp only [hpage, hrest.descs]
    obtain ⟨hown, hapart⟩ := h.owned k' d' (hmem hd').1
    exact ⟨hkeep hown (h.apart_page hd (hmem hd').1 (hmem hd').2).symm, hapart⟩
  · intro x hx
    rw [hrest.descs] at hx
    exact hkeep (h.descs x hx) ((h.owned k d hd).2 x hx)
  · intro k₁ k₂ d₁ d₂ h₁ h₂ heq
    simp only [hpage] at heq
    exact h.inj k₁ k₂ d₁ d₂ (hmem h₁).1 (hmem h₂).1 heq
  · intro b' hb'
    obtain ⟨k', d', hd', hpg, hlen⟩ := h.live b' hb'
    have hne : d' ≠ d := by
      rintro rfl
      have hon := mem_onPage.2 ⟨⟨b', hb', rfl⟩, hpg.symm⟩
      rw [hempty] at hon
      exact absurd hon List.not_mem_nil
    refine ⟨k', d', (mem_unlink h.lists hC).2 ⟨hd', hne⟩, ?_, hlen⟩
    simp only [hpage]
    exact hpg

/-- **`free_s` after its search**: it gives the page back when no other block is on it. -/
theorem Inv.freeFound {prev : Option Nat} (h : Inv s C F none) (hb : b ∈ s.live)
    (hf : Found s.heap C b.addr k prev d) (hone : ∀ p k prev d, s.procs p ≠ .freeing b k prev d) :
    ∃ r C' F', s.heap.freeFound b.addr k prev d = some r ∧
      r.2 = (if onPage (s.live.erase b) (pageOf b.addr) = [] then some (pageOf b.addr) else none) ∧
      Inv
        { s with
          heap := r.1
          live := s.live.erase b
          owned := s.owned.filter fun x => r.2 ≠ some x } C' F' none := by
  have hput := h.putBack hb hf.mem hf.page hone
  have hself : (Malloc.putBack s.heap b.addr d).desc d =
      { s.heap.desc d with
        freeptr := some b.addr
        refcnt := (s.heap.desc d).refcnt - 1 } := desc_setDesc_self
  have hpg : ((Malloc.putBack s.heap b.addr d).desc d).page = pageOf b.addr := by
    rw [hself]
    exact hf.page
  obtain ⟨objs, hbucket⟩ := hput.bucket k d hf.mem
  have hrefcnt : ((Malloc.putBack s.heap b.addr d).desc d).refcnt = 0 ↔
      onPage (s.live.erase b) (pageOf b.addr) = [] := by
    rw [← List.length_eq_zero_iff, ← hpg, ← hbucket.refcnt]
    exact ⟨fun heq => congrArg BitVec.toNat heq, fun heq => BitVec.eq_of_toNat_eq heq⟩
  unfold Heap.freeFound
  by_cases hempty : onPage (s.live.erase b) (pageOf b.addr) = []
  · have hzero := hrefcnt.2 hempty
    have hnext : (Malloc.putBack s.heap b.addr d).next = s.heap.next :=
      next_setDesc (h := s.heap.setWord b.addr (s.heap.desc d).freeptr)
        (v := { s.heap.desc d with freeptr := some b.addr, refcnt := (s.heap.desc d).refcnt - 1 }) rfl
    obtain ⟨h', C', F', hun, hinv⟩ := hput.unlink hf.mem (by simp only [hpg]; exact hempty) (by
      simp only [hnext]
      exact hf.prev)
    refine ⟨(h', some (s.heap.desc d).page), C', F', ?_, ?_, ?_⟩
    · show (if ((Malloc.putBack s.heap b.addr d).desc d).refcnt = 0 then
        ((Malloc.putBack s.heap b.addr d).unlink k prev d).map _ else _) = _
      rw [if_pos hzero]
      dsimp only at hun
      rw [hun]
      rfl
    · rw [if_pos hempty, hf.page]
    · simp only [hpg] at hinv
      simp only [hf.page]
      exact hinv
  · have hne := fun heq => hempty (hrefcnt.1 heq)
    refine ⟨(Malloc.putBack s.heap b.addr d, none), C, F, if_neg hne, by rw [if_neg hempty], ?_⟩
    have hall : (s.owned.filter fun x => (none : Option Nat) ≠ some x) = s.owned := by simp
    simp only [hall]
    refine ⟨hput.lists, hput.waiting, hput.bucket, ?_, hput.owned, hput.descs, hput.inj, hput.live⟩
    intro k' d' hd' _
    by_cases hdd : d' = d
    · rw [hdd]
      simp only [hpg]
      exact hempty
    · exact hput.used k' d' hd' fun heq => hdd (Option.some.inj heq).symm

/-- **What the search of `free_s` finds**, with the size and without it. -/
theorem Inv.findPage {x : Option Nat} (h : Inv s C F x) (hb : b ∈ s.live) : ∃ k prev d, Found s.heap C b.addr k prev d ∧
    ∀ size, size = 0 ∨ size = b.len → s.heap.findPage (pageOf b.addr) size = some (k, prev, d) := by
  obtain ⟨k, d, hd, hpage, hlen⟩ := h.live b hb
  obtain ⟨hk, hle⟩ := bucketOf_some hlen
  have hone : ∀ k' d', d' ∈ C k' → ((s.heap.desc d').page == pageOf b.addr) = true → k' = k ∧ d' = d := by
    intro k' d' hd' hq
    obtain rfl := h.inj k' k d' d hd' hd ((beq_iff_eq.1 hq).trans hpage.symm)
    exact ⟨h.lists.apart k' k d' hd' hd, rfl⟩
  have hself : ((s.heap.desc d).page == pageOf b.addr) = true := beq_iff_eq.2 hpage
  obtain ⟨l₁, a, l₂, hC, hq, -, hs⟩ | ⟨hno, -⟩ :=
    (h.lists.chain k).search_spec (fun d => (s.heap.desc d).page == pageOf b.addr) (h.lists.length_le k) none
  · obtain ⟨-, rfl⟩ := hone k a (hC ▸ List.mem_append_right _ List.mem_cons_self) hq
    refine ⟨k, l₁.getLast?.or none, a, ⟨hd, hpage, ?_⟩, ?_⟩
    · intro b' hb' _
      rw [Option.or_none] at hb'
      exact hC ▸ List.mem_append_left _ (List.mem_of_getLast? hb')
    · intro size hsize
      unfold Heap.findPage
      obtain ⟨m₁, m₂, hrange⟩ := List.append_of_mem (List.mem_range.2 hk)
      refine List.findSome?_eq_some_iff.2 ⟨m₁, k, m₂, hrange, ?_, ?_⟩
      · rw [if_neg (by omega), hs]
        rfl
      · intro k' hk'
        have hne : k' ≠ k := by
          rintro rfl
          have hnodup := hrange ▸ List.nodup_range (n := bucketDir.length)
          exact (List.disjoint_of_nodup_append hnodup) hk' List.mem_cons_self
        split
        · rfl
        · obtain ⟨n₁, a', n₂, hC', hq', -, -⟩ | ⟨-, hs'⟩ := (h.lists.chain k').search_spec
            (fun d => (s.heap.desc d).page == pageOf b.addr) (h.lists.length_le k') none
          · exact absurd (hone k' a' (hC' ▸ List.mem_append_right _ List.mem_cons_self) hq').1 hne
          · rw [hs']
            rfl
  · rw [hno d hd] at hself
    exact nomatch hself

end Free

/-! ## Every run -/

section Runs

variable {s s' : State} {C : Nat → List Nat} {F : List Nat} {p len k d : Nat} {b : Block}

/-- A block in use is an object of its page. -/
theorem Inv.object (h : Inv s C F none) (hb : b ∈ s.live) (hd : d ∈ C k)
    (hpage : (s.heap.desc d).page = pageOf b.addr) : b.addr ∈ objects (sizeOf k) (s.heap.desc d).page := by
  obtain ⟨objs, hbk⟩ := h.bucket k d hd
  exact hbk.live_object (mem_onPage.2 ⟨⟨b, hb, rfl⟩, hpage.symm⟩)

/-- No free object begins inside a block in use. -/
theorem Inv.free_apart {objs : List Nat} {o : Nat} (h : Inv s C F none) (hd : d ∈ C k)
    (hbk : Bucket s.heap s.live k d objs) (ho : o ∈ objs) (hb : b ∈ s.live) :
    ¬ (b.addr ≤ o ∧ o < b.addr + b.len) := by
  rintro ⟨hle, hlt⟩
  obtain ⟨k', d', hd', hpage, hlen⟩ := h.live b hb
  obtain ⟨hk, hle'⟩ := bucketOf_some hlen
  obtain ⟨hmin', -, hfull'⟩ := sizeOf_ok hk
  have hk' := (h.lists.mem k d hd).2.2
  obtain ⟨hmin, -, hfull⟩ := sizeOf_ok hk'
  have hobj := h.object hb hd' hpage
  obtain ⟨hlo, hhi⟩ := object_within hfull' hobj
  obtain ⟨objs', hbk'⟩ := h.bucket k' d' hd'
  have hsame : pageOf o = (s.heap.desc d').page := pageOf_eq hbk'.aligned (by omega) (by omega)
  have hown := pageOf_object hbk.aligned (by omega) hfull (hbk.free_object ho)
  obtain rfl := h.inj k k' d d' hd hd' (hown.symm.trans hsame)
  obtain rfl := h.lists.apart k k' d hd hd'
  have hne : o ≠ b.addr := by
    rintro rfl
    exact (List.disjoint_of_nodup_append (hbk.nodup hk)) ho (mem_onPage.2 ⟨⟨b, hb, rfl⟩, hpage.symm⟩)
  have hapart := objects_apart hobj (hbk.free_object ho) hne.symm
  omega

theorem Inv.store {word : Nat → Option Nat} (h : Inv s C F none) (hb : b ∈ s.live)
    (hw : ∀ x, ¬ (b.addr ≤ x ∧ x < b.addr + b.len) → word x = s.heap.word x) :
    Inv { s with heap := { s.heap with word := word } } C F none where
  lists := h.lists.congr rfl rfl rfl rfl
  waiting := ⟨fun p => (h.waiting.waits p).mono (fun _ _ _ _ ht => ht.congr rfl rfl)
    fun _ _ _ _ _ hb' hf => ⟨hb', hf.mem, hf.page, hf.prev⟩, h.waiting.apart⟩
  bucket k d hd := by
    obtain ⟨objs, hbk⟩ := h.bucket k d hd
    exact ⟨objs, hbk.congr rfl (fun o ho => hw o (h.free_apart hd hbk ho hb)) (List.Perm.refl _)⟩
  used := h.used
  owned := h.owned
  descs := h.descs
  inj := h.inj
  live := h.live

/-- **`malloc`**, up to where it sleeps. -/
theorem Inv.malloc (h : Inv s C F none) (p : Nat) (hk : bucketOf len = some k) :
    ∃ r C' F', s.heap.malloc k = some r ∧ Inv (s.after p len k r) C' F' none := by
  unfold Heap.malloc
  rcases (h.lists.chain k).search_spec (fun d => (s.heap.desc d).freeptr.isSome) (h.lists.length_le k) none with
    ⟨l₁, d, l₂, hC, hq, -, hs⟩ | ⟨-, hs⟩
  · obtain ⟨o, ho⟩ := Option.isSome_iff_exists.1 hq
    have hd : d ∈ C k := hC ▸ List.mem_append_right _ List.mem_cons_self
    rw [hs]
    simp only [take_some ho]
    exact ⟨_, C, F, rfl, (h.setProc (p := p) (q := .idle) trivial fun _ _ => trivial).take hd nofun ho hk⟩
  · rw [hs]
    obtain ⟨C', F', hinv⟩ := h.newBucket p hk
    exact ⟨_, C', F', rfl, hinv⟩

/-- **The page for the objects has come.** -/
theorem Inv.gotBucketPage {page : Nat} (h : Inv s C F none) (hp : s.procs p = .bucketPage len k d)
    (hpage : s.Fresh page) : ∃ r C' F', s.heap.gotBucketPage k d page = some r ∧
      Inv ({ s with owned := page :: s.owned }.after p len k (r.1, .object r.2)) C' F' none := by
  have hwaits := h.waiting.waits p
  rw [hp] at hwaits
  obtain ⟨hk, ht⟩ := hwaits
  have hidle := h.setProc (p := p) (q := .idle) trivial fun _ _ => trivial
  have hone : ∀ p' len' k', (s.setProc p .idle).procs p' ≠ .bucketPage len' k' d := by
    intro p' len' k' hp'
    by_cases hne : p' = p
    · rw [hne, procs_setProc_self] at hp'
      exact nomatch hp'
    · rw [procs_setProc_ne hne] at hp'
      have hex := h.waiting.apart p' p hne
      rw [hp, hp'] at hex
      exact hex rfl
  have hlink := hidle.linkBucket (bucketOf_some hk).1 ht hone hpage
  have ho : ((s.heap.linkBucket k d page).desc d).freeptr = some page := by
    unfold Heap.linkBucket
    exact congrArg BucketDesc.freeptr desc_setDesc_self
  refine ⟨_, Function.update C k (d :: C k), F, take_some ho, ?_⟩
  exact hlink.take (mem_link.2 (Or.inl ⟨rfl, rfl⟩)) (fun d' hd' => (Option.some.inj hd').symm) ho hk

theorem Inv.boot : Inv boot (fun _ => []) [] none where
  lists := ⟨fun _ => .nil, .nil, nofun, nofun, fun _ => List.nodup_nil, List.nodup_nil, nofun⟩
  waiting := ⟨fun _ => trivial, fun _ _ _ => trivial⟩
  bucket := nofun
  used := nofun
  owned := nofun
  descs := nofun
  inj := nofun
  live := nofun

/-- A call that frees a block is the only one that does. -/
theorem Inv.endFreeing {prev : Option Nat} (h : Inv s C F none) (hp : s.procs p = .freeing b k prev d) :
    Inv (s.setProc p .idle) C F none ∧ ∀ p' k prev d, (s.setProc p .idle).procs p' ≠ .freeing b k prev d := by
  refine ⟨h.setProc trivial fun _ _ => trivial, fun p' k' prev' d' hp' => ?_⟩
  by_cases hne : p' = p
  · rw [hne, procs_setProc_self] at hp'
    exact nomatch hp'
  · rw [procs_setProc_ne hne] at hp'
    have hex := h.waiting.apart p' p hne
    rw [hp, hp'] at hex
    exact hex rfl

/-- **A step keeps the invariant.** -/
theorem Inv.step (h : Inv s C F none) (hs : Step s s') : ∃ C' F', Inv s' C' F' none := by
  cases hs with
  | malloc hp hk hr =>
      obtain ⟨r, C', F', hr', hinv⟩ := h.malloc _ hk
      obtain rfl := Option.some.inj (hr.symm.trans hr')
      exact ⟨C', F', hinv⟩
  | @descPage p len k page hp hpage =>
      have hk := h.waiting.waits p
      rw [hp] at hk
      obtain ⟨C', F', hinv⟩ := (h.initBucketDesc hpage).newBucket p hk
      exact ⟨C', F', hinv⟩
  | bucketPage hp hpage hr =>
      obtain ⟨r, C', F', hr', hinv⟩ := h.gotBucketPage hp hpage
      obtain rfl := Option.some.inj (hr.symm.trans hr')
      exact ⟨C', F', hinv⟩
  | @search p size b r hp hb hone hsize hr =>
      obtain ⟨k, prev, d, hf, hfind⟩ := h.findPage hb
      obtain rfl := Option.some.inj (hr.symm.trans (hfind size hsize))
      refine ⟨C, F, h.setProc (q := .freeing b k prev d) ⟨hb, hf⟩ fun p' hne => ?_⟩
      cases hq : s.procs p' with
      | freeing b' k' prev' d' =>
          rintro rfl
          exact hone p' k' prev' d' hq
      | _ => exact trivial
  | @free p k d b prev r hp hr =>
      have hwaits := h.waiting.waits p
      rw [hp] at hwaits
      obtain ⟨hb, hf⟩ := hwaits
      obtain ⟨hidle, hone⟩ := h.endFreeing hp
      obtain ⟨r', C', F', hr', -, hinv⟩ := hidle.freeFound hb hf hone
      obtain rfl := Option.some.inj (hr.symm.trans hr')
      exact ⟨C', F', hinv⟩
  | store word hb hw => exact ⟨C, F, h.store hb hw⟩

theorem Reach.inv (h : Reach s) : ∃ C F, Inv s C F none := by
  induction h with
  | boot => exact ⟨_, _, Inv.boot⟩
  | step _ hs ih =>
      obtain ⟨C, F, hinv⟩ := ih
      exact hinv.step hs

end Runs

/-! ## What it means -/

/-- The size of the objects that a block is one of. -/
def Block.room (b : Block) : Nat := (bucketOf b.len).elim 0 sizeOf

/-- The page that is given back with a block: its page, when no other block is on it. -/
def State.givenBack (s : State) (b : Block) : Option Nat :=
  if onPage (s.live.erase b) (pageOf b.addr) = [] then some (pageOf b.addr) else none

/-- What callers rely on.
    * `block`, `apart`: where the blocks are that have not been freed.
    * `bucket`: what a descriptor says about its page.
    * `malloc`, `bucketPage`: `malloc` does not panic.
    * `size`, `freeS`, `freeing`: what `free_s` does, at once or after an interruption. -/
structure Sound (s : State) : Prop where
  block : ∀ b ∈ s.live, b.len ≤ b.room ∧ b.room ∣ b.addr ∧ pageOf b.addr ∈ s.owned ∧
    b.addr + b.room ≤ pageOf b.addr + PAGE_SIZE
  apart : s.live.Pairwise fun b b' => b.addr + b.room ≤ b'.addr ∨ b'.addr + b'.room ≤ b.addr
  bucket : ∀ k, ∃ ds, Leads s.heap.next (s.heap.chain k) ds ∧ ∀ d ∈ ds, (s.heap.desc d).page ∈ s.owned ∧
    onPage s.live (s.heap.desc d).page ≠ [] ∧
    (s.heap.desc d).refcnt.toNat = (onPage s.live (s.heap.desc d).page).length ∧
    ∃ objs, Leads s.heap.word (s.heap.desc d).freeptr objs ∧ objs.Nodup ∧
      ∀ o, o ∈ objs ↔ o ∈ objects (sizeOf k) (s.heap.desc d).page ∧ ∀ b ∈ s.live, b.addr ≠ o
  malloc : ∀ len ≤ PAGE_SIZE, ∃ k r, bucketOf len = some k ∧ s.heap.malloc k = some r
  bucketPage : ∀ p len k d page, s.procs p = .bucketPage len k d → s.Fresh page →
    ∃ r, s.heap.gotBucketPage k d page = some r
  size : ∀ b ∈ s.live, s.heap.findPage (pageOf b.addr) b.len = s.heap.findPage (pageOf b.addr) 0 ∧
    s.heap.freeS b.addr b.len = s.heap.freeS b.addr 0
  freeS : ∀ b ∈ s.live, (∀ p k prev d, s.procs p ≠ .freeing b k prev d) →
    ∃ h', s.heap.freeS b.addr 0 = some (h', s.givenBack b)
  freeing : ∀ p b k prev d, s.procs p = .freeing b k prev d →
    ∃ h', s.heap.freeFound b.addr k prev d = some (h', s.givenBack b)

section Sound

variable {s : State} {C : Nat → List Nat} {F : List Nat} {b : Block}

theorem room_eq {k : Nat} (h : bucketOf b.len = some k) : b.room = sizeOf k := by
  unfold Block.room
  rw [h]
  rfl

theorem bucketOf_isSome {len : Nat} (h : len ≤ PAGE_SIZE) : ∃ k, bucketOf len = some k := by
  apply Option.isSome_iff_exists.1
  unfold bucketOf
  rw [List.find?_isSome]
  exact ⟨8, by decide, decide_eq_true h⟩

/-- **No two blocks overlap.** -/
theorem Inv.apart (h : Inv s C F none) :
    s.live.Pairwise fun b b' => b.addr + b.room ≤ b'.addr ∨ b'.addr + b'.room ≤ b.addr := by
  have hnodup : (s.live.map Block.addr).Nodup := by
    rw [List.nodup_iff_count_le_one]
    intro a
    by_cases ha : a ∈ s.live.map Block.addr
    · obtain ⟨b, hb, rfl⟩ := List.mem_map.1 ha
      obtain ⟨k, d, hd, hpage, -⟩ := h.live b hb
      obtain ⟨objs, hbk⟩ := h.bucket k d hd
      have hon := (hbk.nodup (h.lists.mem k d hd).2.2).of_append_right
      rw [hpage] at hon
      have hcount := List.nodup_iff_count_le_one.1 hon b.addr
      unfold onPage at hcount
      rwa [List.count_filter (by simp)] at hcount
    · rw [List.count_eq_zero_of_not_mem ha]
      exact Nat.zero_le 1
  refine (List.pairwise_map.1 hnodup).imp_of_mem fun {b b'} hb hb' hne => ?_
  obtain ⟨k, d, hd, hpage, hlen⟩ := h.live b hb
  obtain ⟨k', d', hd', hpage', hlen'⟩ := h.live b' hb'
  rw [room_eq hlen, room_eq hlen']
  have hobj := h.object hb hd hpage
  have hobj' := h.object hb' hd' hpage'
  by_cases hdd : d = d'
  · subst hdd
    obtain rfl := h.lists.apart k k' d hd hd'
    exact objects_apart hobj hobj' hne
  · obtain ⟨hlo, hhi⟩ := object_within (sizeOf_ok (bucketOf_some hlen).1).2.2 hobj
    obtain ⟨hlo', hhi'⟩ := object_within (sizeOf_ok (bucketOf_some hlen').1).2.2 hobj'
    have hpages := h.apart_page hd hd' (Ne.symm hdd)
    obtain ⟨_, hbk⟩ := h.bucket k d hd
    obtain ⟨_, hbk'⟩ := h.bucket k' d' hd'
    have haligned := hbk.aligned
    have haligned' := hbk'.aligned
    unfold PAGE_SIZE at *
    omega

/-- **A block is a whole object** of a page of the heap. -/
theorem Inv.block (h : Inv s C F none) (hb : b ∈ s.live) : b.len ≤ b.room ∧ b.room ∣ b.addr ∧
    pageOf b.addr ∈ s.owned ∧ b.addr + b.room ≤ pageOf b.addr + PAGE_SIZE := by
  obtain ⟨k, d, hd, hpage, hlen⟩ := h.live b hb
  obtain ⟨hk, hle⟩ := bucketOf_some hlen
  have hfull := (sizeOf_ok hk).2.2
  have hobj := h.object hb hd hpage
  obtain ⟨objs, hbk⟩ := h.bucket k d hd
  rw [room_eq hlen, ← hpage]
  refine ⟨hle, ?_, (h.owned k d hd).1, (object_within hfull hobj).2⟩
  obtain ⟨i, -, heq⟩ := mem_objects.1 hobj
  have hdvd : sizeOf k ∣ PAGE_SIZE := ⟨PAGE_SIZE / sizeOf k, by rw [Nat.mul_comm, hfull]⟩
  rw [heq]
  exact Nat.dvd_add (Nat.dvd_trans hdvd (Nat.dvd_of_mod_eq_zero hbk.aligned)) (Nat.dvd_mul_left _ _)

/-- **A descriptor says what its page holds.** -/
theorem Inv.descriptor {k d : Nat} (h : Inv s C F none) (hd : d ∈ C k) :
    (s.heap.desc d).refcnt.toNat = (onPage s.live (s.heap.desc d).page).length ∧
      ∃ objs, Leads s.heap.word (s.heap.desc d).freeptr objs ∧ objs.Nodup ∧
        ∀ o, o ∈ objs ↔ o ∈ objects (sizeOf k) (s.heap.desc d).page ∧ ∀ b ∈ s.live, b.addr ≠ o := by
  obtain ⟨objs, hbk⟩ := h.bucket k d hd
  have hk := (h.lists.mem k d hd).2.2
  obtain ⟨hmin, -, hfull⟩ := sizeOf_ok hk
  have hnodup := hbk.nodup hk
  refine ⟨hbk.refcnt, objs, hbk.leads, hnodup.of_append_left, fun o => ⟨fun ho => ?_, ?_⟩⟩
  · refine ⟨hbk.free_object ho, ?_⟩
    rintro b hb rfl
    have hpage := pageOf_object hbk.aligned (by omega) hfull (hbk.free_object ho)
    exact (List.disjoint_of_nodup_append hnodup) ho (mem_onPage.2 ⟨⟨b, hb, rfl⟩, hpage⟩)
  · rintro ⟨ho, hfree⟩
    rcases List.mem_append.1 (hbk.perm.mem_iff.2 ho) with ho | ho
    · exact ho
    · obtain ⟨⟨b, hb, heq⟩, -⟩ := mem_onPage.1 ho
      exact absurd heq (hfree b hb)

/-- **The kernel's heap**, in every run: blocks do not overlap and are inside pages of the heap, descriptors count and
    chain their objects, a page is given back with its last block, and the size does not matter to `free_s`. -/
theorem kernel_heap (hr : Reach s) : Sound s := by
  obtain ⟨C, F, h⟩ := hr.inv
  have hsize : ∀ b ∈ s.live, s.heap.findPage (pageOf b.addr) b.len = s.heap.findPage (pageOf b.addr) 0 := by
    intro b hb
    obtain ⟨k, prev, d, -, hfind⟩ := h.findPage hb
    rw [hfind b.len (Or.inr rfl), hfind 0 (Or.inl rfl)]
  refine ⟨fun b hb => h.block hb, h.apart, ?_, ?_, ?_, ?_, ?_, ?_⟩
  · intro k
    exact ⟨C k, h.lists.chain k, fun d hd => ⟨(h.owned k d hd).1, h.used k d hd nofun, h.descriptor hd⟩⟩
  · intro len hlen
    obtain ⟨k, hk⟩ := bucketOf_isSome hlen
    obtain ⟨r, -, -, hr, -⟩ := h.malloc 0 hk
    exact ⟨k, r, hk, hr⟩
  · intro p len k d page hp hpage
    obtain ⟨r, -, -, hr, -⟩ := h.gotBucketPage hp hpage
    exact ⟨r, hr⟩
  · intro b hb
    refine ⟨hsize b hb, ?_⟩
    unfold Heap.freeS
    rw [hsize b hb]
  · intro b hb hone
    obtain ⟨k, prev, d, hf, hfind⟩ := h.findPage hb
    obtain ⟨r, -, -, hr, hpage, -⟩ := h.freeFound hb hf hone
    refine ⟨r.1, ?_⟩
    unfold Heap.freeS
    rw [hfind 0 (Or.inl rfl)]
    exact hr.trans (congrArg (fun pg => some (r.1, pg)) hpage)
  · intro p b k prev d hp
    have hwaits := h.waiting.waits p
    rw [hp] at hwaits
    obtain ⟨hb, hf⟩ := hwaits
    obtain ⟨hidle, hone⟩ := h.endFreeing hp
    obtain ⟨r, -, -, hr, hpage, -⟩ := hidle.freeFound hb hf hone
    exact ⟨r.1, hr.trans (congrArg (fun pg => some (r.1, pg)) hpage)⟩

/-- The first block, when pages have come for the descriptors and for it. -/
theorem kernel_heap_first : ∃ s, s.live = [⟨0x2000, 10⟩] ∧ s.owned = [0x2000, 0x1000] ∧ Sound s := by
  have hasked := Reach.boot.step (@Step.malloc boot 0 10 0 _ rfl (by decide) rfl)
  have hdescs := hasked.step (@Step.descPage _ 0 10 0 0x1000 rfl ⟨by decide, by decide, by decide⟩)
  have hblock := hdescs.step (@Step.bucketPage _ 0 10 0 0x1000 0x2000 _ rfl ⟨by decide, by decide, by decide⟩ rfl)
  exact ⟨_, rfl, rfl, kernel_heap hblock⟩

end Sound

end Malloc
end Lib
end Linux095
