import Linux095.Fs.Exec
import Mathlib.Data.List.Basic
import Mathlib.Data.List.Nodup

/-!
# `Fs.ExecStrings` — what `copy_strings` copies

The strings are copied from the last byte of the last one to the first byte of the first, and a page is found when the
first byte comes into it.

* `Filled` — what has been written to the pages;
* `copyStrings_ends` — **the strings are in the pages, one behind the other**, or there was no room for them.
-/

namespace Linux095
namespace Fs
namespace Exec
open Seq Prog

/-- A call that does not return has met a fault in user memory, or gives up. -/
def Off.Fatal (e : Off) : Prop := e = .died ∨ e = .panic

/-! ## Strings -/

def Ptr.seg : Ptr → Seg
  | .user _ => .user
  | .kernel _ => .kernel

/-- The byte at `p + k`. -/
def Ptr.byte (m : Nat → Byte) : Ptr → Nat → Byte
  | .user a, k => m (a + k)
  | .kernel l, k => l.getD k 0

/-- `p` points to the string `x`. -/
def StringAt (m : Nat → Byte) (p : Ptr) (x : List Byte) : Prop :=
  (∀ (k : Nat) (b : Byte), x[k]? = some b → p.byte m k = b ∧ b ≠ 0) ∧ p.byte m x.length = 0

/-- The strings, with their zeros. -/
def flat (xs : List (List Byte)) : List Byte := xs.flatMap fun x => x ++ [0]

/-- The `i`-th pointer of a table. -/
def Entry (m : Nat → Byte) : Table → Nat → Ptr → Prop
  | .user a, i, p => p = .user (long m (a + 4 * i))
  | .kernel l, i, p => l[i]? = some p

/-- `t` has pointers to the strings `xs`. -/
def Strings (m : Nat → Byte) (t : Table) (xs : List (List Byte)) : Prop :=
  ∀ (i : Nat) (x : List Byte), xs[i]? = some x → ∃ p, Entry m t i p ∧ p ≠ .user 0 ∧ StringAt m p x

section

variable {m : Nat → Byte} {t : Table} {p : Ptr} {x y : List Byte} {xs ys : List (List Byte)}

/-- The bytes of a string. -/
theorem StringAt.bytes (h : StringAt m p x) : (List.range (x.length + 1)).map (p.byte m) = x ++ [0] := by
  rw [List.range_succ, List.map_append, List.map_singleton, h.2]
  congr 1
  refine List.ext_getElem (by simp) fun k hk hk' => ?_
  rw [List.getElem_map, List.getElem_range]
  exact (h.1 k x[k] (List.getElem?_eq_getElem hk')).1

/-- A string ends at its first zero. -/
theorem StringAt.length_le (hx : StringAt m p x) (hy : StringAt m p y) : x.length ≤ y.length := by
  by_contra hlt
  have hlt : y.length < x.length := Nat.not_le.1 hlt
  obtain ⟨hb, hne⟩ := hx.1 y.length x[y.length] (List.getElem?_eq_getElem hlt)
  exact hne (hb.symm.trans hy.2)

/-- There is one string at a place. -/
theorem StringAt.unique (hx : StringAt m p x) (hy : StringAt m p y) : x = y := by
  have hlen := Nat.le_antisymm (hx.length_le hy) (hy.length_le hx)
  have hbytes := hx.bytes.symm.trans ((congrArg (fun n => (List.range (n + 1)).map (p.byte m)) hlen).trans hy.bytes)
  exact List.append_cancel_right hbytes

theorem Entry.unique {i : Nat} {q : Ptr} (hp : Entry m t i p) (hq : Entry m t i q) : p = q := by
  cases t with
  | user a => exact Eq.trans hp (Eq.symm hq)
  | kernel l => exact Option.some_inj.1 (Eq.trans (Eq.symm hp) hq)

theorem Strings.unique (hx : Strings m t xs) (hy : Strings m t ys) (hlen : xs.length = ys.length) : xs = ys := by
  refine List.ext_getElem hlen fun i hi hi' => ?_
  obtain ⟨p, hp, -, hpx⟩ := hx i xs[i] (List.getElem?_eq_getElem hi)
  obtain ⟨q, hq, -, hqy⟩ := hy i ys[i] (List.getElem?_eq_getElem hi')
  rw [hp.unique hq] at hpx
  exact hpx.unique hqy

theorem flat_append (xs ys : List (List Byte)) : flat (xs ++ ys) = flat xs ++ flat ys := List.flatMap_append

theorem flat_cons (x : List Byte) (xs : List (List Byte)) : flat (x :: xs) = (x ++ [0]) ++ flat xs := List.flatMap_cons

/-- One more string behind the others. -/
theorem Strings.snoc {n : Nat} (h : Strings m t xs) (hn : xs.length = n) (hp : Entry m t n p) (hne : p ≠ .user 0)
    (hx : StringAt m p x) : Strings m t (xs ++ [x]) := by
  intro i y hy
  rw [List.getElem?_append] at hy
  split at hy
  · exact h i y hy
  · next hi =>
      obtain ⟨hi0, hyx⟩ := List.getElem?_eq_some_iff.1 hy
      have hin : i = n := by
        rw [List.length_singleton] at hi0
        omega
      rw [List.getElem_singleton] at hyx
      rw [hin, ← hyx]
      exact ⟨p, hp, hne, hx⟩

end

/-! ## What stays -/

/-- Whatever is neither `fs` nor about pages. -/
structure Keeps (s s' : State) : Prop where
  user : s'.user = s.user
  limit : s'.limit = s.limit
  lookups : s'.lookups = s.lookups
  reads : s'.reads = s.reads
  inodes : s'.inodes = s.inodes
  buffers : s'.buffers = s.buffers
  current : s'.current = s.current
  eip : s'.eip = s.eip
  cs : s'.cs = s.cs
  esp : s'.esp = s.esp

theorem Keeps.refl (s : State) : Keeps s s := ⟨rfl, rfl, rfl, rfl, rfl, rfl, rfl, rfl, rfl, rfl⟩

theorem Keeps.trans {s s' s'' : State} (h : Keeps s s') (h' : Keeps s' s'') : Keeps s s'' where
  user := h'.user.trans h.user
  limit := h'.limit.trans h.limit
  lookups := h'.lookups.trans h.lookups
  reads := h'.reads.trans h.reads
  inodes := h'.inodes.trans h.inodes
  buffers := h'.buffers.trans h.buffers
  current := h'.current.trans h.current
  eip := h'.eip.trans h.eip
  cs := h'.cs.trans h.cs
  esp := h'.esp.trans h.esp

/-- **The pages of the call** are those in `page`, each of them once. -/
structure Pages (s : State) : Prop where
  held : ∀ f, f ∈ s.frames ↔ f ≠ 0 ∧ ∃ i < MAX_ARG_PAGES, s.page i = f
  nodup : s.frames.Nodup
  inj : ∀ i j, s.page i ≠ 0 → s.page i = s.page j → i = j
  bound : ∀ i, s.page i ≤ s.allocs

/-- `*(page[a / PAGE_SIZE] + a % PAGE_SIZE)`. -/
def area (s : State) (a : Nat) : Byte := s.frame (s.page (a / PAGE_SIZE)) (a % PAGE_SIZE)

/-- There is a page for `a`. -/
def Present (s : State) (a : Nat) : Prop := s.page (a / PAGE_SIZE) ≠ 0

/-- **From `s` to `s'` the bytes `l` have been written**, from `p` on. Nothing has changed behind them. -/
structure Filled (s : State) (p : Nat) (l : List Byte) (s' : State) : Prop where
  page : ∀ i, s.page i ≠ 0 → s'.page i = s.page i
  there : ∀ k b, l[k]? = some b → Present s' (p + k) ∧ area s' (p + k) = b
  above : ∀ a, p + l.length ≤ a → Present s a → area s' a = area s a

namespace Filled

variable {s s' s'' : State} {p q : Nat} {l l' : List Byte}

theorem refl (s : State) (p : Nat) : Filled s p [] s := ⟨fun _ _ => rfl, nofun, fun _ _ _ => rfl⟩

theorem present (h : Filled s p l s') {a : Nat} (ha : Present s a) : Present s' a := by
  unfold Present
  rw [h.page _ ha]
  exact ha

/-- More is written below. -/
theorem trans (h : Filled s p l s') (h' : Filled s' q l' s'') (hq : q + l'.length = p) : Filled s q (l' ++ l) s'' where
  page i hi := by
    have hpage := h.page i hi
    rw [h'.page i (hpage ▸ hi), hpage]
  there k b hb := by
    rw [List.getElem?_append] at hb
    split at hb
    · exact h'.there k b hb
    · next hk =>
        obtain ⟨hpres, harea⟩ := h.there (k - l'.length) b hb
        have hplace : p + (k - l'.length) = q + k := by omega
        rw [hplace] at hpres harea
        exact ⟨h'.present hpres, (h'.above _ (by omega) hpres).trans harea⟩
  above a ha hpres := by
    rw [List.length_append] at ha
    rw [h'.above a (by omega) (h.present hpres), h.above a (by omega) hpres]

end Filled

/-! ## Reading -/

section

variable {s : State} {k : Nat}

theorem getFsByte_ends {p : Ptr} (hseg : p.seg = s.fs) (hk : ∀ l, p = .kernel l → k ≤ l.length) :
    Ends (getFsByte p k) s Off.Fatal fun b s' => s' = s ∧ b = p.byte s.user k ∧
      ∀ a, p = .user a → a + k < s.limit := by
  unfold Ends getFsByte
  cases p with
  | user a =>
      rw [← hseg]
      dsimp only [Ptr.seg]
      by_cases hlt : a + k < s.limit
      · rw [if_pos hlt]
        exact ⟨rfl, rfl, fun _ h => by cases h; exact hlt⟩
      · rw [if_neg hlt]
        exact .inl rfl
  | kernel l =>
      rw [← hseg]
      dsimp only [Ptr.seg]
      rw [if_pos (hk l rfl)]
      exact ⟨rfl, rfl, nofun⟩

theorem getFsLong_ends {t : Table} {i : Nat} (huser : ∀ a, t = .user a → s.fs = .user)
    (hkernel : ∀ l, t = .kernel l → s.fs = .kernel ∧ i < l.length) :
    Ends (getFsLong t i) s Off.Fatal fun p s' => s' = s ∧ Entry s.user t i p ∧
      ∀ a, t = .user a → a + 4 * i + 3 < s.limit := by
  unfold Ends getFsLong
  cases t with
  | user a =>
      rw [huser a rfl]
      dsimp only
      by_cases hlt : a + 4 * i + 3 < s.limit
      · rw [if_pos hlt]
        exact ⟨rfl, rfl, fun _ h => by cases h; exact hlt⟩
      · rw [if_neg hlt]
        exact .inl rfl
  | kernel l =>
      obtain ⟨hfs, hi⟩ := hkernel l rfl
      rw [hfs]
      dsimp only
      rw [List.getElem?_eq_getElem hi]
      exact ⟨rfl, List.getElem?_eq_getElem hi, nofun⟩

/-- The loop goes on to the first zero, which comes before there is nothing to be read. -/
theorem lenLoop_ends {p : Ptr} (hseg : p.seg = s.fs) {fuel len : Nat} (hfuel : p.room s.limit ≤ fuel + len)
    (hlen : ∀ l, p = .kernel l → len ≤ l.length) (hbytes : ∀ i < len, p.byte s.user i ≠ 0)
    (hbelow : ∀ a, p = .user a → 0 < len → a + len ≤ s.limit) :
    Ends (lenLoop p fuel len) s Off.Fatal fun n s' => s' = s ∧ ∃ x, n = x.length + 1 ∧ StringAt s.user p x := by
  induction fuel generalizing len with
  | zero =>
      -- All has been read.
      exfalso
      cases p with
      | user a =>
          have hle := hbelow a rfl
          simp only [Ptr.room] at hfuel
          omega
      | kernel l =>
          have hle := hlen l rfl
          simp only [Ptr.room] at hfuel
          omega
  | succ fuel ih =>
      rw [lenLoop]
      refine .then_ (getFsByte_ends hseg hlen) fun b s' ⟨hs, hb, hlt⟩ => ?_
      subst hs hb
      by_cases hzero : p.byte s'.user len = 0
      · rw [if_pos hzero]
        refine .pure ⟨rfl, (List.range len).map (p.byte s'.user), by simp, fun i b hb => ?_, by simpa using hzero⟩
        obtain ⟨hi, rfl⟩ := List.getElem?_eq_some_iff.1 hb
        rw [List.length_map, List.length_range] at hi
        rw [List.getElem_map, List.getElem_range]
        exact ⟨rfl, hbytes i hi⟩
      · rw [if_neg hzero]
        apply ih
        · omega
        · intro l hl
          have hle := hlen l hl
          rcases Nat.lt_or_eq_of_le hle with hlt | heq
          · exact hlt
          · refine absurd ?_ hzero
            rw [hl, heq]
            simp [Ptr.byte]
        · intro i hi
          rcases Nat.lt_succ_iff_lt_or_eq.1 hi with hi | rfl
          · exact hbytes i hi
          · exact hzero
        · exact fun a ha _ => hlt a ha

theorem strLen_ends {p : Ptr} (hseg : p.seg = s.fs) :
    Ends (strLen p) s Off.Fatal fun n s' => s' = s ∧ ∃ x, n = x.length + 1 ∧ StringAt s.user p x := by
  unfold strLen
  apply Ends.bind
  apply Ends.reads
  apply lenLoop_ends hseg
  · omega
  · exact fun l _ => Nat.zero_le _
  · exact nofun
  · exact fun a _ h => absurd h (Nat.lt_irrefl 0)

end

/-! ## Pages -/

section

variable {w : World} {s : State}

/-- The fields that `getFreePage` and the page table change. -/
theorem findPage_ends (hp : Pages s) {i : Nat} (hi : i < MAX_ARG_PAGES) :
    Ends (findPage w i) s Off.Fatal fun pag s' => Keeps s s' ∧ s'.fs = s.fs ∧ Pages s' ∧ s'.page i = pag ∧
      (∀ j, s.page j ≠ 0 → s'.page j = s.page j) ∧ ∀ a, Present s a → area s' a = area s a := by
  unfold findPage
  apply Ends.bind
  apply Ends.reads
  by_cases hpag : s.page i = 0
  · rw [if_neg (not_not.2 hpag)]
    by_cases hmem : w.memory s.allocs = true
    · have hget : getFreePage w s = .ok (s.allocs + 1, { s with
          allocs := s.allocs + 1, frames := (s.allocs + 1) :: s.frames,
          frame := fun x => if x = s.allocs + 1 then fun _ => 0 else s.frame x }) := by
        unfold getFreePage
        dsimp only
        rw [if_pos hmem]
      unfold Ends
      rw [bind_ok hget, modify_bind]
      -- The page is one that has not been there.
      have hnew : ∀ j, s.page j ≠ s.allocs + 1 := fun j hj => by
        have hle := hp.bound j
        omega
      refine ⟨⟨rfl, rfl, rfl, rfl, rfl, rfl, rfl, rfl, rfl, rfl⟩, rfl, ⟨fun f => ?_, ?_, fun j j' hj hjj => ?_,
        fun j => ?_⟩, if_pos rfl, fun j hj => ?_, fun a ha => ?_⟩
      · dsimp only
        rw [List.mem_cons, hp.held]
        constructor
        · rintro (rfl | ⟨hf, j, hj, hjf⟩)
          · exact ⟨Nat.succ_ne_zero _, i, hi, if_pos rfl⟩
          · refine ⟨hf, j, hj, ?_⟩
            rw [if_neg, hjf]
            rintro rfl
            exact hf (hjf.symm.trans hpag)
        · rintro ⟨hf, j, hj, hjf⟩
          by_cases hji : j = i
          · rw [if_pos hji] at hjf
            exact .inl hjf.symm
          · rw [if_neg hji] at hjf
            exact .inr ⟨hf, j, hj, hjf⟩
      · refine List.nodup_cons.2 ⟨fun hno => ?_, hp.nodup⟩
        obtain ⟨-, j, -, hj⟩ := (hp.held _).1 hno
        exact hnew j hj
      · dsimp only at hj hjj
        by_cases hji : j = i
        · by_cases hji' : j' = i
          · rw [hji, hji']
          · rw [if_pos hji, if_neg hji'] at hjj
            exact absurd hjj.symm (hnew j')
        · by_cases hji' : j' = i
          · rw [if_neg hji, if_pos hji'] at hjj
            exact absurd hjj (hnew j)
          · rw [if_neg hji] at hj
            rw [if_neg hji, if_neg hji'] at hjj
            exact hp.inj j j' hj hjj
      · dsimp only
        split
        · exact Nat.le_refl _
        · exact Nat.le_succ_of_le (hp.bound j)
      · refine if_neg fun hji => hj ?_
        rw [hji, hpag]
      · unfold area
        dsimp only
        rw [if_neg fun hai => ha ((congrArg s.page hai).trans hpag), if_neg (hnew _)]
    · -- There is no memory.
      have hget : getFreePage w s = .ok (0, { s with allocs := s.allocs + 1 }) := by
        unfold getFreePage
        dsimp only
        rw [if_neg hmem]
      unfold Ends
      rw [bind_ok hget, modify_bind]
      have hsame : (fun x => if x = i then 0 else s.page x) = s.page := funext fun x => by
        split
        · next hx => rw [hx, hpag]
        · rfl
      refine ⟨⟨rfl, rfl, rfl, rfl, rfl, rfl, rfl, rfl, rfl, rfl⟩, rfl, ?_, if_pos rfl, fun j _ => ?_, fun a _ => ?_⟩
      · dsimp only
        rw [hsame]
        exact ⟨hp.held, hp.nodup, hp.inj, fun j => Nat.le_succ_of_le (hp.bound j)⟩
      · exact congrFun hsame j
      · unfold area
        dsimp only
        rw [congrFun hsame]
  · rw [if_pos hpag]
    exact .pure ⟨.refl s, rfl, hp, rfl, fun _ _ => rfl, fun _ _ => rfl⟩

/-- `fs` where strings are read. -/
def stringSeg (fromKmem : Nat) : Seg := if fromKmem = 2 then .kernel else .user

/-- What `offset` and `pag` say of `p`. -/
structure CursorOk (s : State) (c : Cursor) : Prop where
  nonneg : 0 ≤ c.offset
  cached : 0 < c.offset → c.offset = (c.p % PAGE_SIZE : Nat) ∧ c.pag = s.page (c.p / PAGE_SIZE) ∧ c.pag ≠ 0

/-- The top of the pages. -/
def TOP : Nat := PAGE_SIZE * MAX_ARG_PAGES

theorem setFsIf_run (b : Bool) (v : Seg) : setFsIf b v s = .ok ((), if b then { s with fs := v } else s) := rfl

/-- **The place for the next byte.** -/
theorem seek_ends {fromKmem : Nat} {c : Cursor} (hp : Pages s) (hc : CursorOk s c) (hpos : 0 < c.p) (htop : c.p ≤ TOP)
    (hfs : s.fs = stringSeg fromKmem) :
    Ends (seek w fromKmem .user c) s Off.Fatal fun c' s' => Keeps s s' ∧ Pages s' ∧ c'.p + 1 = c.p ∧
      (∀ j, s.page j ≠ 0 → s'.page j = s.page j) ∧ (∀ a, Present s a → area s' a = area s a) ∧
      (c'.pag = 0 → s'.fs = .user) ∧
      (c'.pag ≠ 0 → s'.fs = stringSeg fromKmem ∧ c'.offset = (c'.p % PAGE_SIZE : Nat) ∧
        s'.page (c'.p / PAGE_SIZE) = c'.pag) := by
  have hnonneg := hc.nonneg
  unfold seek
  dsimp only
  by_cases hoff : c.offset - 1 < 0
  · -- The byte is the last one of a page, or the first one of all.
    rw [if_pos hoff]
    have hindex : (c.p - 1) / PAGE_SIZE < MAX_ARG_PAGES := by
      unfold TOP PAGE_SIZE MAX_ARG_PAGES at *
      omega
    -- `fs` is the one of the caller while memory is asked for.
    let s₁ : State := if fromKmem == 2 then { s with fs := .user } else s
    have hs₁ : s₁.fs = .user ∧ Keeps s s₁ ∧ s₁.page = s.page ∧ s₁.frame = s.frame ∧ Pages s₁ := by
      show (if _ then _ else _ : State).fs = _ ∧ _
      unfold stringSeg at hfs
      by_cases hk : fromKmem = 2
      · have hs₁ : s₁ = { s with fs := .user } := if_pos (beq_iff_eq.2 hk)
        rw [hs₁]
        exact ⟨by rw [if_pos (beq_iff_eq.2 hk)], ⟨rfl, rfl, rfl, rfl, rfl, rfl, rfl, rfl, rfl, rfl⟩, rfl, rfl,
          ⟨hp.held, hp.nodup, hp.inj, hp.bound⟩⟩
      · have hs₁ : s₁ = s := if_neg (mt beq_iff_eq.1 hk)
        rw [hs₁]
        rw [if_neg hk] at hfs
        exact ⟨by rw [if_neg (mt beq_iff_eq.1 hk), hfs], .refl s, rfl, rfl, hp⟩
    obtain ⟨hfs₁, hkeep₁, hpage₁, hframe₁, hp₁⟩ := hs₁
    unfold Ends
    rw [bind_ok (setFsIf_run (s := s) (fromKmem == 2) .user)]
    refine (Ends.then_ (findPage_ends (w := w) hp₁ hindex) fun pag s₂ ⟨hkeep, hfs₂, hp₂, hpag, hsame, harea⟩ => ?_ :
      Ends _ s₁ _ _)
    rw [hpage₁] at hsame
    unfold Ends
    rw [bind_ok (setFsIf_run (s := s₂) (fromKmem == 2 && pag != 0) .kernel)]
    have hplace : c.p - 1 + 1 = c.p := Nat.sub_add_cancel hpos
    have harea' : ∀ a, Present s a → area s₂ a = area s a := fun a ha => by
      have hsame₁ : area s₁ a = area s a := by
        unfold area
        rw [hpage₁, hframe₁]
      rw [← hsame₁]
      apply harea
      unfold Present
      rw [hpage₁]
      exact ha
    by_cases hb : (fromKmem == 2 && pag != 0) = true
    · rw [if_pos hb]
      rw [Bool.and_eq_true, beq_iff_eq, bne_iff_ne] at hb
      refine ⟨⟨(hkeep₁.trans hkeep).user, (hkeep₁.trans hkeep).limit, (hkeep₁.trans hkeep).lookups,
        (hkeep₁.trans hkeep).reads, (hkeep₁.trans hkeep).inodes, (hkeep₁.trans hkeep).buffers,
        (hkeep₁.trans hkeep).current, (hkeep₁.trans hkeep).eip, (hkeep₁.trans hkeep).cs, (hkeep₁.trans hkeep).esp⟩,
        ⟨hp₂.held, hp₂.nodup, hp₂.inj, hp₂.bound⟩, hplace, hsame, harea', fun hno => absurd hno hb.2,
        fun _ => ⟨?_, rfl, hpag⟩⟩
      rw [stringSeg, if_pos hb.1]
    · rw [if_neg hb]
      refine ⟨hkeep₁.trans hkeep, hp₂, hplace, hsame, harea', fun _ => hfs₂.trans hfs₁, fun hne => ⟨?_, rfl, hpag⟩⟩
      rw [stringSeg, if_neg, hfs₂, hfs₁]
      rintro rfl
      exact hb (by simpa using hne)
  · -- It is in the same page.
    rw [if_neg hoff]
    obtain ⟨hoffset, hpag, hne⟩ := hc.cached (by omega)
    have hsame : (c.p - 1) / PAGE_SIZE = c.p / PAGE_SIZE ∧ c.offset - 1 = ((c.p - 1) % PAGE_SIZE : Nat) := by
      unfold PAGE_SIZE at *
      omega
    refine .pure ⟨.refl s, hp, Nat.sub_add_cancel hpos, fun _ _ => rfl, fun _ _ => rfl, fun hno => absurd hno hne,
      fun _ => ⟨hfs, hsame.2, ?_⟩⟩
    dsimp only
    rw [hsame.1, hpag]

/-- How the copying of some bytes ends, which come from `p` on. -/
def Copied (s : State) (fromKmem : Nat) (c : Cursor) (l : List Byte) (r : Option Cursor) (s' : State) : Prop :=
  Keeps s s' ∧ Pages s' ∧
    match r with
    | none => s'.fs = .user
    | some c' => s'.fs = stringSeg fromKmem ∧ CursorOk s' c' ∧ c'.p + l.length = c.p ∧ Filled s c'.p l s'

/-- A byte is written. -/
theorem store_spec {c : Cursor} (hp : Pages s) (hoff : c.offset = (c.p % PAGE_SIZE : Nat)) (hne : c.pag ≠ 0)
    (hpag : s.page (c.p / PAGE_SIZE) = c.pag) (b : Byte) :
    Keeps s (store c b s) ∧ Pages (store c b s) ∧ Filled s c.p [b] (store c b s) ∧ CursorOk (store c b s) c := by
  have hself : area (store c b s) c.p = b := by
    unfold area store
    dsimp only
    rw [if_pos hpag, if_pos (by rw [hoff, Int.toNat_natCast])]
  refine ⟨⟨rfl, rfl, rfl, rfl, rfl, rfl, rfl, rfl, rfl, rfl⟩, ⟨hp.held, hp.nodup, hp.inj, hp.bound⟩,
    ⟨fun _ _ => rfl, fun k x hx => ?_, fun a ha hpres => ?_⟩, ⟨by omega, fun _ => ⟨hoff, hpag.symm, hne⟩⟩⟩
  · cases k with
    | zero =>
        cases hx
        exact ⟨fun hno => hne (hpag.symm.trans hno), hself⟩
    | succ k => cases hx
  · -- Other bytes are at another place.
    unfold area store
    dsimp only
    by_cases hframe : s.page (a / PAGE_SIZE) = c.pag
    · have hdiv := hp.inj _ _ hpres (hframe.trans hpag.symm)
      rw [if_pos hframe, if_neg]
      rw [hoff, Int.toNat_natCast]
      intro hmod
      rw [List.length_singleton] at ha
      unfold PAGE_SIZE at hdiv hmod
      omega
    · rw [if_neg hframe]

/-- **The loop that copies a string**, from its end. -/
theorem copyBytes_ends {fromKmem : Nat} {tmp : Ptr} (hseg : tmp.seg = stringSeg fromKmem) (len : Nat)
    (hlen : ∀ l, tmp = .kernel l → len ≤ l.length + 1) {s : State} {c : Cursor} (hp : Pages s) (hc : CursorOk s c)
    (hroom : len ≤ c.p) (htop : c.p ≤ TOP) (hfs : s.fs = stringSeg fromKmem) :
    Ends (copyBytes w fromKmem .user tmp len c) s Off.Fatal
      (Copied s fromKmem c ((List.range len).map (tmp.byte s.user))) := by
  induction len generalizing s c with
  | zero => exact .pure ⟨.refl s, hp, hfs, hc, rfl, .refl s c.p⟩
  | succ len ih =>
      rw [copyBytes]
      refine .then_ (seek_ends hp hc (Nat.lt_of_lt_of_le (Nat.succ_pos len) hroom) htop hfs)
        fun c₁ s₁ ⟨hkeep₁, hp₁, hplace, hpage, harea, hnone, hsome⟩ => ?_
      by_cases hpag : c₁.pag = 0
      · rw [if_pos hpag]
        exact .pure ⟨hkeep₁, hp₁, hnone hpag⟩
      · rw [if_neg hpag]
        obtain ⟨hfs₁, hoff, hpage₁⟩ := hsome hpag
        refine .then_ (getFsByte_ends (hseg.trans hfs₁.symm) fun l hl => Nat.le_of_succ_le_succ (hlen l hl))
          fun b s₂ ⟨hs, hb, _⟩ => ?_
        subst hs
        obtain ⟨hkeep₂, hp₂, hfill, hc₂⟩ := store_spec hp₁ hoff hpag hpage₁ b
        apply Ends.bind
        apply Ends.modify
        have hrest := ih (fun l hl => Nat.le_of_succ_le (hlen l hl)) hp₂ hc₂ (by omega) (by omega) hfs₁
        refine hrest.mono fun r s' ⟨hkeep, hp', hr⟩ => ⟨(hkeep₁.trans hkeep₂).trans hkeep, hp', ?_⟩
        cases r with
        | none => exact hr
        | some c' =>
            obtain ⟨hfs', hc', hplace', hfill'⟩ := hr
            have huser : (store c₁ b s₂).user = s.user := hkeep₁.user
            rw [huser] at hplace' hfill'
            -- The byte comes behind those that follow.
            have hbytes : (List.range (len + 1)).map (tmp.byte s.user) =
                (List.range len).map (tmp.byte s.user) ++ [b] := by
              rw [List.range_succ, List.map_append, List.map_singleton, hb, hkeep₁.user]
            have hseek : Filled s c₁.p [b] (store c₁ b s₂) := by
              refine ⟨fun i hi => hpage i hi, hfill.there, fun a ha hpres => ?_⟩
              have hpres₁ : Present s₂ a := by
                unfold Present
                rw [hpage _ hpres]
                exact hpres
              rw [hfill.above a ha hpres₁, harea a hpres]
            refine ⟨hfs', hc', ?_, ?_⟩
            · rw [List.length_map, List.length_range] at hplace' ⊢
              omega
            · rw [hbytes]
              exact hseek.trans hfill' hplace'

/-! ## `copy_strings` -/

/-- What `from_kmem` says of the first `n` pointers of a table. -/
inductive TableOk (n : Nat) : Nat → Table → Prop
  | user (a : Nat) : TableOk n 0 (.user a)
  | mixed {l : List Ptr} (hn : n ≤ l.length) (hl : ∀ p ∈ l, p.seg = .user) : TableOk n 1 (.kernel l)
  | kernel {l : List Ptr} (hn : n ≤ l.length) (hl : ∀ p ∈ l, p.seg = .kernel) : TableOk n 2 (.kernel l)

theorem TableOk.pred {n fromKmem : Nat} {t : Table} (h : TableOk (n + 1) fromKmem t) : TableOk n fromKmem t := by
  cases h with
  | user a => exact .user a
  | mixed hn hl => exact .mixed (Nat.le_of_succ_le hn) hl
  | kernel hn hl => exact .kernel (Nat.le_of_succ_le hn) hl


/-- A pointer is read, and `fs` is as before when it is set back. -/
theorem lastPtr_ends {n fromKmem : Nat} {t : Table} (ht : TableOk (n + 1) fromKmem t)
    (hfs : s.fs = stringSeg fromKmem) :
    Ends (getFsLong t n) (if fromKmem == 1 then { s with fs := .kernel } else s) Off.Fatal fun p s' =>
      (if fromKmem == 1 then { s' with fs := .user } else s') = s ∧ Entry s.user t n p ∧
        p.seg = stringSeg fromKmem := by
  cases ht with
  | user a =>
      have hread : Ends (getFsLong (.user a) n) s Off.Fatal _ := getFsLong_ends (fun _ _ => hfs) nofun
      refine hread.mono fun p s' ⟨hs, hp, _⟩ => ⟨hs, hp, ?_⟩
      rw [hp]
      rfl
  | mixed hn hl =>
      have hread : Ends (getFsLong (.kernel _) n) { s with fs := .kernel } Off.Fatal _ :=
        getFsLong_ends nofun fun l h => by cases h; exact ⟨rfl, hn⟩
      refine hread.mono fun p s' ⟨hs, hp, _⟩ => ⟨?_, hp, hl p (List.mem_of_getElem? hp)⟩
      subst hs
      have hback : ({ s with fs := .user } : State) = s := by
        have hfs : s.fs = .user := hfs
        rw [← hfs]
      exact hback
  | kernel hn hl =>
      have hread : Ends (getFsLong (.kernel _) n) s Off.Fatal _ :=
        getFsLong_ends nofun fun l h => by cases h; exact ⟨hfs, hn⟩
      exact hread.mono fun p s' ⟨hs, hp, _⟩ => ⟨hs, hp, hl p (List.mem_of_getElem? hp)⟩

/-- How the loop over some strings ends. -/
def CopiedAll (s : State) (fromKmem n : Nat) (t : Table) (c : Cursor) (r : Option Cursor) (s' : State) : Prop :=
  Keeps s s' ∧ Pages s' ∧
    match r with
    | none => s'.fs = .user
    | some c' => s'.fs = stringSeg fromKmem ∧ ∃ xs, xs.length = n ∧ Strings s.user t xs ∧
        c'.p + (flat xs).length = c.p ∧ Filled s c'.p (flat xs) s'

/-- **The loop over the strings**, from the last one. -/
theorem copyLoop_ends {fromKmem : Nat} {t : Table} (n : Nat) (ht : TableOk n fromKmem t) {s : State} {c : Cursor}
    (hp : Pages s) (hc : CursorOk s c) (htop : c.p ≤ TOP) (hfs : s.fs = stringSeg fromKmem) :
    Ends (copyLoop w fromKmem .user t n c) s Off.Fatal (CopiedAll s fromKmem n t c) := by
  induction n generalizing s c with
  | zero => exact .pure ⟨.refl s, hp, hfs, [], rfl, nofun, rfl, .refl s c.p⟩
  | succ n ih =>
      rw [copyLoop]
      unfold Ends
      rw [bind_ok (setFsIf_run (s := s) (fromKmem == 1) .kernel)]
      refine (Ends.then_ (lastPtr_ends ht hfs) fun tmp s₁ ⟨hback, hentry, hseg⟩ => ?_ : Ends _ _ _ _)
      by_cases hnull : tmp = .user 0
      · rw [if_pos hnull]
        exact .halt (.inr rfl)
      · rw [if_neg hnull]
        unfold Ends
        rw [bind_ok (setFsIf_run (s := s₁) (fromKmem == 1) .user), hback]
        refine (Ends.then_ (strLen_ends (hseg.trans hfs.symm)) fun len s₂ ⟨hs, x, hx, hstring⟩ => ?_ : Ends _ _ _ _)
        subst hs hx
        by_cases hroom : c.p < x.length + 1
        · -- There is no room.
          rw [if_pos hroom]
          apply Ends.bind
          apply Ends.modify
          exact .pure ⟨⟨rfl, rfl, rfl, rfl, rfl, rfl, rfl, rfl, rfl, rfl⟩, ⟨hp.held, hp.nodup, hp.inj, hp.bound⟩, rfl⟩
        · rw [if_neg hroom]
          have hlen : ∀ l, tmp = .kernel l → x.length + 1 ≤ l.length + 1 := fun l hl => by
            by_contra hlong
            have hlt : l.length < x.length := by omega
            obtain ⟨hb, hne⟩ := hstring.1 l.length x[l.length] (List.getElem?_eq_getElem hlt)
            refine hne (hb.symm.trans ?_)
            rw [hl]
            simp [Ptr.byte]
          refine .then_ (copyBytes_ends hseg (x.length + 1) hlen hp hc (Nat.not_lt.1 hroom) htop hfs)
            fun copied s₃ ⟨hkeep, hp₃, hr⟩ => ?_
          cases copied with
          | none => exact .pure ⟨hkeep, hp₃, hr⟩
          | some c₃ =>
              obtain ⟨hfs₃, hc₃, hplace₃, hfill₃⟩ := hr
              rw [hstring.bytes] at hplace₃ hfill₃
              refine (ih ht.pred hp₃ hc₃ (by omega) hfs₃).mono fun r s' ⟨hkeep', hp', hr⟩ =>
                ⟨hkeep.trans hkeep', hp', ?_⟩
              cases r with
              | none => exact hr
              | some c' =>
                  obtain ⟨hfs', xs, hxs, hstrings, hplace', hfill'⟩ := hr
                  rw [hkeep.user] at hstrings
                  have hflat : flat (xs ++ [x]) = flat xs ++ (x ++ [0]) := by
                    rw [flat_append, flat_cons]
                    simp [flat]
                  refine ⟨hfs', xs ++ [x], by simp [hxs], hstrings.snoc hxs hentry hnull hstring, ?_, ?_⟩
                  · rw [hflat, List.length_append]
                    omega
                  · rw [hflat]
                    exact hfill₃.trans hfill' hplace'

/-- How `copy_strings` ends. -/
structure Strung (s : State) (n : Nat) (t : Table) (p p' : Nat) (s' : State) : Prop where
  keeps : Keeps s s'
  fs : s'.fs = .user
  pages : Pages s'
  filled : p' ≠ 0 → ∃ xs, xs.length = n ∧ Strings s.user t xs ∧ p' + (flat xs).length = p ∧ Filled s p' (flat xs) s'

/-- **`copy_strings`** puts all strings below `p`, or returns 0. -/
theorem copyStrings_ends {fromKmem p : Nat} {t : Table} {argc : Int} (ht : TableOk argc.toNat fromKmem t) (hp : Pages s)
    (htop : p ≤ TOP) (hfs : s.fs = .user) :
    Ends (copyStrings w argc t p fromKmem) s Off.Fatal (Strung s argc.toNat t p) := by
  unfold copyStrings
  by_cases hzero : p = 0
  · rw [if_pos hzero]
    exact .pure ⟨.refl s, hfs, hp, fun hno => absurd rfl hno⟩
  · rw [if_neg hzero]
    apply Ends.bind
    apply Ends.reads
    rw [hfs]
    unfold Ends
    rw [bind_ok (setFsIf_run (s := s) (fromKmem == 2) .kernel)]
    -- `fs` is where the strings are.
    obtain ⟨s₁, hs₁⟩ : ∃ s₁, s₁ = if fromKmem == 2 then { s with fs := .kernel } else s := ⟨_, rfl⟩
    rw [← hs₁]
    have hin : s₁.fs = stringSeg fromKmem ∧ Keeps s s₁ ∧ s₁.page = s.page ∧ s₁.frame = s.frame ∧ Pages s₁ := by
      rw [hs₁]
      unfold stringSeg
      by_cases hk : fromKmem = 2
      · rw [if_pos (beq_iff_eq.2 hk), if_pos hk]
        exact ⟨rfl, ⟨rfl, rfl, rfl, rfl, rfl, rfl, rfl, rfl, rfl, rfl⟩, rfl, rfl, ⟨hp.held, hp.nodup, hp.inj, hp.bound⟩⟩
      · rw [if_neg (mt beq_iff_eq.1 hk), if_neg hk]
        exact ⟨hfs, .refl s, rfl, rfl, hp⟩
    obtain ⟨hfs₁, hkeep₁, hpage₁, hframe₁, hp₁⟩ := hin
    have hcursor : CursorOk s₁ ⟨p, 0, 0⟩ := ⟨Int.le_refl 0, fun h => absurd h (Int.lt_irrefl 0)⟩
    refine (Ends.then_ (copyLoop_ends (w := w) argc.toNat ht hp₁ hcursor htop hfs₁)
      fun copied s₂ ⟨hkeep, hp₂, hr⟩ => ?_ : Ends _ _ _ _)
    have hall := hkeep₁.trans hkeep
    cases copied with
    | none => exact .pure ⟨hall, hr, hp₂, fun hno => absurd rfl hno⟩
    | some c =>
        obtain ⟨hfs₂, xs, hxs, hstrings, hplace, hfill⟩ := hr
        dsimp only
        unfold Ends
        rw [bind_ok (setFsIf_run (s := s₂) (fromKmem == 2) .user)]
        rw [hkeep₁.user] at hstrings
        have hfill' : Filled s c.p (flat xs) s₂ := by
          refine ⟨fun i hi => ?_, hfill.there, fun a ha hpres => ?_⟩
          · rw [hfill.page i (hpage₁ ▸ hi), hpage₁]
          · have hsame : area s₁ a = area s a := by
              unfold area
              rw [hpage₁, hframe₁]
            have hpres₁ : Present s₁ a := by
              unfold Present
              rw [hpage₁]
              exact hpres
            rw [hfill.above a ha hpres₁, hsame]
        unfold stringSeg at hfs₂
        by_cases hk : fromKmem = 2
        · rw [if_pos (beq_iff_eq.2 hk)]
          exact ⟨⟨hall.user, hall.limit, hall.lookups, hall.reads, hall.inodes, hall.buffers, hall.current, hall.eip,
            hall.cs, hall.esp⟩, rfl, ⟨hp₂.held, hp₂.nodup, hp₂.inj, hp₂.bound⟩,
            fun _ => ⟨xs, hxs, hstrings, hplace, ⟨hfill'.page, hfill'.there, hfill'.above⟩⟩⟩
        · rw [if_neg (mt beq_iff_eq.1 hk)]
          rw [if_neg hk] at hfs₂
          exact ⟨hall, hfs₂, hp₂, fun _ => ⟨xs, hxs, hstrings, hplace, hfill'⟩⟩

end

end Exec
end Fs
end Linux095
