import Linux095.Fs.ExecStrings
import Linux095.Bytes.Record

/-!
# `Fs.ExecTables` — the stack of the new program

The pages with the strings become the top of the new memory. `create_tables` goes through the strings and puts down
where each of them begins.

* `Image` — **what a program finds on its stack**: `argc`, `argv` and `envp`;
* `createTables_ends`, `commit_ends` — it finds the first `argc` strings, and then `envc` more.
-/

namespace Linux095
namespace Fs
namespace Exec
open Seq Prog

/-- At `a` there is a table of pointers to the strings `l`, and a NULL behind them. -/
structure Vector (m : Nat → Byte) (a : Nat) (l : List (List Byte)) : Prop where
  strings : Strings m (.user a) l
  null : long m (a + 4 * l.length) = 0

/-- **What a program finds on its stack.** -/
structure Image (m : Nat → Byte) (sp : Nat) (args env : List (List Byte)) : Prop where
  argc : long m sp = args.length
  argv : Vector m (long m (sp + 4)) args
  envp : Vector m (long m (sp + 8)) env

/-- The strings `xs` are at `p`, one behind the other. -/
structure Laid (m : Nat → Byte) (p : Nat) (xs : List (List Byte)) : Prop where
  bytes : ∀ (k : Nat) (b : Byte), (flat xs)[k]? = some b → m (p + k) = b
  nonzero : ∀ x ∈ xs, ∀ b ∈ x, b ≠ 0

section

variable {m m' : Nat → Byte} {p a v : Nat} {x : List Byte} {xs ys : List (List Byte)} {s : State} {w : World}

/-! ## Longs -/

theorem long_eq_get (m : Nat → Byte) (a : Nat) : long m a = Bytes.get 4 a m := by
  unfold long
  simp only [Bytes.get, Nat.add_assoc, Nat.reduceAdd]
  omega

theorem putLong_eq_put (v a : Nat) (m : Nat → Byte) : putLong v a m = Bytes.put 4 v a m := by
  funext x
  unfold putLong Bytes.put
  rw [Nat.pow_mul]

theorem long_putLong (h : v < 2 ^ 32) : long (putLong v a m) a = v := by
  rw [long_eq_get, putLong_eq_put, Bytes.get_put]
  exact Nat.mod_eq_of_lt h

theorem putLong_other (h : p < a ∨ a + 4 ≤ p) : putLong v a m p = m p := by
  rw [putLong_eq_put]
  exact Bytes.put_other h

theorem long_congr (h : ∀ i < 4, m' (a + i) = m (a + i)) : long m' a = long m a := by
  rw [long_eq_get, long_eq_get]
  exact Bytes.get_congr h

theorem putFsLong_ends (hfs : s.fs = .user) :
    Ends (putFsLong v a) s Off.Fatal fun _ s' => s' = { s with user := putLong v a s.user } := by
  unfold Ends putFsLong
  rw [if_pos hfs]
  by_cases hlt : a + 3 < s.limit
  · rw [if_pos hlt]
  · rw [if_neg hlt]
    exact .inl rfl

/-! ## Strings in memory -/

theorem Laid.congr (h : Laid m p xs) (hm : ∀ q, p ≤ q → m' q = m q) : Laid m' p xs :=
  ⟨fun k b hb => (hm _ (Nat.le_add_right p k)).trans (h.bytes k b hb), h.nonzero⟩

/-- The first string is at `p`. -/
theorem Laid.head (h : Laid m p (x :: xs)) : StringAt m (.user p) x := by
  have hbytes := h.bytes
  rw [flat_cons] at hbytes
  refine ⟨fun k b hb => ?_, hbytes x.length 0 ?_⟩
  · have hk : k < x.length := (List.getElem?_eq_some_iff.1 hb).1
    refine ⟨hbytes k b ?_, h.nonzero x List.mem_cons_self b (List.mem_of_getElem? hb)⟩
    rw [List.append_assoc, List.getElem?_append_left hk]
    exact hb
  · rw [List.append_assoc, List.getElem?_append_right (Nat.le_refl _), Nat.sub_self]
    rfl

theorem Laid.tail (h : Laid m p (x :: xs)) : Laid m (p + (x.length + 1)) xs := by
  refine ⟨fun k b hb => ?_, fun y hy => h.nonzero y (List.mem_cons_of_mem x hy)⟩
  have hbyte := h.bytes (x.length + 1 + k) b
  rw [flat_cons, List.getElem?_append_right (by simp), List.length_append, List.length_singleton,
    Nat.add_sub_cancel_left] at hbyte
  rw [Nat.add_assoc]
  exact hbyte hb

/-- Any of the strings. -/
theorem Laid.get (h : Laid m p xs) {i : Nat} (hi : xs[i]? = some x) :
    StringAt m (.user (p + (flat (xs.take i)).length)) x := by
  induction xs generalizing p i with
  | nil => cases hi
  | cons y ys ih =>
      cases i with
      | zero =>
          cases hi
          exact h.head
      | succ i =>
          have hrest := ih h.tail hi
          rw [List.take_succ_cons, flat_cons, List.length_append, List.length_append, List.length_singleton,
            ← Nat.add_assoc]
          exact hrest

/-- A string takes a byte at least. -/
theorem length_le_flat (xs : List (List Byte)) : xs.length ≤ (flat xs).length := by
  induction xs with
  | nil => exact Nat.le_refl 0
  | cons x xs ih =>
      rw [flat_cons, List.length_append, List.length_append, List.length_cons, List.length_singleton]
      omega

theorem flat_take_le (xs : List (List Byte)) (i : Nat) : (flat (xs.take i)).length ≤ (flat xs).length := by
  have hsplit := congrArg (fun l => (flat l).length) (List.take_append_drop i xs)
  simp only [flat_append, List.length_append] at hsplit
  omega

/-! ## `create_tables` -/

/-- **A loop of `create_tables`**: where each string begins comes into the table. -/
theorem tableLoop_ends (n : Nat) (hfs : s.fs = .user) (hlaid : Laid s.user p xs) (hn : n ≤ xs.length)
    (hbelow : a + 4 * n ≤ p) (htop : p + (flat xs).length < 2 ^ 32) :
    Ends (tableLoop n p a) s Off.Fatal fun r s' => r = (p + (flat (xs.take n)).length, a + 4 * n) ∧
      ∃ m', s' = { s with user := m' } ∧ (∀ q, q < a ∨ a + 4 * n ≤ q → m' q = s.user q) ∧
        ∀ i < n, long m' (a + 4 * i) = p + (flat (xs.take i)).length := by
  induction n generalizing s p a xs with
  | zero => exact .pure ⟨rfl, s.user, rfl, fun _ _ => rfl, nofun⟩
  | succ n ih =>
      cases xs with
      | nil => exact absurd hn (Nat.not_succ_le_zero n)
      | cons x xs =>
          rw [tableLoop]
          refine .then_ (putFsLong_ends hfs) fun _ s₁ hs₁ => ?_
          subst hs₁
          -- The strings are behind the table.
          have hlaid₁ : Laid (putLong p a s.user) p (x :: xs) :=
            hlaid.congr fun q hq => putLong_other (.inr (by omega))
          have hseg : (Ptr.user p).seg = ({ s with user := putLong p a s.user } : State).fs := hfs.symm
          refine .then_ (strLen_ends hseg) fun len s₂ ⟨hs₂, y, hlen, hy⟩ => ?_
          subst hs₂ hlen
          rw [hy.unique hlaid₁.head]
          have hflat : (flat (x :: xs)).length = x.length + 1 + (flat xs).length := by
            rw [flat_cons, List.length_append, List.length_append, List.length_singleton]
          have hrest := ih (s := { s with user := putLong p a s.user }) (p := p + (x.length + 1)) (a := a + 4)
            hfs hlaid₁.tail (Nat.le_of_succ_le_succ hn) (by omega) (by omega)
          refine hrest.mono fun r s' ⟨hr, m', hs', hsame, hptr⟩ => ⟨?_, m', hs', fun q hq => ?_, fun i hi => ?_⟩
          · rw [hr, List.take_succ_cons, flat_cons, List.length_append, List.length_append, List.length_singleton]
            refine Prod.ext ?_ ?_ <;> dsimp only <;> omega
          · rw [hsame q (by omega)]
            exact putLong_other (by omega)
          · cases i with
            | zero =>
                -- What is written later is elsewhere.
                have hkept : long m' a = long (putLong p a s.user) a :=
                  long_congr fun i hi => hsame _ (.inl (by omega))
                rw [Nat.mul_zero, Nat.add_zero, hkept, long_putLong (by omega)]
                rfl
            | succ i =>
                have hlong := hptr i (Nat.lt_of_succ_lt_succ hi)
                rw [List.take_succ_cons, flat_cons, List.length_append, List.length_append, List.length_singleton,
                  ← Nat.add_assoc, ← hlong]
                congr 1
                omega

/-- The strings behind the first `n`. -/
theorem Laid.drop (h : Laid m p xs) (n : Nat) : Laid m (p + (flat (xs.take n)).length) (xs.drop n) := by
  refine ⟨fun k b hb => ?_, fun x hx => h.nonzero x (List.mem_of_mem_drop hx)⟩
  rw [Nat.add_assoc]
  apply h.bytes
  have hsplit : flat xs = flat (xs.take n) ++ flat (xs.drop n) := by rw [← flat_append, List.take_append_drop]
  rw [hsplit, List.getElem?_append_right (Nat.le_add_right _ _), Nat.add_sub_cancel_left]
  exact hb

/-- A table that has been filled. -/
theorem Laid.vector (h : Laid m p xs) (hpos : 0 < p) {n : Nat} (hn : n ≤ xs.length)
    (hptr : ∀ i < n, long m (a + 4 * i) = p + (flat (xs.take i)).length) (hnull : long m (a + 4 * n) = 0) :
    Vector m a (xs.take n) := by
  refine ⟨fun i x hx => ?_, ?_⟩
  · rw [List.getElem?_take] at hx
    split at hx
    · next hi =>
        refine ⟨.user (long m (a + 4 * i)), rfl, ?_, ?_⟩
        · rw [hptr i hi]
          intro hno
          injection hno with hno
          omega
        · rw [hptr i hi]
          exact h.get hx
    · cases hx
  · rw [List.length_take, Nat.min_eq_left hn]
    exact hnull

/-- **`create_tables`**: the first `argc` strings are the arguments, and the next `envc` the environment. -/
theorem createTables_ends {argc envc : Nat} (hfs : s.fs = .user) (hlaid : Laid s.user p xs)
    (hn : argc + envc ≤ xs.length)
    (hroom : 4 * (xs.length + 6) ≤ p) (htop : p + (flat xs).length < 2 ^ 32) :
    Ends (createTables p argc envc) s Off.Fatal fun sp s' =>
      (∃ m', s' = { s with user := m' }) ∧ Image s'.user sp (xs.take argc) ((xs.drop argc).take envc) := by
  have hlen := length_le_flat xs
  unfold createTables
  dsimp only
  -- `envp` and `argv`
  obtain ⟨e, he⟩ : ∃ e, e = p - p % 4 - 4 * (envc + 1) := ⟨_, rfl⟩
  obtain ⟨a, ha⟩ : ∃ a, a = e - 4 * (argc + 1) := ⟨_, rfl⟩
  rw [← he, ← ha]
  have hea : e = a + 4 * argc + 4 := by omega
  have hep : e + 4 * envc + 4 ≤ p := by omega
  have hlow : 12 ≤ a := by omega
  obtain ⟨m₀, hm₀⟩ : ∃ m₀, m₀ = s.user := ⟨_, rfl⟩
  rw [← hm₀] at hlaid
  refine .then_ (putFsLong_ends hfs) fun _ s₁ hs₁ => ?_
  subst hs₁
  refine .then_ (putFsLong_ends hfs) fun _ s₂ hs₂ => ?_
  subst hs₂
  refine .then_ (putFsLong_ends hfs) fun _ s₃ hs₃ => ?_
  subst hs₃
  dsimp only
  rw [← hm₀]
  obtain ⟨m₃, hm₃⟩ : ∃ m₃, m₃ = putLong argc (a - 12) (putLong a (a - 8) (putLong e (a - 4) m₀)) := ⟨_, rfl⟩
  rw [← hm₃]
  have hlong₃ : long m₃ (a - 12) = argc ∧ long m₃ (a - 8) = a ∧ long m₃ (a - 4) = e := by
    refine ⟨?_, ?_, ?_⟩
    · rw [hm₃, long_putLong (by omega)]
    · have hkept : long m₃ (a - 8) = long (putLong a (a - 8) (putLong e (a - 4) m₀)) (a - 8) :=
        long_congr fun i hi => by rw [hm₃, putLong_other (by omega)]
      rw [hkept, long_putLong (by omega)]
    · have hkept : long m₃ (a - 4) = long (putLong e (a - 4) m₀) (a - 4) :=
        long_congr fun i hi => by rw [hm₃, putLong_other (by omega), putLong_other (by omega)]
      rw [hkept, long_putLong (by omega)]
  have habove₃ : ∀ q, a ≤ q → m₃ q = m₀ q := fun q hq => by
    rw [hm₃, putLong_other (by omega), putLong_other (by omega), putLong_other (by omega)]
  have hlaid₃ : Laid m₃ p xs := hlaid.congr fun q hq => habove₃ q (by omega)
  refine .then_ (tableLoop_ends (s := { s with user := m₃ }) argc hfs hlaid₃ (by omega) (by omega) htop)
    fun r s₄ ⟨hr, m₄, hs₄, hsame₄, hptr₄⟩ => ?_
  subst hr hs₄
  dsimp only at hsame₄ ⊢
  refine .then_ (putFsLong_ends hfs) fun _ s₅ hs₅ => ?_
  subst hs₅
  dsimp only
  obtain ⟨m₅, hm₅⟩ : ∃ m₅, m₅ = putLong 0 (a + 4 * argc) m₄ := ⟨_, rfl⟩
  rw [← hm₅]
  have hsame₅ : ∀ q, q < a ∨ e ≤ q → m₅ q = m₃ q := fun q hq => by
    rw [hm₅, putLong_other (by omega), hsame₄ q (by omega)]
  have htake := flat_take_le xs argc
  have hlaid₅ : Laid m₅ (p + (flat (xs.take argc)).length) (xs.drop argc) :=
    (hlaid₃.congr fun q hq => hsame₅ q (.inr (by omega))).drop argc
  have hsplit : (flat (xs.take argc)).length + (flat (xs.drop argc)).length = (flat xs).length := by
    rw [← List.length_append, ← flat_append, List.take_append_drop]
  have hdrop : envc ≤ (xs.drop argc).length := by
    rw [List.length_drop]
    omega
  refine .then_ (tableLoop_ends (s := { s with user := m₅ }) envc hfs hlaid₅ hdrop (by omega) (by omega))
    fun r s₆ ⟨hr, m₆, hs₆, hsame₆, hptr₆⟩ => ?_
  subst hr hs₆
  dsimp only at hsame₆ ⊢
  refine .then_ (putFsLong_ends hfs) fun _ s₇ hs₇ => ?_
  subst hs₇
  dsimp only
  obtain ⟨m₇, hm₇⟩ : ∃ m₇, m₇ = putLong 0 (e + 4 * envc) m₆ := ⟨_, rfl⟩
  rw [← hm₇]
  refine .pure ⟨⟨m₇, rfl⟩, ?_⟩
  dsimp only
  -- What has been written stays.
  have hsame₇ : ∀ q, q < e ∨ p ≤ q → m₇ q = m₅ q := fun q hq => by
    rw [hm₇, putLong_other (by omega), hsame₆ q (by omega)]
  have hlow₇ : ∀ b, b + 4 ≤ a → long m₇ b = long m₃ b := fun b hb =>
    long_congr fun i hi => by rw [hsame₇ _ (by omega), hsame₅ _ (by omega)]
  have hlaid₇ : Laid m₇ p xs := hlaid₃.congr fun q hq => by rw [hsame₇ q (.inr hq), hsame₅ q (by omega)]
  have hargc : (xs.take argc).length = argc := by
    rw [List.length_take]
    omega
  have hargv := hlow₇ (a - 8) (by omega)
  have henvp := hlow₇ (a - 4) (by omega)
  rw [hlong₃.2.1] at hargv
  rw [hlong₃.2.2] at henvp
  have h8 : a - 12 + 4 = a - 8 := by omega
  have h4 : a - 12 + 8 = a - 4 := by omega
  refine ⟨?_, ?_, ?_⟩
  · rw [hargc, hlow₇ _ (by omega), hlong₃.1]
  · rw [h8, hargv]
    apply hlaid₇.vector (by omega) (by omega)
    · intro i hi
      rw [← hptr₄ i hi]
      exact long_congr fun j hj => by rw [hsame₇ _ (by omega), hm₅, putLong_other (by omega)]
    · have hkept : long m₇ (a + 4 * argc) = long m₅ (a + 4 * argc) := long_congr fun j hj => hsame₇ _ (by omega)
      rw [hkept, hm₅, long_putLong (by decide)]
  · rw [h4, henvp]
    apply (hlaid₇.drop argc).vector (by omega) hdrop
    · intro i hi
      rw [← hptr₆ i hi]
      exact long_congr fun j hj => by rw [hm₇, putLong_other (by omega)]
    · rw [hm₇, long_putLong (by decide)]

/-! ## The new memory -/

/-- **`change_ldt`** puts the pages below `d`, the last one first. -/
theorem changeLdtLoop_ends (n : Nat) {d : Nat} (hd : n * PAGE_SIZE ≤ d) :
    Ends (changeLdtLoop n d) s Off.Fatal fun _ s' => ∃ m' l, s' = { s with user := m', frames := l } ∧
      (∀ q, d ≤ q → m' q = s.user q) ∧
      ∀ i < n, s.page i ≠ 0 → ∀ k < PAGE_SIZE, m' (d - (n - i) * PAGE_SIZE + k) = s.frame (s.page i) k := by
  induction n generalizing s d with
  | zero => exact .pure ⟨s.user, s.frames, rfl, fun _ _ => rfl, nofun⟩
  | succ n ih =>
      have hlow : n * PAGE_SIZE ≤ d - PAGE_SIZE ∧ d - PAGE_SIZE + PAGE_SIZE = d := by
        unfold PAGE_SIZE at *
        omega
      rw [changeLdtLoop]
      apply Ends.bind
      apply Ends.reads
      -- Where the other pages come to be.
      have hplace : ∀ i < n, d - PAGE_SIZE - (n - i) * PAGE_SIZE = d - (n + 1 - i) * PAGE_SIZE := fun i hi => by
        unfold PAGE_SIZE at *
        omega
      have hlast : d - (n + 1 - n) * PAGE_SIZE = d - PAGE_SIZE := by
        rw [Nat.add_sub_cancel_left, Nat.one_mul]
      by_cases hpage : s.page n = 0
      · rw [if_neg (not_not.2 hpage)]
        refine (ih hlow.1).mono fun _ s' ⟨m', l, hs', hsame, hput⟩ => ⟨m', l, hs', fun q hq => hsame q (by omega),
          fun i hi hne k hk => ?_⟩
        rcases Nat.lt_succ_iff_lt_or_eq.1 hi with hi | rfl
        · rw [← hplace i hi]
          exact hput i hi hne k hk
        · exact absurd hpage hne
      · rw [if_pos hpage]
        apply Ends.bind
        apply Ends.modify
        refine (ih hlow.1).mono fun _ s' ⟨m', l, hs', hsame, hput⟩ =>
          ⟨m', l, hs', fun q hq => ?_, fun i hi hne k hk => ?_⟩
        · rw [hsame q (by omega)]
          dsimp only
          rw [if_neg (by omega)]
        · rcases Nat.lt_succ_iff_lt_or_eq.1 hi with hi | rfl
          · rw [← hplace i hi]
            exact hput i hi hne k hk
          · rw [hlast, hsame _ (Nat.le_add_right _ _)]
            dsimp only
            rw [if_pos (by omega), Nat.add_sub_cancel_left]

/-- Where the pages come to be. -/
def BASE : Nat := TASK_SIZE - (LIBRARY_SIZE + MAX_ARG_PAGES * PAGE_SIZE)

/-- **The point of no return**: the new program finds the first `argc` strings, and then `envc` more. -/
theorem commit_ends {x : Inode} {h : Header} {argc envc : Int} (hpos : 0 < p) (hplace : p + (flat xs).length + 4 = TOP)
    (hthere : ∀ k b, (flat xs)[k]? = some b → Present s (p + k) ∧ area s (p + k) = b)
    (hnonzero : ∀ y ∈ xs, ∀ b ∈ y, b ≠ 0) (hn : argc.toNat + envc.toNat ≤ xs.length) :
    Ends (commit w x h p argc envc) s Off.Fatal fun r s' => r = 0 ∧
      Image s'.user s'.esp (xs.take argc.toNat) ((xs.drop argc.toNat).take envc.toNat) := by
  have hlen := length_le_flat xs
  have htop : TOP = 131072 := rfl
  have hbase : BASE = 62783488 := rfl
  unfold commit changeLdt
  apply Ends.bind
  apply Ends.modify
  apply Ends.bind
  apply Ends.bind
  apply Ends.modify
  refine .then_ (changeLdtLoop_ends MAX_ARG_PAGES (by decide)) fun _ s₁ ⟨m₁, l, hs₁, _, hput⟩ => ?_
  subst hs₁
  apply Ends.pure
  have haddr : p + TASK_SIZE - (LIBRARY_SIZE + MAX_ARG_PAGES * PAGE_SIZE) = BASE + p := by
    unfold BASE TASK_SIZE LIBRARY_SIZE MAX_ARG_PAGES PAGE_SIZE
    omega
  dsimp only at hput ⊢
  rw [haddr]
  have hlaid : Laid m₁ (BASE + p) xs := by
    refine ⟨fun k b hb => ?_, hnonzero⟩
    have hk : k < (flat xs).length := (List.getElem?_eq_some_iff.1 hb).1
    obtain ⟨hpres, harea⟩ := hthere k b hb
    -- The byte is in one of the pages.
    have hindex : (p + k) / PAGE_SIZE < MAX_ARG_PAGES := by
      unfold PAGE_SIZE MAX_ARG_PAGES
      omega
    have hbyte := hput _ hindex hpres ((p + k) % PAGE_SIZE) (Nat.mod_lt _ (by decide))
    have hwhere : TASK_SIZE - LIBRARY_SIZE - (MAX_ARG_PAGES - (p + k) / PAGE_SIZE) * PAGE_SIZE + (p + k) % PAGE_SIZE =
        BASE + p + k := by
      unfold BASE TASK_SIZE LIBRARY_SIZE MAX_ARG_PAGES PAGE_SIZE at *
      omega
    rw [hwhere] at hbyte
    exact hbyte.trans harea
  refine .then_ (createTables_ends rfl hlaid hn (by omega) (by omega)) fun sp s₂ ⟨⟨m₂, hs₂⟩, himage⟩ => ?_
  subst hs₂
  apply Ends.bind
  apply Ends.modify
  exact .pure ⟨rfl, himage⟩

end

end Exec
end Fs
end Linux095
