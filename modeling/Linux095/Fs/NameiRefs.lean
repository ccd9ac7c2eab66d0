import Linux095.Fs.Namei
import Mathlib.Data.List.Count
import Mathlib.Data.List.Perm.Basic

/-!
# `Fs.NameiRefs` — the references of path resolution

Path resolution makes references and uses them up, in functions that call each other. `Holds` says which references
a call has; `Custody` says of any such account that the functions below `lookup` keep it, and from there on the
functions are followed once, for all accounts.

* `iput_ends`, `iget_ends` — what becomes of the references, and of the inodes;
* `Custody.namei` — **`_namei` keeps every account**, by induction on the depth of links and along the path;
* `namei_balanced` — `_namei` returns, unless the kernel panics, with every count as it was but for the result.
-/

namespace Linux095
namespace Fs
namespace Namei
open Seq Seq.Prog Minix.DirEntry
open Minix.Truncate (S_IFLNK S_IFDIR)

/-- What there is to an inode beside its references. -/
def Inode.core (x : Inode) : Inode := { x with iCount := 0, iPipe := false }

/-- The calls that stop do so because no inode is free, or because one cannot be read. -/
def Panics (e : Stop) : Prop := e = .noFreeInodes ∨ e = .readInode

/-- The inode can be given back to its file system. -/
def Placed (g : Graph) (x : Inode) : Prop :=
  x.iDev ≠ 0 → ∃ j, x.iSb = some j ∧ inMap (g.superBlock j) x.iIno = true

/-- The entries of the directories are inodes of the file system. -/
def Graph.Sound (g : Graph) : Prop :=
  ∀ dev ino i de j, g.entry dev ino i = some de → de.inode ≠ 0 → getSuper g dev = some j →
    inMap (g.superBlock j) de.inode = true

/-- The references in `l` are those of the call, and those in `f` are everybody else's. `n` is `link_count`. -/
structure Holds (g : Graph) (f : Nat → Nat) (n : Nat) (l : List Nat) (s : State) : Prop where
  count : ∀ x, (s.inode x).iCount = f x + l.count x
  linkCount : s.linkCount = n
  placed : ∀ x, Placed g (s.inode x)
  dev : ∀ x, (s.inode x).iOp = true → (s.inode x).iDev ≠ 0

namespace Holds

variable {g : Graph} {f : Nat → Nat} {n i : Nat} {l l' : List Nat} {s s' : State}

theorem perm (h : Holds g f n l s) (hl : l.Perm l') : Holds g f n l' s :=
  ⟨fun x => by rw [h.count, hl.count_eq], h.linkCount, h.placed, h.dev⟩

theorem pos (h : Holds g f n l s) (hi : i ∈ l) : 0 < (s.inode i).iCount := by
  have := List.count_pos_iff.mpr hi
  have := h.count i
  omega

/-- Another number of references, and inodes that are as they were or are zero. -/
theorem recount (h : Holds g f n l s) (hcount : ∀ x, (s'.inode x).iCount = f x + l'.count x)
    (hlink : s'.linkCount = s.linkCount)
    (hcore : ∀ x, (s'.inode x).core = (s.inode x).core ∨ (s'.inode x).core = .zero) : Holds g f n l' s' := by
  refine ⟨hcount, hlink.trans h.linkCount, fun x => ?_, fun x => ?_⟩
  · show Placed g (s'.inode x).core
    rcases hcore x with hx | hx
    · rw [hx]
      exact h.placed x
    · rw [hx]
      exact fun hne => absurd rfl hne
  · show (s'.inode x).core.iOp = true → (s'.inode x).core.iDev ≠ 0
    rcases hcore x with hx | hx
    · rw [hx]
      exact h.dev x
    · rw [hx]
      exact fun hop => absurd hop Bool.false_ne_true

end Holds

/-! ## Single references -/

namespace State

variable (s : State) (i x : Nat)

theorem inode_setInode (f : Inode → Inode) :
    (s.setInode i f).inode x = if x = i then f (s.inode x) else s.inode x := rfl

@[simp] theorem linkCount_setInode (f : Inode → Inode) : (s.setInode i f).linkCount = s.linkCount := rfl
@[simp] theorem linkCount_dup : (s.dup i).linkCount = s.linkCount := rfl
@[simp] theorem linkCount_drop : (s.drop i).linkCount = s.linkCount := rfl

theorem count_dup : ((s.dup i).inode x).iCount = (s.inode x).iCount + if x = i then 1 else 0 := by
  unfold dup
  rw [inode_setInode]
  split <;> rfl

theorem count_drop : ((s.drop i).inode x).iCount = (s.inode x).iCount - if x = i then 1 else 0 := by
  unfold drop
  rw [inode_setInode]
  split <;> rfl

@[simp] theorem core_dup : ((s.dup i).inode x).core = (s.inode x).core := by
  unfold dup
  rw [inode_setInode]
  split <;> rfl

@[simp] theorem core_drop : ((s.drop i).inode x).core = (s.inode x).core := by
  unfold drop
  rw [inode_setInode]
  split <;> rfl

end State

/-- Of an inode everything is as it was, or nobody had it and it has been freed. -/
def Kept (f : Nat → Nat) (l : List Nat) (x y : Inode) (i : Nat) : Prop :=
  y.core = x.core ∨ y.core = .zero ∧ f i = 0 ∧ i ∉ l

namespace Kept

variable {f : Nat → Nat} {l l' : List Nat} {x y z : Inode} {i : Nat}

theorem mono (h : Kept f l' x y i) (hl : ∀ a ∈ l, a ∈ l') : Kept f l x y i := by
  rcases h with h | ⟨h, hf, hi⟩
  · exact .inl h
  · exact .inr ⟨h, hf, fun hmem => hi (hl i hmem)⟩

theorem trans (h : Kept f l x y i) (h' : Kept f l y z i) : Kept f l x z i := by
  rcases h' with h' | h'
  · rcases h with h | ⟨h, hrest⟩
    · exact .inl (h'.trans h)
    · exact .inr ⟨h'.trans h, hrest⟩
  · exact .inr h'

theorem zero (h : Kept f l x y i) (hx : x.core = .zero) : y.core = .zero := by
  rcases h with h | h
  · exact h.trans hx
  · exact h.1

end Kept

/-- What `iput` does to the inodes. -/
def Put (f : Nat → Nat) (l : List Nat) (s s' : State) : Prop := ∀ x, Kept f l (s.inode x) (s'.inode x) x

section
variable {g : Graph} {f : Nat → Nat} {n i : Nat} {l : List Nat} {s : State}

theorem count_cons_eq (x : Nat) : (i :: l).count x = l.count x + if x = i then 1 else 0 := by
  rw [List.count_cons]
  by_cases hx : x = i
  · subst hx
    simp
  · have hne : ¬ i = x := fun h => hx h.symm
    simp [hx, hne]

theorem Holds.dup (h : Holds g f n l s) (i : Nat) : Holds g f n (i :: l) (s.dup i) := by
  apply h.recount
  · intro x
    rw [State.count_dup, count_cons_eq, h.count x]
    omega
  · rfl
  · exact fun x => .inl (State.core_dup s i x)

theorem Holds.drop (h : Holds g f n (i :: l) s) : Holds g f n l (s.drop i) := by
  apply h.recount
  · intro x
    rw [State.count_drop, h.count x, count_cons_eq]
    omega
  · rfl
  · exact fun x => .inl (State.core_drop s i x)

/-- **`iput` uses up a reference**, and never finds that there is none. -/
theorem iput_ends (h : Holds g f n (i :: l) s) :
    (iput g (some i)).Ends s Panics fun _ s' => Holds g f n l s' ∧ Put f l s s' := by
  have hpos : (s.inode i).iCount ≠ 0 := Nat.ne_of_gt (h.pos List.mem_cons_self)
  have hdrop : Holds g f n l (s.drop i) ∧ Put f l s (s.drop i) := ⟨h.drop, fun x => .inl (State.core_drop s i x)⟩
  unfold iput
  refine .bind (.reads ?_)
  rw [if_neg hpos]
  split
  · refine .bind (.modify ?_)
    split
    · apply Ends.modify
      refine ⟨?_, fun x => .inl ?_⟩
      · apply hdrop.1.recount
        · intro x
          rw [State.inode_setInode, ← hdrop.1.count x]
          split <;> rfl
        · rfl
        · intro x
          rw [State.inode_setInode]
          split <;> exact .inl rfl
      · rw [State.inode_setInode, ← State.core_drop s i x]
        split <;> rfl
    · exact .pure hdrop
  · split
    · exact .modify hdrop
    · rename_i hdev
      split
      · exact .modify hdrop
      · rename_i hone
        split
        · -- the last reference to an inode without links
          obtain ⟨j, hj, hmap⟩ := h.placed i hdev
          unfold freeInode
          rw [hj]
          simp only [hmap, if_true]
          apply Ends.modify
          refine ⟨h.recount ?_ rfl ?_, ?_⟩
          · intro x
            rw [State.inode_setInode]
            have hx := h.count x
            rw [count_cons_eq] at hx
            split
            · rename_i heq
              subst heq
              rw [if_pos rfl] at hx
              show 0 = _
              omega
            · rename_i hne
              rw [if_neg hne] at hx
              exact hx
          · intro x
            rw [State.inode_setInode]
            split
            · exact .inr rfl
            · exact .inl rfl
          · intro x
            rw [State.inode_setInode]
            have hx := h.count x
            rw [count_cons_eq] at hx
            split
            · rename_i heq
              subst heq
              rw [if_pos rfl] at hx
              refine .inr ⟨rfl, by omega, fun hmem => ?_⟩
              have := List.count_pos_iff.mpr hmem
              omega
            · exact .inl rfl
        · exact .modify hdrop

/-! ## `iget` -/

/-- `get_empty_inode` takes an inode that nobody uses. -/
theorem getEmptyInode_ends (h : Holds g f n l s) : (getEmptyInode g).Ends s Panics fun e s' =>
    e < NR_INODE ∧ (s.inode e).iCount = 0 ∧ Holds g f n (e :: l) s' ∧
      s' = s.setInode e fun _ => { Inode.zero with iCount := 1 } := by
  have htake : ∀ e, e < NR_INODE → (s.inode e).iCount = 0 →
      Holds g f n (e :: l) (s.setInode e fun _ => { Inode.zero with iCount := 1 }) := by
    intro e _ hfree
    apply h.recount
    · intro x
      rw [State.inode_setInode, count_cons_eq]
      have hx := h.count x
      split
      · rename_i heq
        subst heq
        show 1 = _
        omega
      · exact hx
    · rfl
    · intro x
      rw [State.inode_setInode]
      split
      · exact .inr rfl
      · exact .inl rfl
  unfold getEmptyInode
  refine .bind (.reads ?_)
  cases hunused : unusedInode g s with
  | none => exact .halt (.inl rfl)
  | some e =>
      have he : e < NR_INODE ∧ (s.inode e).iCount = 0 := by
        unfold unusedInode at hunused
        split at hunused
        · rename_i hlast
          rw [← Option.some.inj hunused]
          exact hlast
        · refine ⟨List.mem_range.mp (List.mem_of_find?_eq_some hunused), ?_⟩
          simpa using List.find?_some hunused
      exact .bind (.modify (.pure ⟨he.1, he.2, htake e he.1 he.2, rfl⟩))

/-- What `iget` does to the inodes. `e` was free, and is again when what is asked for is in core, as `c`; or it holds
what is asked for, which is nowhere else. -/
structure Got (g : Graph) (f : Nat → Nat) (l : List Nat) (dev : Dev) (nr : Ino) (s : State) (r : Option Nat)
    (s' : State) (e : Nat) : Prop where
  lt : e < NR_INODE
  free : (s.inode e).iCount = 0
  others : ∀ x, x ≠ e → Kept f l (s.inode x) (s'.inode x) x
  result : ((s'.inode e).core = .zero ∧ ∀ i, r = some i → ∃ c, c ≠ e ∧ c < NR_INODE ∧ (s.inode c).iDev = dev ∧
      (s.inode c).iIno = nr ∧
        ((i = c ∧ (s'.inode c).core = (s.inode c).core) ∨
          ∃ j, (g.superBlock j).sCovered = some c ∧ (g.superBlock j).sMounted = some i)) ∨
    (r = some e ∧ (∃ raw j, g.rawInode dev nr = some raw ∧ getSuper g dev = some j ∧ (s'.inode e).core =
      ⟨dev, nr, raw.iMode, raw.iUid, raw.iGid, raw.iNlinks, raw.iSize, raw.iZone0, some j, 0, false, false, true⟩) ∧
      ∀ x, x < NR_INODE → x ≠ e → ¬ ((s'.inode x).iDev = dev ∧ (s'.inode x).iIno = nr))

theorem crossMount_ends (h : Holds g f n (i :: l) s) : (crossMount g i).Ends s Panics fun r s' =>
    Holds g f n (r.toList ++ l) s' ∧ Put f l s s' ∧
      ∀ m, r = some m → (m = i ∧ (s'.inode i).core = (s.inode i).core) ∨
        ∃ j, (g.superBlock j).sCovered = some i ∧ (g.superBlock j).sMounted = some m := by
  unfold crossMount
  refine .bind (.reads ?_)
  have hsame : Ends (Pure.pure (some i) : Call (Option Nat)) s Panics fun r s' =>
      Holds g f n (r.toList ++ l) s' ∧ Put f l s s' ∧
        ∀ m, r = some m → (m = i ∧ (s'.inode i).core = (s.inode i).core) ∨
          ∃ j, (g.superBlock j).sCovered = some i ∧ (g.superBlock j).sMounted = some m :=
    .pure ⟨h, fun x => .inl rfl, fun m hm => .inl ⟨(Option.some.inj hm).symm, rfl⟩⟩
  split
  · split
    · exact hsame
    · rename_i j hj
      have hcovered : (g.superBlock j).sCovered = some i := by simpa using List.find?_some hj
      refine .then_ (iput_ends h) fun _ s₁ h₁ => ?_
      obtain ⟨h₁, hput⟩ := h₁
      cases hm : (g.superBlock j).sMounted with
      | none => exact .pure ⟨h₁, hput, fun m hm => absurd hm (by simp)⟩
      | some m =>
          refine .bind (.modify (.pure ⟨h₁.dup m, fun x => ?_, fun m' hm' => ?_⟩))
          · have hx := hput x
            unfold Kept at hx ⊢
            rw [State.core_dup]
            exact hx
          · rw [← Option.some.inj hm']
            exact .inr ⟨j, hcovered, hm⟩
  · exact hsame

/-- **`iget` makes a reference** to what it returns. -/
theorem iget_ends {dev : Dev} {nr : Ino} (h : Holds g f n l s) (hdev : dev ≠ 0)
    (hmap : ∀ j, getSuper g dev = some j → inMap (g.superBlock j) nr = true) :
    (iget g dev nr).Ends s Panics fun r s' => Holds g f n (r.toList ++ l) s' ∧ ∃ e, Got g f l dev nr s r s' e := by
  unfold iget
  rw [if_neg hdev]
  refine .then_ (getEmptyInode_ends h) fun e s₁ hempty => ?_
  obtain ⟨hlt, hfree, h₁, hs₁⟩ := hempty
  have hother : ∀ x, x ≠ e → s₁.inode x = s.inode x := by
    intro x hx
    rw [hs₁, State.inode_setInode, if_neg hx]
  have hself : s₁.inode e = { Inode.zero with iCount := 1 } := by
    rw [hs₁, State.inode_setInode, if_pos rfl]
  refine .bind (.reads ?_)
  cases hfind : findInode s₁ dev nr with
  | some c =>
      have hc : (s₁.inode c).iDev = dev ∧ (s₁.inode c).iIno = nr := by
        simpa using List.find?_some hfind
      have hce : c ≠ e := by
        rintro rfl
        rw [hself] at hc
        exact hdev hc.1.symm
      have hclt : c < NR_INODE := List.mem_range.mp (List.mem_of_find?_eq_some hfind)
      rw [hother c hce] at hc
      refine .bind (.modify ?_)
      refine .then_ (crossMount_ends (h₁.dup c)) fun r s₂ h₂ => ?_
      obtain ⟨h₂, hput₂, hr⟩ := h₂
      -- the inode that is not needed goes back
      refine .then_ (iput_ends (h₂.perm List.perm_middle)) fun _ s₃ h₃ => .pure ?_
      obtain ⟨h₃, hput₃⟩ := h₃
      refine ⟨h₃, e, hlt, hfree, fun x hx => ?_, .inl ⟨?_, fun i hi => ?_⟩⟩
      · have hx₁ : Kept f l (s.inode x) ((s₁.dup c).inode x) x := by
          rw [← hother x hx]
          exact .inl (State.core_dup s₁ c x)
        have hx₂ : Kept f l _ _ x := (hput₂ x).mono fun a ha => List.mem_cons_of_mem _ ha
        exact (hx₁.trans hx₂).trans ((hput₃ x).mono fun a ha => List.mem_append_right _ ha)
      · have hzero : ((s₁.dup c).inode e).core = .zero := by
          rw [State.core_dup, hself]
          rfl
        exact (hput₃ e).zero ((hput₂ e).zero hzero)
      · refine ⟨c, hce, hclt, hc.1, hc.2, ?_⟩
        rcases hr i hi with ⟨rfl, hcore⟩ | hmount
        · refine .inl ⟨rfl, ?_⟩
          rcases hput₃ i with hi₃ | ⟨-, -, hmem⟩
          · rw [hi₃, hcore, State.core_dup, hother i hce]
          · exact absurd (List.mem_append_left _ (by simp [hi])) hmem
        · exact .inr hmount
  | none =>
      cases hsuper : getSuper g dev with
      | none =>
          refine .then_ (iput_ends h₁) fun _ s₂ h₂ => .pure ?_
          obtain ⟨h₂, hput⟩ := h₂
          refine ⟨h₂, e, hlt, hfree, fun x hx => ?_, .inl ⟨?_, fun i hi => absurd hi (by simp)⟩⟩
          · rw [← hother x hx]
            exact hput x
          · apply (hput e).zero
            rw [hself]
            rfl
      | some j =>
          refine .bind (.modify (.bind ?_))
          unfold readInode
          refine .bind (.reads ?_)
          have hnew : ((s₁.setInode e fun x => { x with iSb := some j, iDev := dev, iIno := nr }).inode e) =
              { Inode.zero with iCount := 1, iSb := some j, iDev := dev, iIno := nr } := by
            rw [State.inode_setInode, if_pos rfl, hself]
          rw [hnew]
          cases hraw : g.rawInode dev nr with
          | none =>
              exact .halt (.inr rfl)
          | some raw =>
              refine .modify (.pure ?_)
              have hfinal : ∀ x, (((s₁.setInode e fun x => { x with iSb := some j, iDev := dev, iIno := nr }).setInode e
                  fun x => { x with iMode := raw.iMode, iUid := raw.iUid, iGid := raw.iGid, iNlink := raw.iNlinks
                                    iSize := raw.iSize, iData0 := raw.iZone0, iOp := true }).inode x) =
                  if x = e then ⟨dev, nr, raw.iMode, raw.iUid, raw.iGid, raw.iNlinks, raw.iSize, raw.iZone0, some j, 1,
                    false, false, true⟩ else s.inode x := by
                intro x
                by_cases hx : x = e
                · rw [if_pos hx, State.inode_setInode, if_pos hx, hx, hnew]
                  rfl
                · rw [if_neg hx, State.inode_setInode, if_neg hx, State.inode_setInode, if_neg hx, hother x hx]
              refine ⟨⟨fun x => ?_, h₁.linkCount, fun x => ?_, fun x => ?_⟩, e, hlt, hfree, fun x hx => ?_,
                .inr ⟨rfl, ⟨raw, j, hraw, hsuper, ?_⟩, fun x hx hne => ?_⟩⟩
              · have hcount := h₁.count x
                rw [hfinal]
                by_cases hx : x = e
                · rw [hx, hself] at hcount
                  rw [if_pos hx, hx]
                  exact hcount
                · rw [hother x hx] at hcount
                  rw [if_neg hx]
                  exact hcount
              · rw [hfinal]
                split
                · exact fun _ => ⟨j, rfl, hmap j hsuper⟩
                · exact h.placed x
              · rw [hfinal]
                split
                · exact fun _ => hdev
                · exact h.dev x
              · rw [hfinal, if_neg hx]
                exact .inl rfl
              · rw [hfinal, if_pos rfl]
                rfl
              · rw [hfinal, if_neg hne, ← hother x hne]
                have hnone := List.find?_eq_none.mp hfind x (List.mem_range.mpr hx)
                simpa using hnone

end

/-! ## An account is kept -/

/-- An account `J` of the references of a call, with `link_count`, that the calls below `lookup` keep. In a directory
that is `A`, `..` may be looked up. -/
structure Custody (g : Graph) (A : Nat → Prop) (J : Nat → List Nat → State → Prop) : Prop where
  perm : ∀ {n l l' s}, J n l s → l.Perm l' → J n l' s
  linkCount : ∀ {n l s}, J n l s → s.linkCount = n
  link : ∀ {n l s} m, J n l s → J m l { s with linkCount := m }
  dup : ∀ {n l s i}, J n l s → i ∈ l ∨ i = g.root ∨ i = g.pwd → J n (i :: l) (s.dup i)
  iput : ∀ {n l s i}, J n (i :: l) s → (iput g (some i)).Ends s Panics fun _ s' => J n l s'
  iget : ∀ {n l s d name de}, J n (d :: l) s → (s.inode d).iOp = true → findEntry g (s.inode d) name = some de →
    0 ∉ name → (isDotdot name = true → A d) →
      (iget g (s.inode d).iDev de.inode).Ends s Panics fun r s' => J n (r.toList ++ d :: l) s'
  above : ∀ {d}, d ≠ g.root → A d
  covered : ∀ {n l s d j c}, J n (d :: l) s → d ≠ g.root → (s.inode d).iSb = some j →
    (g.superBlock j).sMounted = some d → (g.superBlock j).sCovered = some c →
      (Namei.iput g (some d)).Ends s Panics fun _ s' => J n (c :: l) (s'.dup c) ∧ A c

namespace Custody

variable {g : Graph} {A : Nat → Prop} {J : Nat → List Nat → State → Prop} {n : Nat} {l : List Nat} {s : State}

theorem minixLookup (C : Custody g A J) {d : Nat} {name : List Byte} (h : J n (d :: l) s)
    (hop : (s.inode d).iOp = true) (hz : 0 ∉ name) (hname : isDotdot name = true → A d) :
    (minixLookup g d name).Ends s Panics fun r s' => J n (r.toList ++ l) s' := by
  unfold Namei.minixLookup
  refine .bind (.reads ?_)
  split
  · exact .then_ (C.iput h) fun _ _ h' => .pure h'
  · cases hde : findEntry g (s.inode d) name with
    | none => exact .then_ (C.iput h) fun _ _ h' => .pure h'
    | some de =>
        refine .then_ (C.iget h hop hde hz hname) fun r s₁ h₁ => ?_
        exact .then_ (C.iput (C.perm h₁ List.perm_middle)) fun _ _ h' => .pure h'

theorem lookupIn (C : Custody g A J) {d : Nat} {name : List Byte} (h : J n (d :: l) s) (hz : 0 ∉ name)
    (hname : isDotdot name = true → A d) :
    (lookupIn g (some d) name).Ends s Panics fun r s' => J n (r.toList ++ l) s' := by
  unfold Namei.lookupIn
  refine .bind (.reads ?_)
  split
  · exact .then_ (C.iput h) fun _ _ h' => .pure h'
  · split
    · exact .pure h
    · split
      · exact .then_ (C.iput h) fun _ _ h' => .pure h'
      · rename_i hop
        exact C.minixLookup h (Bool.not_eq_false _ ▸ hop) hz hname

/-- **`lookup` uses up the directory.** -/
theorem lookup (C : Custody g A J) {d : Nat} {name : List Byte} (h : J n (d :: l) s) (hz : 0 ∉ name) :
    (lookup g d name).Ends s Panics fun r s' => J n (r.toList ++ l) s' := by
  unfold Namei.lookup
  split
  · rename_i hdotdot
    split
    · -- at the root of the process `..` becomes `.`
      refine C.lookupIn h (fun hmem => hz (List.mem_of_mem_take hmem)) ?_
      intro hdot
      have hlen := congrArg List.length (beq_iff_eq.mp hdot)
      simp only [List.length_take, List.length_cons, List.length_nil] at hlen
      omega
    · rename_i hroot
      refine .bind (.reads ?_)
      cases hj : (s.inode d).iSb with
      | none => exact C.lookupIn h hz fun _ => C.above hroot
      | some j =>
          simp only
          split
          · rename_i hmounted
            cases hc : (g.superBlock j).sCovered with
            | none => exact .then_ (C.iput h) fun _ _ h' => .pure h'
            | some c =>
                refine .then_ (C.covered h hroot hj hmounted hc) fun _ s₁ h₁ => ?_
                exact .bind (.modify (C.lookupIn h₁.1 hz fun _ => h₁.2))
          · exact C.lookupIn h hz fun _ => C.above hroot
  · rename_i hdotdot
    exact C.lookupIn h hz fun hdot => absurd hdot hdotdot

/-! ### Links and paths -/

/-- What is asked of `_namei` where a link is followed. -/
def Follows (J : Nat → List Nat → State → Prop) (rec : List Byte → Nat → Call (Option Nat)) (n : Nat) : Prop :=
  ∀ path dir l s, J n (dir :: l) s → (rec path dir).Ends s Panics fun r s' => J n (r.toList ++ l) s'

section
variable {rec : List Byte → Nat → Call (Option Nat)}

/-- `minix_follow_link` goes on only while there are few links. -/
theorem minixFollowLink (C : Custody g A J) (hrec : n ≤ 5 → Follows J rec (n + 1)) {dir inode : Nat}
    (h : J n (dir :: inode :: l) s) :
    (minixFollowLink g rec dir inode).Ends s Panics fun r s' => J n (r.toList ++ l) s' := by
  unfold Namei.minixFollowLink
  refine .bind (.reads ?_)
  split
  · exact .then_ (C.iput h) fun _ _ h' => .pure h'
  · refine .bind (.reads ?_)
    rw [C.linkCount h]
    cases hbody : (if n > 5 ∨ (s.inode inode).iData0 = 0 then none
        else g.body (s.inode inode).iDev (s.inode inode).iData0) with
    | none => exact .then_ (C.iput h) fun _ _ h₁ => .then_ (C.iput h₁) fun _ _ h₂ => .pure h₂
    | some path =>
        have hn : n ≤ 5 := by
          by_contra hlt
          rw [if_pos (.inl (by omega))] at hbody
          cases hbody
        refine .then_ (C.iput (C.perm h (List.Perm.swap inode dir l))) fun _ s₁ h₁ => .bind (.modify ?_)
        rw [C.linkCount h₁]
        -- the link is followed one level further down
        refine .then_ (hrec hn path dir l _ (C.link (n + 1) h₁)) fun r s₂ h₂ => .bind (.modify (.pure ?_))
        rw [C.linkCount h₂]
        exact C.link n h₂

theorem followLink (C : Custody g A J) (hrec : n ≤ 5 → Follows J rec (n + 1)) {dir inode : Nat}
    (h : J n (dir :: inode :: l) s) :
    (followLink g rec dir inode).Ends s Panics fun r s' => J n (r.toList ++ l) s' := by
  unfold Namei.followLink
  refine .bind (.reads ?_)
  split
  · exact .then_ (C.iput h) fun _ _ h' => .pure h'
  · exact C.minixFollowLink hrec h

/-- **Along the path** one directory is held. -/
theorem walk (C : Custody g A J) (hrec : n ≤ 5 → Follows J rec (n + 1)) {base : Nat} {thisname path : List Byte}
    (h : J n (base :: l) s) (hz : 0 ∉ thisname) :
    (walk g rec base thisname path).Ends s Panics fun r s' =>
      J n ((r.map Prod.fst).toList ++ l) s' ∧ ∀ p, r = some p → 0 ∉ p.2 := by
  have hend : ∀ p : Nat × List Byte, some (base, thisname) = some p → 0 ∉ p.2 := by
    intro p hp
    rw [← Option.some.inj hp]
    exact hz
  induction path generalizing base thisname s with
  | nil => exact .pure ⟨h, hend⟩
  | cons c path ih =>
      unfold Namei.walk
      split
      · exact .pure ⟨h, hend⟩
      · rename_i hc
        split
        · refine .bind (.modify ?_)
          refine .then_ (C.lookup (C.dup h (.inl List.mem_cons_self)) hz) fun r s₁ h₁ => ?_
          cases r with
          | none => exact .then_ (C.iput h₁) fun _ _ h' => .pure ⟨h', by simp⟩
          | some inode =>
              refine .then_ (C.followLink hrec (C.perm h₁ (List.Perm.swap base inode l))) fun r s₂ h₂ => ?_
              cases r with
              | none => exact .pure ⟨h₂, by simp⟩
              | some base => exact ih h₂ List.not_mem_nil (by simp)
        · have hz' : 0 ∉ thisname ++ [c] := by
            simp only [List.mem_append, List.mem_singleton, not_or]
            exact ⟨hz, fun h0 => hc h0.symm⟩
          apply ih h hz'
          intro p hp
          rw [← Option.some.inj hp]
          exact hz'

/-- The references that a base gives to the call. -/
theorem startAt (C : Custody g A J) {base : Option Nat} (h : J n (base.toList ++ l) s) :
    (startAt g base).Ends s Panics fun b s' => J n (b :: l) s' := by
  cases base with
  | none => exact .bind (.modify (.pure (C.dup h (.inr (.inr rfl)))))
  | some b => exact .pure h

theorem dirNamei (C : Custody g A J) (hrec : n ≤ 5 → Follows J rec (n + 1)) {path : List Byte} {base : Option Nat}
    (h : J n (base.toList ++ l) s) :
    (dirNamei g rec path base).Ends s Panics fun r s' =>
      J n ((r.map Prod.fst).toList ++ l) s' ∧ ∀ p, r = some p → 0 ∉ p.2 := by
  unfold Namei.dirNamei
  refine .then_ (C.startAt h) fun b s₁ h₁ => ?_
  split
  · refine .then_ (C.iput h₁) fun _ s₂ h₂ => .bind (.modify ?_)
    exact C.walk hrec (C.dup h₂ (.inr (.inl rfl))) List.not_mem_nil
  · exact C.walk hrec h₁ List.not_mem_nil

theorem nameiBody (C : Custody g A J) (hrec : n ≤ 5 → Follows J rec (n + 1)) {path : List Byte} {base : Option Nat}
    {follow : Bool} (h : J n (base.toList ++ l) s) :
    (nameiBody g rec path base follow).Ends s Panics fun r s' => J n (r.toList ++ l) s' := by
  unfold Namei.nameiBody
  refine .then_ (C.dirNamei hrec h) fun r s₁ h₁ => ?_
  obtain ⟨h₁, hz⟩ := h₁
  cases r with
  | none => exact .pure h₁
  | some p =>
      obtain ⟨b, basename⟩ := p
      refine .bind (.modify ?_)
      refine .then_ (C.lookup (C.dup h₁ (.inl List.mem_cons_self)) (hz _ rfl)) fun r s₂ h₂ => ?_
      cases r with
      | none => exact .then_ (C.iput h₂) fun _ _ h' => .pure h'
      | some inode =>
          have h₂ := C.perm h₂ (List.Perm.swap b inode l)
          cases follow with
          | true => exact C.followLink hrec h₂
          | false => exact .then_ (C.iput h₂) fun _ _ h' => .pure h'

end

/-- **`_namei` keeps every account.** The recursion is never deeper than 7: each level is a link that has been
followed, and `link_count` stops it. -/
theorem namei (C : Custody g A J) {depth : Nat} (hdepth : 1 ≤ depth) (hn : 7 ≤ n + depth) {path : List Byte}
    {base : Option Nat} {follow : Bool} (h : J n (base.toList ++ l) s) :
    (namei g depth path base follow).Ends s Panics fun r s' => J n (r.toList ++ l) s' := by
  induction depth generalizing n path base follow l s with
  | zero => omega
  | succ depth ih =>
      apply C.nameiBody _ h
      intro hle path dir l s h
      have h : J (n + 1) ((some dir).toList ++ l) s := h
      exact ih (by omega) (by omega) h

end Custody

/-! ## The references of `_namei` -/

/-- What `minix_find_entry` finds is an entry that matches. -/
theorem findEntry_some {g : Graph} {x : Inode} {name : List Byte} {de : Slot} (h : findEntry g x name = some de) :
    ∃ i, g.entry x.iDev x.iIno i = some de ∧ minixMatch (name.take MINIX_NAME_LEN) de := by
  unfold findEntry at h
  split at h
  · cases h
  · obtain ⟨i, -, hi⟩ := List.exists_of_findSome?_eq_some h
    obtain ⟨hentry, hmatch⟩ := Option.filter_eq_some_iff.mp hi
    exact ⟨i, hentry, by simpa using hmatch⟩

/-- The references themselves are such an account. -/
theorem Holds.custody {g : Graph} (hg : g.Sound) (f : Nat → Nat) :
    Custody g (fun _ => True) (Holds g f) where
  perm := fun h hl => h.perm hl
  linkCount := fun h => h.linkCount
  link := fun m h => ⟨h.count, rfl, h.placed, h.dev⟩
  dup := fun h _ => h.dup _
  iput := fun h => (iput_ends h).mono fun _ _ h' => h'.1
  iget := by
    intro n l s d name de h hop hde _ _
    obtain ⟨i, hentry, hmatch⟩ := findEntry_some hde
    exact (iget_ends h (h.dev d hop) fun j hj => hg _ _ i de j hentry hmatch.1 hj).mono fun _ _ h' => h'.1
  above := fun _ => trivial
  covered := fun h _ _ _ _ => (iput_ends h).mono fun _ _ h' => ⟨h'.1.dup _, trivial⟩

/-- The inodes in core belong to file systems that are mounted. -/
structure State.Sound (g : Graph) (s : State) : Prop where
  placed : ∀ x, Placed g (s.inode x)
  dev : ∀ x, (s.inode x).iOp = true → (s.inode x).iDev ≠ 0

/-- What the call has been given, and what everybody else has. -/
theorem State.Sound.holds {g : Graph} {s : State} (hs : s.Sound g) {base : Option Nat}
    (hbase : ∀ b, base = some b → 0 < (s.inode b).iCount) :
    Holds g (fun x => (s.inode x).iCount - base.toList.count x) s.linkCount (base.toList ++ []) s := by
  refine ⟨fun x => ?_, rfl, hs.placed, hs.dev⟩
  rw [List.append_nil]
  have hle : base.toList.count x ≤ (s.inode x).iCount := by
    cases base with
    | none => exact Nat.zero_le _
    | some b =>
        have hb := hbase b rfl
        simp only [Option.toList_some, List.count_singleton]
        split
        · rename_i heq
          rw [← beq_iff_eq.mp heq]
          exact hb
        · exact Nat.zero_le _
  omega

/-- **`_namei` returns, unless the kernel panics** for lack of an inode, and then `link_count` and every count are
what they were, but for the base that was used up and for the result. -/
theorem namei_balanced {g : Graph} {s : State} {base : Option Nat} {depth : Nat} (hg : g.Sound) (hs : s.Sound g)
    (hbase : ∀ b, base = some b → 0 < (s.inode b).iCount) (hdepth : 7 ≤ depth) (path : List Byte) (follow : Bool) :
    (namei g depth path base follow).Ends s Panics fun r s' => s'.linkCount = s.linkCount ∧
      ∀ x, (s'.inode x).iCount + base.toList.count x = (s.inode x).iCount + r.toList.count x := by
  have hholds := hs.holds hbase
  refine ((Holds.custody hg _).namei (by omega) (by omega) hholds).mono fun r s' h' => ⟨h'.linkCount, fun x => ?_⟩
  have hx := h'.count x
  have hx₀ := hholds.count x
  rw [List.append_nil] at hx hx₀
  omega

/-! ## A link to itself, and a kernel without a free inode -/

/-- One file system: in its root is `a`, a link to `a`; the root is the inode 0 in core. -/
def loopGraph : Graph where
  rawInode := fun _ _ => some ⟨S_IFLNK ||| 0o777, 0, 0, 1, 2, 1⟩
  entry := fun dev ino i =>
    if dev = 1 ∧ ino = 1 then
      [(⟨1, fun k => if k = 0 then 46 else 0⟩ : Slot), ⟨1, fun k => if k < 2 then 46 else 0⟩,
        ⟨2, fun k => if k = 0 then 97 else 0⟩][i]?
    else none
  body := fun _ _ => some [97]
  superBlock := fun j => if j = 0 then ⟨1, 10, fun _ => true, some 0, some 0⟩ else ⟨0, 0, fun _ => false, none, none⟩
  lastInode := fun _ => 0
  root := 0
  pwd := 0
  euid := 0
  egid := 0
  groups := []

/-- The root is in core, and `n` inodes of pipes. -/
def withPipes (n : Nat) : State where
  inode := fun i =>
    if i = 0 then ⟨1, 1, S_IFDIR ||| 0o755, 0, 0, 2, 48, 5, some 0, 4, false, false, true⟩
    else if i ≤ n then { Inode.zero with iPipe := true, iCount := 2 } else .zero
  linkCount := 0

theorem loopGraph_sound : loopGraph.Sound := by
  intro dev ino i de j hentry hne hj
  unfold loopGraph at hentry
  simp only at hentry
  split at hentry
  · rename_i hdir
    rw [hdir.1] at hj
    have hzero : getSuper loopGraph 1 = some 0 := rfl
    rw [hzero] at hj
    rw [← Option.some.inj hj]
    have hmem := List.mem_of_getElem? hentry
    simp only [List.mem_cons, List.not_mem_nil, or_false] at hmem
    rcases hmem with rfl | rfl | rfl <;> rfl
  · cases hentry

theorem withPipes_sound (n : Nat) : (withPipes n).Sound loopGraph := by
  have hinode : ∀ x, (withPipes n).inode x = (withPipes n).inode 0 ∨
      ((withPipes n).inode x).iDev = 0 ∧ ((withPipes n).inode x).iOp = false := by
    intro x
    unfold withPipes
    simp only
    split
    · exact .inl rfl
    · split <;> exact .inr ⟨rfl, rfl⟩
  refine ⟨fun x => ?_, fun x => ?_⟩
  · rcases hinode x with hx | ⟨hdev, -⟩
    · rw [hx]
      exact fun _ => ⟨0, rfl, rfl⟩
    · exact fun hne => absurd hdev hne
  · rcases hinode x with hx | ⟨-, hop⟩
    · rw [hx]
      show true = true → (1 : Dev) ≠ 0
      decide
    · exact fun hne => absurd (hop.symm.trans hne) Bool.false_ne_true

/-- A link to itself, followed six times. -/
theorem namei_balanced_loop : (namei loopGraph 7 [97] none true).Ends (withPipes 5) Panics fun r s' =>
    s'.linkCount = 0 ∧ ∀ x, (s'.inode x).iCount = ((withPipes 5).inode x).iCount + r.toList.count x :=
  namei_balanced loopGraph_sound (withPipes_sound 5) (by simp) (by decide) [97] true

/-- With all of the 128 inodes in use, `iget` does not return. -/
theorem namei_no_inode : loopGraph.Sound ∧ (withPipes 127).Sound loopGraph ∧
    ∀ depth, namei loopGraph (depth + 1) [97] none true (withPipes 127) = .error .noFreeInodes :=
  ⟨loopGraph_sound, withPipes_sound 127, fun _ => rfl⟩

end Namei
end Fs
end Linux095
