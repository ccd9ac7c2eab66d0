import Linux095.Fs.NameiRefs

/-!
# `Fs.Confined` — path resolution stays below the root of the process

The directories are trees, one on each file system, and file systems are mounted on directories of others. What is
below the root of the process is `Within`: its entries, theirs, and what is mounted there. `..` leads to the
directory an inode is an entry of, except at the root of the process and at the root of a file system.

* `Tree`, `Mounts` — a static directory tree, and what is mounted where;
* `Inside` — the account that every inode a call has a reference to is within; `Inside.custody`;
* `namei_within`, `dirNamei_within` — **what a path resolves to is within**.
-/

namespace Linux095
namespace Fs
namespace Namei
open Seq Seq.Prog Minix.DirEntry
open Minix.Truncate (S_IFDIR)

/-- A file system and an inode of it. -/
abbrev Key := Dev × Ino

def Inode.key (x : Inode) : Key := (x.iDev, x.iIno)

/-- `.` -/
def dotName : List Byte := [46]

/-- `..` -/
def dotdotName : List Byte := [46, 46]

/-- The directory `d` has an entry for `n`, neither `.` nor `..`. -/
def Child (g : Graph) (d : Key) (n : Ino) : Prop :=
  ∃ i de, g.entry d.1 d.2 i = some de ∧ de.inode = n ∧ de.inode ≠ 0 ∧ ¬ minixMatch dotName de ∧
    ¬ minixMatch dotdotName de

/-- A directory tree on each device. -/
structure Tree (g : Graph) : Prop where
  sound : g.Sound
  dot : ∀ dev ino i de, g.entry dev ino i = some de → minixMatch dotName de → de.inode = ino
  /-- `..` is the directory where the directory is an entry; in the root it is the root. -/
  dotdot : ∀ dev ino i de, g.entry dev ino i = some de → minixMatch dotdotName de →
    Child g (dev, de.inode) ino ∨ ino = MINIX_ROOT_INO ∧ de.inode = MINIX_ROOT_INO
  /-- A directory is an entry of one directory only. -/
  parent : ∀ dev ino i de p p', g.entry dev ino i = some de → minixMatch dotdotName de → Child g (dev, p) ino →
    Child g (dev, p') ino → p = p'
  top : ∀ d, ¬ Child g d MINIX_ROOT_INO

/-- What is mounted, while the inodes in core are as in `s`. -/
structure Mounts (g : Graph) (s : State) : Prop where
  sound : s.Sound g
  unique : ∀ x y, x < NR_INODE → y < NR_INODE → (s.inode x).iDev ≠ 0 → (s.inode x).key = (s.inode y).key → x = y
  root : g.root < NR_INODE
  pwd : g.pwd < NR_INODE
  /-- Roots of file systems are mounted, and they know which super block is theirs. -/
  mounted : ∀ j m, (g.superBlock j).sMounted = some m → m < NR_INODE ∧ (s.inode m).iDev ≠ 0 ∧
    (s.inode m).iIno = MINIX_ROOT_INO ∧ (s.inode m).iSb = some j
  /-- The first file system is mounted on itself. `sys_mount` refuses a directory that somebody uses. -/
  covered : ∀ j c, (g.superBlock j).sCovered = some c → c < NR_INODE ∧
    (c = g.root → (g.superBlock j).sMounted = some c)

/-- An inode that is never unused: the root and the working directory of the process, and mount points. -/
def Pinned (g : Graph) (x : Nat) : Prop :=
  x = g.root ∨ x = g.pwd ∨ ∃ j, (g.superBlock j).sMounted = some x ∨ (g.superBlock j).sCovered = some x

/-- **Below the root of the process**, where the inodes in core that are pinned are those of `k`. -/
inductive Within (g : Graph) (k : Nat → Key) : Key → Prop
  | top : Within g k (k g.root)
  | child {d : Key} {n : Ino} (hd : Within g k d) (hn : Child g d n) : Within g k (d.1, n)
  | mount {j c m : Nat} (hc : Within g k (k c)) (hj : (g.superBlock j).sCovered = some c)
      (hm : (g.superBlock j).sMounted = some m) : Within g k (k m)

/-- **The account**: what the call has a reference to is within. -/
structure Inside (g : Graph) (f : Nat → Nat) (k : Nat → Key) (n : Nat) (l : List Nat) (s : State) : Prop where
  holds : Holds g f n l s
  lt : ∀ x ∈ l, x < NR_INODE
  within : ∀ x ∈ l, Within g k (s.inode x).key
  pinned : ∀ x, Pinned g x → 0 < f x ∧ (s.inode x).key = k x
  sb : ∀ j m, (g.superBlock j).sMounted = some m → (s.inode m).iSb = some j
  unique : ∀ x y, x < NR_INODE → y < NR_INODE → (s.inode x).iDev ≠ 0 → (s.inode x).key = (s.inode y).key → x = y

/-! ## Names -/

/-- A name of a path that matches `..` is `..`. -/
theorem eq_dotdot {name : List Byte} {de : Slot} (hz : 0 ∉ name) (h : minixMatch (name.take MINIX_NAME_LEN) de)
    (hde : minixMatch dotdotName de) : isDotdot name = true := by
  have hbytes : de.name 0 = 46 ∧ de.name 1 = 46 ∧ de.name 2 = 0 := by
    obtain ⟨-, -, ⟨hnil, -⟩ | ⟨hend, hsame⟩⟩ := hde
    · cases hnil
    · exact ⟨(Option.some.inj (hsame 0 (by decide))).symm, (Option.some.inj (hsame 1 (by decide))).symm,
        hend (by decide)⟩
  obtain ⟨h0, h1, h2⟩ := hbytes
  have hz' : 0 ∉ name.take MINIX_NAME_LEN := fun hmem => hz (List.mem_of_mem_take hmem)
  have htake : name.take MINIX_NAME_LEN = dotdotName := by
    generalize name.take MINIX_NAME_LEN = a at h hz'
    obtain ⟨-, -, ⟨-, -, hone⟩ | ⟨hend, hsame⟩⟩ := h
    · rw [h1] at hone
      cases hone
    · cases a with
      | nil =>
          have hnil := hend (by decide)
          rw [List.length_nil, h0] at hnil
          cases hnil
      | cons x a =>
          cases a with
          | nil =>
              have hone := hend (by simp [MINIX_NAME_LEN])
              rw [List.length_singleton, h1] at hone
              cases hone
          | cons y a =>
              have hx := Option.some.inj (hsame 0 (by simp))
              have hy := Option.some.inj (hsame 1 (by simp))
              cases a with
              | nil =>
                  rw [h0] at hx
                  rw [h1] at hy
                  rw [show x = 46 from hx, show y = 46 from hy]
                  rfl
              | cons z a =>
                  have hzero := Option.some.inj (hsame 2 (by simp))
                  rw [h2] at hzero
                  exact absurd (show (0 : Byte) ∈ x :: y :: z :: a by simp [← hzero]) hz'
  have hlen := congrArg List.length htake
  rw [List.length_take] at hlen
  have hshort : name.length ≤ MINIX_NAME_LEN := by
    have : dotdotName.length = 2 := rfl
    unfold MINIX_NAME_LEN at *
    omega
  rw [List.take_of_length_le hshort] at htake
  rw [htake]
  rfl

/-! ## The account is kept -/

section
variable {g : Graph} {f : Nat → Nat} {k : Nat → Key} {n n' : Nat} {l l' : List Nat} {s s' : State}

theorem Kept.core_eq {x y : Inode} {i : Nat} (h : Kept f l x y i) (hi : 0 < f i ∨ i ∈ l) : y.core = x.core := by
  rcases h with h | ⟨-, hf, hmem⟩
  · exact h
  · rcases hi with hi | hi
    · omega
    · exact absurd hi hmem

theorem key_of_core {x y : Inode} (h : y.core = x.core) : y.key = x.key := by
  show y.core.key = x.core.key
  rw [h]

namespace Inside

/-- Other references, to inodes that are as they were. -/
theorem kept (h : Inside g f k n l s) (hh : Holds g f n' l' s')
    (hl : ∀ x ∈ l', x < NR_INODE ∧ Within g k (s.inode x).key)
    (hkept : ∀ x, Kept f l' (s.inode x) (s'.inode x) x) : Inside g f k n' l' s' := by
  have hcore : ∀ x, (s'.inode x).iDev ≠ 0 → (s'.inode x).core = (s.inode x).core := by
    intro x hx
    rcases hkept x with hsame | ⟨hzero, -⟩
    · exact hsame
    · exact absurd (congrArg Inode.iDev hzero) hx
  refine ⟨hh, fun x hx => (hl x hx).1, fun x hx => ?_, fun x hx => ?_, fun j m hm => ?_, fun x y hx hy hdev hkey => ?_⟩
  · rw [key_of_core ((hkept x).core_eq (.inr hx))]
    exact (hl x hx).2
  · obtain ⟨hpos, hkey⟩ := h.pinned x hx
    exact ⟨hpos, (key_of_core ((hkept x).core_eq (.inl hpos))).trans hkey⟩
  · have hpos := (h.pinned m (.inr (.inr ⟨j, .inl hm⟩))).1
    have hsb : (s'.inode m).core.iSb = (s.inode m).core.iSb := by rw [(hkept m).core_eq (.inl hpos)]
    exact hsb.trans (h.sb j m hm)
  · have hx' := hcore x hdev
    have hdevy : (s'.inode y).iDev ≠ 0 := by
      have hsame : (s'.inode x).iDev = (s'.inode y).iDev := congrArg Prod.fst hkey
      rw [← hsame]
      exact hdev
    have hy' := hcore y hdevy
    rw [key_of_core hx', key_of_core hy'] at hkey
    apply h.unique x y hx hy _ hkey
    have hsame : (s'.inode x).iDev = (s.inode x).iDev := congrArg Prod.fst (key_of_core hx')
    rw [← hsame]
    exact hdev

theorem iput {i : Nat} (h : Inside g f k n (i :: l) s) :
    (Namei.iput g (some i)).Ends s Panics fun _ s' => Inside g f k n l s' :=
  (iput_ends h.holds).mono fun _ _ h' => h.kept h'.1
    (fun x hx => ⟨h.lt x (List.mem_cons_of_mem _ hx), h.within x (List.mem_cons_of_mem _ hx)⟩) h'.2

theorem dup (h : Inside g f k n l s) {i : Nat} (hlt : i < NR_INODE) (hi : Within g k (s.inode i).key) :
    Inside g f k n (i :: l) (s.dup i) := by
  refine h.kept (h.holds.dup i) (fun x hx => ?_) fun x => .inl (State.core_dup s i x)
  rcases List.mem_cons.mp hx with rfl | hx
  · exact ⟨hlt, hi⟩
  · exact ⟨h.lt x hx, h.within x hx⟩

/-- Two inodes in core with a device are one when they have one key. -/
theorem eq_of_key (h : Inside g f k n l s) {x y : Nat} (hx : x < NR_INODE) (hy : y < NR_INODE)
    (hdev : (s.inode x).iDev ≠ 0) (hpin : Pinned g y) (hkey : (s.inode x).key = k y) : x = y :=
  h.unique x y hx hy hdev (hkey.trans (h.pinned y hpin).2.symm)

/-- Where `..` is looked up, or any other name, the entry is within. -/
theorem entry_within (ht : Tree g) (hm : ∀ j m, (g.superBlock j).sMounted = some m → (k m).2 = MINIX_ROOT_INO)
    (hroot : g.root < NR_INODE) (h : Inside g f k n (i :: l) s) {name : List Byte} {de : Slot}
    (hop : (s.inode i).iOp = true) (hz : 0 ∉ name) (hde : findEntry g (s.inode i) name = some de)
    (hname : isDotdot name = true → i ≠ g.root) : Within g k ((s.inode i).iDev, de.inode) := by
  obtain ⟨e, hentry, hmatch⟩ := findEntry_some hde
  have hin : Within g k ((s.inode i).iDev, (s.inode i).iIno) := h.within i List.mem_cons_self
  by_cases hdot : minixMatch dotName de
  · rw [ht.dot _ _ e de hentry hdot]
    exact hin
  · by_cases hdd : minixMatch dotdotName de
    · have hne : i ≠ g.root := hname (eq_dotdot hz hmatch hdd)
      rcases ht.dotdot _ _ e de hentry hdd with hchild | ⟨hino, hparent⟩
      · -- the directory that `i` is an entry of
        generalize hkey : ((s.inode i).iDev, (s.inode i).iIno) = d at hin
        cases hin with
        | top => exact absurd (h.eq_of_key (h.lt i List.mem_cons_self) hroot (h.holds.dev i hop) (.inl rfl) hkey) hne
        | child hd hn =>
            rename_i d' n'
            obtain ⟨hdev, hino⟩ := Prod.mk.inj hkey
            rw [hino, hdev] at hchild
            rw [hdev, hino] at hentry
            rw [hdev, ht.parent _ _ e de _ _ hentry hdd hchild hn]
            exact hd
        | mount hc hj hmm =>
            have hino : (s.inode i).iIno = MINIX_ROOT_INO := by
              rw [← hm _ _ hmm, ← hkey]
            rw [hino] at hchild
            exact absurd hchild (ht.top _)
      · rw [hparent, ← hino]
        exact hin
    · exact .child hin ⟨e, de, hentry, rfl, hmatch.1, hdot, hdd⟩

/-- What is asked for is in core. -/
theorem found (h : Inside g f k n l s) (hlt : ∀ j m, (g.superBlock j).sMounted = some m → m < NR_INODE) {dev : Dev}
    {nr : Ino} {r : Option Nat} {e : Nat} (hin : Within g k (dev, nr)) (hh : Holds g f n (r.toList ++ l) s')
    (hothers : ∀ x, x ≠ e → Kept f l (s.inode x) (s'.inode x) x) (hfree : (s.inode e).iCount = 0)
    (hzero : (s'.inode e).core = .zero) (hr : ∀ i, r = some i → ∃ c, c ≠ e ∧ c < NR_INODE ∧ (s.inode c).iDev = dev ∧
      (s.inode c).iIno = nr ∧ ((i = c ∧ (s'.inode c).core = (s.inode c).core) ∨
        ∃ j, (g.superBlock j).sCovered = some c ∧ (g.superBlock j).sMounted = some i)) :
    Inside g f k n (r.toList ++ l) s' := by
  have hfe : f e = 0 ∧ e ∉ l := by
    have hcount := h.holds.count e
    refine ⟨by omega, fun hmem => ?_⟩
    have := h.holds.pos hmem
    omega
  -- the result is within, and as it was
  have hres : ∀ i, r = some i → i < NR_INODE ∧ Within g k (s.inode i).key ∧ i ≠ e ∧
      (s'.inode i).core = (s.inode i).core := by
    intro i hi
    obtain ⟨c, hce, hclt, hdev, hino, ⟨rfl, hcore⟩ | ⟨j, hj, hm⟩⟩ := hr i hi
    · refine ⟨hclt, ?_, hce, hcore⟩
      show Within g k ((s.inode i).iDev, (s.inode i).iIno)
      rw [hdev, hino]
      exact hin
    · obtain ⟨hpos, hkey⟩ := h.pinned i (.inr (.inr ⟨j, .inl hm⟩))
      have hie : i ≠ e := by
        rintro rfl
        omega
      have hkc := (h.pinned c (.inr (.inr ⟨j, .inr hj⟩))).2
      refine ⟨hlt j i hm, ?_, hie, (hothers i hie).core_eq (.inl hpos)⟩
      rw [hkey]
      apply Within.mount _ hj hm
      rw [← hkc]
      show Within g k ((s.inode c).iDev, (s.inode c).iIno)
      rw [hdev, hino]
      exact hin
  refine h.kept hh (fun x hx => ?_) fun x => ?_
  · rcases List.mem_append.mp hx with hx | hx
    · obtain ⟨hlt, hw, -⟩ := hres x (Option.mem_toList.mp hx)
      exact ⟨hlt, hw⟩
    · exact ⟨h.lt x hx, h.within x hx⟩
  · by_cases hmem : x ∈ r.toList
    · exact .inl (hres x (Option.mem_toList.mp hmem)).2.2.2
    · by_cases hx : x = e
      · rw [hx] at hmem ⊢
        refine .inr ⟨hzero, hfe.1, fun hin => ?_⟩
        rcases List.mem_append.mp hin with hin | hin
        · exact hmem hin
        · exact hfe.2 hin
      · rcases hothers x hx with hsame | ⟨hz, hf, hl⟩
        · exact .inl hsame
        · refine .inr ⟨hz, hf, fun hin => ?_⟩
          rcases List.mem_append.mp hin with hin | hin
          · exact hmem hin
          · exact hl hin

/-- What is asked for is read into an unused inode. -/
theorem loaded (h : Inside g f k n l s) {dev : Dev} {nr : Ino} {e : Nat} (hin : Within g k (dev, nr))
    (hh : Holds g f n (e :: l) s') (helt : e < NR_INODE)
    (hothers : ∀ x, x ≠ e → Kept f l (s.inode x) (s'.inode x) x) (hfree : (s.inode e).iCount = 0)
    (hkey : (s'.inode e).key = (dev, nr))
    (hnew : ∀ x, x < NR_INODE → x ≠ e → ¬ ((s'.inode x).iDev = dev ∧ (s'.inode x).iIno = nr)) :
    Inside g f k n (e :: l) s' := by
  have hne : ∀ x, 0 < f x ∨ x ∈ l → x ≠ e := by
    rintro x hx rfl
    have hcount := h.holds.count x
    rcases hx with hx | hx
    · omega
    · have := h.holds.pos hx
      omega
  have hcore : ∀ x, x ≠ e → (s'.inode x).iDev ≠ 0 → (s'.inode x).core = (s.inode x).core := by
    intro x hx hdev
    rcases hothers x hx with hsame | ⟨hzero, -⟩
    · exact hsame
    · exact absurd (congrArg Inode.iDev hzero) hdev
  refine ⟨hh, fun x hx => ?_, fun x hx => ?_, fun x hx => ?_, fun j m hm => ?_, fun x y hx hy hdev hsame => ?_⟩
  · rcases List.mem_cons.mp hx with rfl | hx
    · exact helt
    · exact h.lt x hx
  · rcases List.mem_cons.mp hx with rfl | hx
    · rw [hkey]
      exact hin
    · rw [key_of_core ((hothers x (hne x (.inr hx))).core_eq (.inr hx))]
      exact h.within x hx
  · obtain ⟨hpos, hk⟩ := h.pinned x hx
    exact ⟨hpos, (key_of_core ((hothers x (hne x (.inl hpos))).core_eq (.inl hpos))).trans hk⟩
  · have hpos := (h.pinned m (.inr (.inr ⟨j, .inl hm⟩))).1
    have hsb : (s'.inode m).core.iSb = (s.inode m).core.iSb := by
      rw [(hothers m (hne m (.inl hpos))).core_eq (.inl hpos)]
    exact hsb.trans (h.sb j m hm)
  · have hother : ∀ z, z < NR_INODE → z ≠ e → (s'.inode z).key ≠ (s'.inode e).key := by
      intro z hz hze heq
      rw [hkey] at heq
      exact hnew z hz hze ⟨congrArg Prod.fst heq, congrArg Prod.snd heq⟩
    by_cases hxe : x = e
    · by_contra hxy
      rw [hxe] at hsame hxy
      exact hother y hy (fun h => hxy h.symm) hsame.symm
    · by_cases hye : y = e
      · rw [hye] at hsame
        exact absurd hsame (hother x hx hxe)
      · have hdevs : (s'.inode x).iDev = (s'.inode y).iDev := congrArg Prod.fst hsame
        have hx' := key_of_core (hcore x hxe hdev)
        have hy' := key_of_core (hcore y hye (hdevs ▸ hdev))
        rw [hx', hy'] at hsame
        apply h.unique x y hx hy _ hsame
        have hdev' : (s'.inode x).iDev = (s.inode x).iDev := congrArg Prod.fst hx'
        rw [← hdev']
        exact hdev

theorem iget (h : Inside g f k n l s) (hlt : ∀ j m, (g.superBlock j).sMounted = some m → m < NR_INODE) {dev : Dev}
    {nr : Ino} (hdev : dev ≠ 0) (hmap : ∀ j, getSuper g dev = some j → inMap (g.superBlock j) nr = true)
    (hin : Within g k (dev, nr)) :
    (Namei.iget g dev nr).Ends s Panics fun r s' => Inside g f k n (r.toList ++ l) s' := by
  refine (iget_ends h.holds hdev hmap).mono fun r s' hgot => ?_
  obtain ⟨hh, e, helt, hfree, hothers, ⟨hzero, hr⟩ | ⟨rfl, ⟨raw, j, -, -, hcore⟩, hnew⟩⟩ := hgot
  · exact h.found hlt hin hh hothers hfree hzero hr
  · apply h.loaded hin hh helt hothers hfree _ hnew
    have hkey : (s'.inode e).core.key = (dev, nr) := by
      rw [hcore]
      rfl
    exact hkey

end Inside

end

/-- From the root of a file system that is mounted within, the mount point is within. -/
theorem Inside.covered_within {g : Graph} {f : Nat → Nat} {n : Nat} {l : List Nat} {s₀ s : State} {d j c : Nat}
    (ht : Tree g) (hm : Mounts g s₀) (h : Inside g f (fun x => (s₀.inode x).key) n (d :: l) s) (hd : d ≠ g.root)
    (hmounted : (g.superBlock j).sMounted = some d) (hc : (g.superBlock j).sCovered = some c) :
    Within g (fun x => (s₀.inode x).key) (s₀.inode c).key := by
  have hpin : Pinned g d := .inr (.inr ⟨j, .inl hmounted⟩)
  obtain ⟨hdlt, hdev, hino, hsb⟩ := hm.mounted j d hmounted
  have hkeyd := (h.pinned d hpin).2
  have hdev' : (s.inode d).iDev ≠ 0 := by
    have hsame : (s.inode d).iDev = (s₀.inode d).iDev := congrArg Prod.fst hkeyd
    rw [hsame]
    exact hdev
  have hin := h.within d List.mem_cons_self
  generalize hkey : (s.inode d).key = q at hin
  cases hin with
  | top => exact absurd (h.eq_of_key hdlt hm.root hdev' (.inl rfl) hkey) hd
  | child hd' hn =>
      have hsnd := congrArg Prod.snd (hkey.symm.trans hkeyd)
      simp only [Inode.key] at hsnd
      rw [hsnd, hino] at hn
      exact absurd hn (ht.top _)
  | @mount j' c' m' hin' hj' hm' =>
      have heq : d = m' := h.eq_of_key hdlt (hm.mounted j' m' hm').1 hdev' (.inr (.inr ⟨j', .inl hm'⟩)) hkey
      rw [← heq] at hm'
      have hsame : j' = j := Option.some.inj ((hm.mounted j' d hm').2.2.2.symm.trans hsb)
      rw [hsame] at hj'
      rw [Option.some.inj (hc.symm.trans hj')]
      exact hin'

/-- **That every inode is within is an account** in the sense of `Custody`; `..` may be looked up but in the root. -/
theorem Inside.custody {g : Graph} {s₀ : State} (ht : Tree g) (hm : Mounts g s₀)
    (hpwd : Within g (fun x => (s₀.inode x).key) (s₀.inode g.pwd).key) (f : Nat → Nat) :
    Custody g (· ≠ g.root) (Inside g f fun x => (s₀.inode x).key) where
  perm := fun h hl =>
    h.kept (h.holds.perm hl) (fun x hx => ⟨h.lt x (hl.mem_iff.mpr hx), h.within x (hl.mem_iff.mpr hx)⟩)
      fun _ => .inl rfl
  linkCount := fun h => h.holds.linkCount
  link := fun m h => ⟨(Holds.custody ht.sound f).link m h.holds, h.lt, h.within, h.pinned, h.sb, h.unique⟩
  dup := by
    intro n l s i h hi
    rcases hi with hi | rfl | rfl
    · exact h.dup (h.lt i hi) (h.within i hi)
    · apply h.dup hm.root
      rw [(h.pinned _ (.inl rfl)).2]
      exact .top
    · apply h.dup hm.pwd
      rw [(h.pinned _ (.inr (.inl rfl))).2]
      exact hpwd
  iput := fun h => h.iput
  iget := by
    intro n l s d name de h hop hde hz hname
    obtain ⟨i, hentry, hmatch⟩ := findEntry_some hde
    refine h.iget (fun j m hj => (hm.mounted j m hj).1) (h.holds.dev d hop) ?_ ?_
    · exact fun j hj => ht.sound _ _ i de j hentry hmatch.1 hj
    · exact h.entry_within ht (fun j m hj => (hm.mounted j m hj).2.2.1) hm.root hop hz hde hname
  above := fun hd => hd
  covered := by
    intro n l s d j c h hd hsb hmounted hc
    refine h.iput.mono fun _ s' h' => ⟨?_, ?_⟩
    · apply h'.dup (hm.covered j c hc).1
      rw [(h'.pinned c (.inr (.inr ⟨j, .inr hc⟩))).2]
      exact h.covered_within ht hm hd hmounted hc
    · intro hroot
      have hself := (hm.covered j c hc).2 hroot
      exact hd ((Option.some.inj (hmounted.symm.trans hself)).trans hroot)

/-- A process with a subtree of its own: its root is the top, its working directory is in it, and so is the base of
a call. Each of these inodes and of those that mounts use has a reference beside the one that is passed in. -/
structure Jailed (g : Graph) (s : State) (base : Option Nat) : Prop where
  tree : Tree g
  mounts : Mounts g s
  held : ∀ x, Pinned g x → base.toList.count x < (s.inode x).iCount
  pwd : Within g (fun x => (s.inode x).key) (s.inode g.pwd).key
  base : ∀ b, base = some b → b < NR_INODE ∧ 0 < (s.inode b).iCount ∧
    Within g (fun x => (s.inode x).key) (s.inode b).key

theorem Jailed.inside {g : Graph} {s : State} {base : Option Nat} (h : Jailed g s base) :
    Inside g (fun x => (s.inode x).iCount - base.toList.count x) (fun x => (s.inode x).key) s.linkCount
      (base.toList ++ []) s := by
  have hbase : ∀ x ∈ base.toList ++ [], base = some x := by
    intro x hx
    rw [List.append_nil] at hx
    exact Option.mem_toList.mp hx
  refine ⟨h.mounts.sound.holds fun b hb => (h.base b hb).2.1, fun x hx => (h.base x (hbase x hx)).1,
    fun x hx => (h.base x (hbase x hx)).2.2, fun x hx => ⟨?_, rfl⟩, fun j m hj => (h.mounts.mounted j m hj).2.2.2,
    h.mounts.unique⟩
  have := h.held x hx
  omega

end Namei
end Fs
end Linux095
