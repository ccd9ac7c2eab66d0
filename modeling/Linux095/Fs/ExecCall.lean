import Linux095.Fs.ExecTables
import Mathlib.Data.List.Perm.Subperm

/-!
# `Fs.ExecCall` — what `execve` comes to

`do_execve` has about ten ways to return an error, before or after an interpreter has been put in. The rest of the
caller is left alone until the point of no return.

* `During` — what holds on the way: the caller is as it was, and what the call holds is known;
* `failed_exec_invisible` — **a call that fails leaves nothing behind**;
* `exec_image_iff` — **when a program finds its arguments**: always, but for a script that is called without any.
-/

namespace Linux095
namespace Fs
namespace Exec
open Seq Prog

/-! ## On the way -/

/-- The caller is the same. -/
structure Same (s s' : State) : Prop where
  fs : s'.fs = s.fs
  user : s'.user = s.user
  limit : s'.limit = s.limit
  current : s'.current = s.current
  eip : s'.eip = s.eip
  cs : s'.cs = s.cs
  esp : s'.esp = s.esp

/-- **Nothing is left of a call.** -/
structure Untouched (s s' : State) : Prop extends Same s s' where
  inodes : s'.inodes = []
  buffers : s'.buffers = []
  frames : s'.frames = []

/-- A call on its way, which holds inodes, buffers and its pages. -/
structure During (s₀ s : State) (inodes buffers : List Nat) : Prop where
  same : Same s₀ s
  fs : s.fs = .user
  inodes : s.inodes = inodes
  buffers : s.buffers = buffers
  pages : Pages s

theorem Same.trans {s s' s'' : State} (h : Same s s') (h' : Same s' s'') : Same s s'' where
  fs := h'.fs.trans h.fs
  user := h'.user.trans h.user
  limit := h'.limit.trans h.limit
  current := h'.current.trans h.current
  eip := h'.eip.trans h.eip
  cs := h'.cs.trans h.cs
  esp := h'.esp.trans h.esp

/-- A step that leaves the caller and the pages alone. -/
theorem During.move {s₀ s s' : State} {inodes buffers inodes' buffers' : List Nat} (hd : During s₀ s inodes buffers)
    (hsame : Same s s') (hpage : s'.page = s.page) (hframes : s'.frames = s.frames) (hallocs : s'.allocs = s.allocs)
    (hinodes : s'.inodes = inodes') (hbuffers : s'.buffers = buffers') : During s₀ s' inodes' buffers' := by
  refine ⟨hd.same.trans hsame, hsame.fs.trans hd.fs, hinodes, hbuffers, ?_⟩
  constructor
  · intro f
    rw [hframes, hpage]
    exact hd.pages.held f
  · rw [hframes]
    exact hd.pages.nodup
  · rw [hpage]
    exact hd.pages.inj
  · rw [hpage, hallocs]
    exact hd.pages.bound

/-- The strings `xs` fill the pages from `p` on. -/
structure Block (s : State) (p : Nat) (xs : List (List Byte)) : Prop where
  top : p + (flat xs).length + 4 = TOP
  there : ∀ k b, (flat xs)[k]? = some b → Present s (p + k) ∧ area s (p + k) = b
  nonzero : ∀ x ∈ xs, ∀ b ∈ x, b ≠ 0

section

variable {w : World} {s₀ s : State} {inodes buffers : List Nat} {x : Inode} {h : Header} {p : Nat}

theorem Strings.nonzero {m : Nat → Byte} {t : Table} {xs : List (List Byte)} (hxs : Strings m t xs) :
    ∀ x ∈ xs, ∀ b ∈ x, b ≠ 0 := by
  intro x hx b hb
  obtain ⟨i, hi⟩ := List.mem_iff_getElem?.1 hx
  obtain ⟨k, hk⟩ := List.mem_iff_getElem?.1 hb
  obtain ⟨q, -, -, hq⟩ := hxs i x hi
  exact (hq.1 k b hk).2

theorem Block.congr {s' : State} {xs : List (List Byte)} (h : Block s p xs) (hpage : s'.page = s.page)
    (hframe : s'.frame = s.frame) : Block s' p xs := by
  refine ⟨h.top, fun k b hb => ?_, h.nonzero⟩
  unfold Present area
  rw [hpage, hframe]
  exact h.there k b hb

/-- How `copy_strings` ends on the way. -/
structure Added (s₀ s : State) (inodes buffers : List Nat) (n : Nat) (t : Table) (p p' : Nat) (s' : State) : Prop where
  during : During s₀ s' inodes buffers
  le : p' ≤ p
  block : p' ≠ 0 → ∃ ys, ys.length = n ∧ Strings s₀.user t ys ∧ ∀ xs, Block s p xs → Block s' p' (ys ++ xs)

theorem copy_ends (hd : During s₀ s inodes buffers) (argc : Int) {fromKmem : Nat} {t : Table}
    (ht : TableOk argc.toNat fromKmem t) (htop : p ≤ TOP) :
    Ends (copyStrings w argc t p fromKmem) s Off.Fatal (Added s₀ s inodes buffers argc.toNat t p) := by
  refine (copyStrings_ends ht hd.pages htop hd.fs).mono fun p' s' hs' => ?_
  have hk := hs'.keeps
  have hsame : Same s₀ s' :=
    hd.same.trans ⟨hs'.fs.trans hd.fs.symm, hk.user, hk.limit, hk.current, hk.eip, hk.cs, hk.esp⟩
  refine ⟨⟨hsame, hs'.fs, hk.inodes.trans hd.inodes, hk.buffers.trans hd.buffers, hs'.pages⟩, ?_, fun hne => ?_⟩
  · by_cases hne : p' = 0
    · omega
    · obtain ⟨ys, -, -, hplace, -⟩ := hs'.filled hne
      omega
  · obtain ⟨ys, hys, hstrings, hplace, hfill⟩ := hs'.filled hne
    rw [hd.same.user] at hstrings
    refine ⟨ys, hys, hstrings, fun xs hxs => ⟨?_, fun k b hb => ?_, fun x hx => ?_⟩⟩
    · rw [flat_append, List.length_append]
      have htop := hxs.top
      omega
    · rw [flat_append, List.getElem?_append] at hb
      split at hb
      · exact hfill.there k b hb
      · next hlt =>
          -- What was there before is behind.
          obtain ⟨hpres, harea⟩ := hxs.there _ b hb
          have hwhere : p + (k - (flat ys).length) = p' + k := by omega
          rw [hwhere] at hpres harea
          exact ⟨hfill.present hpres, (hfill.above _ (by omega) hpres).trans harea⟩
    · exact (List.mem_append.1 hx).elim (hstrings.nonzero x) (hxs.nonzero x)

/-! ## What is given back -/

theorem brelse_ends (hd : During s₀ s inodes [h.bh]) :
    Ends (brelse h.bh) s Off.Fatal fun _ s' => During s₀ s' inodes [] ∧ s'.page = s.page ∧ s'.frame = s.frame := by
  unfold Ends brelse
  rw [if_pos (by rw [hd.buffers]; exact List.mem_singleton_self _)]
  refine ⟨hd.move ⟨rfl, rfl, rfl, rfl, rfl, rfl, rfl⟩ rfl rfl rfl hd.inodes ?_, rfl, rfl⟩
  dsimp only
  rw [hd.buffers, List.erase_cons_head]

theorem iput_ends (hd : During s₀ s [x.ino] buffers) :
    Ends (iput x) s Off.Fatal fun _ s' => During s₀ s' [] buffers ∧ s'.page = s.page ∧ s'.frame = s.frame := by
  unfold Ends iput
  rw [if_pos (by rw [hd.inodes]; exact List.mem_singleton_self _)]
  refine ⟨hd.move ⟨rfl, rfl, rfl, rfl, rfl, rfl, rfl⟩ rfl rfl rfl ?_ hd.buffers, rfl, rfl⟩
  dsimp only
  rw [hd.inodes, List.erase_cons_head]

/-- **All pages are given back**, each of them once. -/
theorem freePages_ends (n : Nat) {i : Nat} (hi : i + n = MAX_ARG_PAGES) (hnodup : s.frames.Nodup)
    (hinj : ∀ i j, s.page i ≠ 0 → s.page i = s.page j → i = j)
    (hheld : ∀ f, f ∈ s.frames ↔ f ≠ 0 ∧ ∃ j, i ≤ j ∧ j < MAX_ARG_PAGES ∧ s.page j = f) :
    Ends (freePages n i) s Off.Fatal fun _ s' => s' = { s with frames := [] } := by
  induction n generalizing i s with
  | zero =>
      have hnone : s.frames = [] := List.eq_nil_iff_forall_not_mem.2 fun f hf => by
        obtain ⟨-, j, hij, hj, -⟩ := (hheld f).1 hf
        omega
      have hsame : s = { s with frames := [] } := by rw [← hnone]
      exact .pure hsame
  | succ n ih =>
      rw [freePages]
      apply Ends.bind
      apply Ends.reads
      by_cases hzero : s.page i = 0
      · have hfree : freePage (s.page i) s = .ok ((), s) := if_pos hzero
        unfold Ends
        rw [bind_ok hfree]
        refine ih (by omega) hnodup hinj fun f => (hheld f).trans ?_
        refine and_congr_right fun hf => exists_congr fun j =>
          ⟨fun ⟨hij, hj⟩ => ⟨?_, hj⟩, fun ⟨hij, hj⟩ => ⟨by omega, hj⟩⟩
        rcases Nat.lt_or_eq_of_le hij with hlt | rfl
        · exact hlt
        · exact absurd (hj.2.symm.trans hzero) hf
      · have hmem : s.page i ∈ s.frames := (hheld _).2 ⟨hzero, i, Nat.le_refl i, by omega, rfl⟩
        have hfree : freePage (s.page i) s = .ok ((), { s with frames := s.frames.erase (s.page i) }) := by
          unfold freePage
          rw [if_neg hzero, if_pos hmem]
        unfold Ends
        rw [bind_ok hfree]
        refine (ih (s := { s with frames := s.frames.erase (s.page i) }) (by omega) (hnodup.erase _) hinj fun f => ?_)
        dsimp only
        rw [hnodup.mem_erase_iff, hheld]
        constructor
        · rintro ⟨hne, hf, j, hij, hj, hjf⟩
          refine ⟨hf, j, ?_, hj, hjf⟩
          rcases Nat.lt_or_eq_of_le hij with hlt | rfl
          · exact hlt
          · exact absurd hjf.symm hne
        · rintro ⟨hf, j, hij, hj, hjf⟩
          refine ⟨fun heq => ?_, hf, j, by omega, hj, hjf⟩
          -- A page is at one index.
          have hji := hinj j i (hjf ▸ hf) (hjf.trans heq)
          omega

theorem execError1_ends {retval : Int} (hd : During s₀ s [] []) :
    Ends (execError1 retval) s Off.Fatal fun r s' => r = retval ∧ Untouched s₀ s' := by
  unfold execError1
  have hheld : ∀ f, f ∈ s.frames ↔ f ≠ 0 ∧ ∃ j, 0 ≤ j ∧ j < MAX_ARG_PAGES ∧ s.page j = f := fun f => by
    rw [hd.pages.held]
    refine and_congr_right fun _ => exists_congr fun j => ?_
    rw [and_iff_right (Nat.zero_le j)]
  refine .then_ (freePages_ends MAX_ARG_PAGES (Nat.zero_add _) hd.pages.nodup hd.pages.inj hheld) fun _ s' hs' => ?_
  subst hs'
  exact .pure ⟨rfl, ⟨hd.same.trans ⟨rfl, rfl, rfl, rfl, rfl, rfl, rfl⟩, hd.inodes, hd.buffers, rfl⟩⟩

theorem execError2_ends {retval : Int} (hd : During s₀ s [x.ino] []) :
    Ends (execError2 x retval) s Off.Fatal fun r s' => r = retval ∧ Untouched s₀ s' := by
  unfold execError2
  exact .then_ (iput_ends hd) fun _ _ hs => execError1_ends hs.1

/-! ## The header -/

/-- How the reading of a header ends: with an error, or with a buffer. -/
def Headed (w : World) (s₀ s : State) (x : Inode) (r : Except Int Header) (s' : State) : Prop :=
  s'.page = s.page ∧ s'.frame = s.frame ∧
    match r with
    | .error retval => retval ≠ 0 ∧ During s₀ s' [x.ino] []
    | .ok h => During s₀ s' [x.ino] [h.bh] ∧ w.bread s.reads = some h.data

theorem header_ends (hd : During s₀ s [x.ino] []) : Ends (header w x) s Off.Fatal (Headed w s₀ s x) := by
  have hfail : ∀ {retval : Int}, retval ≠ 0 → Headed w s₀ s x (.error retval) s := fun hne => ⟨rfl, rfl, hne, hd⟩
  unfold header
  apply Ends.bind
  apply Ends.reads
  by_cases hreg : S_ISREG x.iMode = true
  · rw [if_neg (not_not.2 hreg)]
    by_cases hmay : mayExec s.current x = true
    · dsimp only
      rw [if_neg (not_not.2 hmay)]
      cases hbread : w.bread s.reads with
      | none =>
          have hread : bread w s = .ok (none, { s with reads := s.reads + 1 }) := by
            unfold bread
            dsimp only
            rw [hbread]
          unfold Ends
          rw [bind_ok hread]
          exact ⟨rfl, rfl, by decide, hd.move ⟨rfl, rfl, rfl, rfl, rfl, rfl, rfl⟩ rfl rfl rfl hd.inodes hd.buffers⟩
      | some data =>
          have hread : bread w s = .ok (some (s.reads, data),
              { s with reads := s.reads + 1, buffers := s.reads :: s.buffers }) := by
            unfold bread
            dsimp only
            rw [hbread]
          unfold Ends
          rw [bind_ok hread, hd.buffers]
          exact ⟨rfl, rfl, hd.move ⟨rfl, rfl, rfl, rfl, rfl, rfl, rfl⟩ rfl rfl rfl hd.inodes rfl, hbread⟩
    · dsimp only
      rw [if_pos hmay]
      exact .pure (hfail (by decide))
  · rw [if_pos hreg]
    exact .pure (hfail (by decide))

/-! ## The program -/

/-- How a call ends: it has failed, or the program finds what `Q` says. -/
def Done (s₀ : State) (Q : (Nat → Byte) → Nat → Prop) (r : Int) (s' : State) : Prop :=
  (r ≠ 0 → Untouched s₀ s') ∧ (r = 0 → Q s'.user s'.esp)

theorem fail_ends {retval : Int} {Q : (Nat → Byte) → Nat → Prop} (hne : retval ≠ 0) (hd : During s₀ s [x.ino] []) :
    Ends (execError2 x retval) s Off.Fatal (Done s₀ Q) :=
  (execError2_ends hd).mono fun _ _ ⟨hr, hs'⟩ => ⟨fun _ => hs', fun hzero => absurd (hr.symm.trans hzero) hne⟩

/-- The program finds the first `argc` of the strings, and then `envc` more. -/
theorem done_ends {xs : List (List Byte)} {argc envc : Int} (hpos : p ≠ 0) (hblock : Block s p xs)
    (hn : argc.toNat + envc.toNat ≤ xs.length) :
    Ends (commit w x h p argc envc) s Off.Fatal
      (Done s₀ fun m sp => Image m sp (xs.take argc.toNat) ((xs.drop argc.toNat).take envc.toNat)) :=
  (commit_ends (Nat.pos_of_ne_zero hpos) hblock.top hblock.there hblock.nonzero hn).mono fun _ _ ⟨hr, himage⟩ =>
    ⟨fun hne => absurd hr hne, fun _ => himage⟩

/-- After the interpretation of `#!`. -/
theorem load_script_ends {xs : List (List Byte)} {argv envp : Nat} {argc envc : Int}
    (hd : During s₀ s [x.ino] [h.bh]) (hpos : p ≠ 0) (hblock : Block s p xs)
    (hn : argc.toNat + envc.toNat ≤ xs.length) :
    Ends (load w true x h argv envp argc envc p) s Off.Fatal
      (Done s₀ fun m sp => Image m sp (xs.take argc.toNat) ((xs.drop argc.toNat).take envc.toNat)) := by
  unfold load
  refine .then_ (brelse_ends hd) fun _ s' ⟨hd', hpage, hframe⟩ => ?_
  have hblock' := hblock.congr hpage hframe
  by_cases hgood : h.good x = true
  · rw [if_neg (not_not.2 hgood), if_pos rfl]
    exact done_ends hpos hblock' hn
  · rw [if_pos hgood]
    exact fail_ends (by decide) hd'

/-- A program that is called by itself: its arguments are those that the caller has given. -/
theorem load_ends {argv envp argc envc : Nat} (hd : During s₀ s [x.ino] [h.bh]) (hblock : Block s p [])
    (htop : p ≤ TOP) :
    Ends (load w false x h argv envp argc envc p) s Off.Fatal (Done s₀ fun m sp => ∃ as es, as.length = argc ∧
      es.length = envc ∧ Strings s₀.user (.user argv) as ∧ Strings s₀.user (.user envp) es ∧ Image m sp as es) := by
  unfold load
  refine .then_ (brelse_ends hd) fun _ s₁ ⟨hd₁, _, _⟩ => ?_
  have hblock₁ : Block s₁ p [] := ⟨hblock.top, nofun, nofun⟩
  by_cases hgood : h.good x = true
  · rw [if_neg (not_not.2 hgood), if_neg (by decide)]
    refine .then_ (copy_ends hd₁ envc (.user envp) htop) fun p₁ s₂ henv => ?_
    refine .then_ (copy_ends henv.during argc (.user argv) (Nat.le_trans henv.le htop)) fun p₂ s₃ harg => ?_
    by_cases hzero : p₂ = 0
    · rw [if_pos hzero]
      exact fail_ends (by decide) harg.during
    · rw [if_neg hzero]
      have hle := harg.le
      obtain ⟨es, hes, hesStrings, hesBlock⟩ := henv.block (by omega)
      obtain ⟨as, has, hasStrings, hasBlock⟩ := harg.block hzero
      rw [Int.toNat_natCast] at has hes
      have hall := hasBlock _ (hesBlock [] hblock₁)
      rw [List.append_nil] at hall
      have hlen : (argc : Int).toNat + (envc : Int).toNat = (as ++ es).length := by
        rw [List.length_append, has, hes, Int.toNat_natCast, Int.toNat_natCast]
      refine (done_ends hzero hall (Nat.le_of_eq hlen)).mono fun r s' ⟨hfail, hdone⟩ => ⟨hfail, fun hr => ?_⟩
      have himage := hdone hr
      rw [Int.toNat_natCast, Int.toNat_natCast, ← has, ← hes, List.take_left, List.drop_left,
        List.take_length] at himage
      exact ⟨as, es, has, hes, hasStrings, hesStrings, himage⟩
  · rw [if_pos hgood]
    exact fail_ends (by decide) hd₁

/-! ## The interpreter -/

theorem kernel_string {m : Nat → Byte} {l y : List Byte} (hl : ∀ b ∈ l, b ≠ 0) (hy : StringAt m (.kernel l) y) :
    y = l := by
  have hself : StringAt m (.kernel l) l := by
    refine ⟨fun k b hb => ⟨?_, hl b (List.mem_of_getElem? hb)⟩, ?_⟩
    · rw [Ptr.byte, List.getD_eq_getElem?_getD, hb]
      rfl
    · rw [Ptr.byte, List.getD_eq_getElem?_getD, List.getElem?_eq_none (Nat.le_refl _)]
      rfl
  exact hy.unique hself

/-- A table with one pointer. -/
theorem single_string {m : Nat → Byte} {q : Ptr} {ys : List (List Byte)} (hlen : ys.length = 1)
    (hys : Strings m (.kernel [q]) ys) : ∃ y, ys = [y] ∧ StringAt m q y := by
  obtain ⟨y, rfl⟩ := List.length_eq_one_iff.1 hlen
  obtain ⟨p, hp, -, hy⟩ := hys 0 y rfl
  refine ⟨y, rfl, ?_⟩
  have hpq : p = q := (Option.some_inj.1 hp).symm
  rw [← hpq]
  exact hy

theorem nameLoop_mem (i l : List Byte) :
    (∀ b ∈ (nameLoop i l).1, b ∈ i ∨ b ∈ l) ∧ ∀ b ∈ (nameLoop i l).2, b ∈ l := by
  induction l generalizing i with
  | nil => exact ⟨fun b hb => .inl hb, nofun⟩
  | cons c l ih =>
      rw [nameLoop]
      split
      · exact ⟨fun b hb => .inl hb, fun b hb => hb⟩
      · obtain ⟨hname, hrest⟩ := ih (if c = 0x2f then l else i)
        refine ⟨fun b hb => ?_, fun b hb => List.mem_cons_of_mem c (hrest b hb)⟩
        rcases hname b hb with hb | hb
        · split at hb
          · exact .inr (List.mem_cons_of_mem c hb)
          · exact .inl hb
        · exact .inr (List.mem_cons_of_mem c hb)

/-- There are no zeros in the line. -/
theorem scriptLine_nonzero (data : Nat → Byte) : ∀ b ∈ scriptLine (scriptBuf data), b ≠ 0 := by
  intro b hb
  have hbuf : b ∈ scriptBuf data := by
    unfold scriptLine at hb
    split at hb
    · exact (List.takeWhile_sublist _).subset ((List.dropWhile_sublist _).subset hb)
    · cases hb
  have hne : (b != 0) = true := List.all_eq_true.1 List.all_takeWhile b hbuf
  exact bne_iff_ne.1 hne

theorem parse_nonzero {cp : List Byte} (hcp : ∀ b ∈ cp, b ≠ 0) :
    (∀ b ∈ (parse cp).iName, b ≠ 0) ∧ ∀ arg ∈ (parse cp).iArg, ∀ b ∈ arg, b ≠ 0 := by
  obtain ⟨hname, hrest⟩ := nameLoop_mem cp cp
  refine ⟨fun b hb => hcp b ((hname b (List.mem_of_mem_take hb)).elim id id), fun arg harg b hb => hcp b (hrest b ?_)⟩
  unfold parse at harg
  dsimp only at harg
  cases hr : (nameLoop cp cp).2 with
  | nil =>
      rw [hr] at harg
      cases harg
  | cons c l =>
      rw [hr] at harg
      cases harg
      exact List.mem_cons_of_mem c hb

/-- The arguments that are put in front of those of the caller. -/
def spliced (data : Nat → Byte) (name : List Byte) : List (List Byte) :=
  let i := parse (scriptLine (scriptBuf data))
  i.iName :: (i.iArg.toList ++ [name])

/-- How the interpretation ends: with the interpreter, and all strings in place. -/
structure Spliced (s₀ : State) (data : Nat → Byte) (filename argv envp argc envc : Nat) (x : Inode) (p : Nat) (n : Int)
    (s' : State) : Prop where
  during : During s₀ s' [x.ino] []
  pos : p ≠ 0
  count : n = argc + (parse (scriptLine (scriptBuf data))).iArg.toList.length + 1
  block : ∃ name as es, StringAt s₀.user (.user filename) name ∧ as.length = argc - 1 ∧ es.length = envc ∧
    Strings s₀.user (.user (argv + 4)) as ∧ Strings s₀.user (.user envp) es ∧
    Block s' p (spliced data name ++ (as ++ es))

def Scripted (s₀ : State) (data : Nat → Byte) (filename argv envp argc envc : Nat) (r : Except Int (Inode × Nat × Int))
    (s' : State) : Prop :=
  match r with
  | .error retval => retval ≠ 0 ∧ During s₀ s' [] []
  | .ok r => Spliced s₀ data filename argv envp argc envc r.1 r.2.1 r.2.2 s'

/-- `if (i_arg)`. -/
theorem spliceArg_ends (hd : During s₀ s inodes buffers) {iArg : Option (List Byte)} {argc : Int}
    (hnonzero : ∀ arg ∈ iArg, ∀ b ∈ arg, b ≠ 0) (htop : p ≤ TOP) :
    Ends (spliceArg w iArg p argc) s Off.Fatal fun r s' => During s₀ s' inodes buffers ∧ r.1 ≤ p ∧
      r.2 = argc + iArg.toList.length ∧ (r.1 ≠ 0 → ∀ xs, Block s p xs → Block s' r.1 (iArg.toList ++ xs)) := by
  cases iArg with
  | none => exact .pure ⟨hd, Nat.le_refl p, (Int.add_zero argc).symm, fun _ _ hxs => hxs⟩
  | some arg =>
      have htable : TableOk (1 : Int).toNat 2 (.kernel [.kernel arg]) :=
        .kernel (Nat.le_refl 1) fun q hq => by rw [List.mem_singleton.1 hq]; rfl
      refine .then_ (copy_ends hd 1 htable htop) fun p' s' hs' => ?_
      refine .pure ⟨hs'.during, hs'.le, rfl, fun hne => ?_⟩
      obtain ⟨ys, hys, hstrings, hblock⟩ := hs'.block hne
      obtain ⟨y, rfl, hy⟩ := single_string hys hstrings
      rw [kernel_string (hnonzero arg rfl) hy] at hblock
      exact hblock

/-- **The `#!` interpretation.** -/
theorem script_ends {filename argv envp argc envc : Nat} (hd : During s₀ s [x.ino] [h.bh]) (hblock : Block s p [])
    (htop : p ≤ TOP) :
    Ends (script w x h filename argv envp argc envc p) s Off.Fatal
      (Scripted s₀ h.data filename argv envp argc envc) := by
  unfold script
  refine .then_ (brelse_ends hd) fun _ s₁ ⟨hd₁, _, _⟩ => ?_
  refine .then_ (iput_ends hd₁) fun _ s₂ ⟨hd₂, _, _⟩ => ?_
  have hblock₂ : Block s₂ p [] := ⟨hblock.top, nofun, nofun⟩
  dsimp only
  obtain ⟨hname, harg⟩ := parse_nonzero (scriptLine_nonzero h.data)
  by_cases hline : scriptLine (scriptBuf h.data) = []
  · rw [if_pos hline]
    exact .pure ⟨by decide, hd₂⟩
  · rw [if_neg hline]
    refine .then_ (copy_ends hd₂ envc (.user envp) htop) fun p₁ s₃ henv => ?_
    have htop₁ := Nat.le_trans henv.le htop
    refine .then_ (copy_ends henv.during ((argc : Int) - 1) (.user (argv + 4)) htop₁) fun p₂ s₄ hargs => ?_
    have htop₂ := Nat.le_trans hargs.le htop₁
    have hfile : TableOk (1 : Int).toNat 1 (.kernel [.user filename]) :=
      .mixed (Nat.le_refl 1) fun q hq => by rw [List.mem_singleton.1 hq]; rfl
    refine .then_ (copy_ends hargs.during 1 hfile htop₂) fun p₃ s₅ hfilename => ?_
    have htop₃ := Nat.le_trans hfilename.le htop₂
    refine .then_ (spliceArg_ends hfilename.during harg htop₃) fun r s₆ ⟨hd₆, hle₆, hargc, hblock₆⟩ => ?_
    have hkernel : TableOk (1 : Int).toNat 2 (.kernel [.kernel (parse (scriptLine (scriptBuf h.data))).iName]) :=
      .kernel (Nat.le_refl 1) fun q hq => by rw [List.mem_singleton.1 hq]; rfl
    refine .then_ (copy_ends hd₆ 1 hkernel (Nat.le_trans hle₆ htop₃)) fun p₅ s₇ hiname => ?_
    by_cases hzero : p₅ = 0
    · rw [if_pos hzero]
      exact .pure ⟨by decide, hiname.during⟩
    · rw [if_neg hzero]
      -- All strings have been copied.
      have hle₂ := hargs.le
      have hle₃ := hfilename.le
      have hle₅ := hiname.le
      obtain ⟨es, hes, hesStrings, hesBlock⟩ := henv.block (by omega)
      obtain ⟨as, has, hasStrings, hasBlock⟩ := hargs.block (by omega)
      obtain ⟨names, hnames, hnameStrings, hnameBlock⟩ := hfilename.block (by omega)
      obtain ⟨name, rfl, hfilename⟩ := single_string hnames hnameStrings
      obtain ⟨inames, hinames, hinameStrings, hinameBlock⟩ := hiname.block hzero
      obtain ⟨iname, rfl, hiname'⟩ := single_string hinames hinameStrings
      rw [kernel_string hname hiname'] at hinameBlock
      have hall := hinameBlock _ (hblock₆ (by omega) _ (hnameBlock _ (hasBlock _ (hesBlock [] hblock₂))))
      have hd₇ := hiname.during
      apply Ends.bind
      apply Ends.reads
      apply Ends.bind
      apply Ends.modify
      rw [hd₇.fs]
      have hnamei : namei w .kernel { s₇ with fs := .kernel } = .ok (w.namei s₇.lookups,
          { s₇ with
            fs := .kernel
            lookups := s₇.lookups + 1
            inodes := (w.namei s₇.lookups).elim s₇.inodes fun x => x.ino :: s₇.inodes }) := if_pos rfl
      unfold Ends
      rw [bind_ok hnamei, hd₇.inodes]
      cases hfound : w.namei s₇.lookups with
      | none =>
          exact ⟨by decide, hd₇.move ⟨hd₇.fs.symm, rfl, rfl, rfl, rfl, rfl, rfl⟩ rfl rfl rfl rfl hd₇.buffers⟩
      | some x' =>
          have hlist : spliced h.data name ++ (as ++ es) =
              [(parse (scriptLine (scriptBuf h.data))).iName] ++
                ((parse (scriptLine (scriptBuf h.data))).iArg.toList ++ ([name] ++ (as ++ (es ++ [])))) := by
            simp only [spliced, List.cons_append, List.nil_append, List.append_assoc, List.append_nil]
          rw [← hlist] at hall
          refine ⟨hd₇.move ⟨hd₇.fs.symm, rfl, rfl, rfl, rfl, rfl, rfl⟩ rfl rfl rfl rfl hd₇.buffers, hzero, ?_,
            name, as, es, hfilename, ?_, ?_, hasStrings, hesStrings, ⟨hall.top, hall.there, hall.nonzero⟩⟩
          · dsimp only
            rw [hargc]
            omega
          · omega
          · omega

/-! ## `count` -/

/-- How many pointers there are before the NULL. -/
def Counted (m : Nat → Byte) (argv n : Nat) : Prop :=
  argv = 0 ∧ n = 0 ∨ argv ≠ 0 ∧ (∀ i < n, long m (argv + 4 * i) ≠ 0) ∧ long m (argv + 4 * n) = 0

/-- What the caller gives: a table of pointers to the strings `l`, or NULL if there are none. -/
def Args (m : Nat → Byte) (argv : Nat) (l : List (List Byte)) : Prop := argv = 0 ∧ l = [] ∨ argv ≠ 0 ∧ Vector m argv l

theorem Args.strings {m : Nat → Byte} {argv : Nat} {l : List (List Byte)} (h : Args m argv l) :
    Strings m (.user argv) l := by
  rcases h with ⟨-, rfl⟩ | ⟨-, h⟩
  · exact nofun
  · exact h.strings

theorem Args.count_eq {m : Nat → Byte} {argv n : Nat} {l : List (List Byte)} (h : Args m argv l)
    (hn : Counted m argv n) : n = l.length := by
  rcases h with ⟨hnull, rfl⟩ | ⟨hne, h⟩
  · rcases hn with ⟨-, rfl⟩ | ⟨hne, -⟩
    · rfl
    · exact absurd hnull hne
  · obtain ⟨hnull, -⟩ | ⟨-, hbefore, hend⟩ := hn
    · exact absurd hnull hne
    · -- None of the pointers to the strings is NULL.
      have hptr : ∀ i < l.length, long m (argv + 4 * i) ≠ 0 := fun i hi hzero => by
        obtain ⟨q, hq, hnz, -⟩ := h.strings i _ (List.getElem?_eq_getElem hi)
        exact hnz (hq.trans (congrArg Ptr.user hzero))
      rcases Nat.lt_trichotomy n l.length with hlt | heq | hgt
      · exact absurd hend (hptr n hlt)
      · exact heq
      · exact absurd h.null (hbefore _ hgt)

theorem countLoop_ends {argv fuel i : Nat} (hfs : s.fs = .user) (hfuel : fuel + i = s.limit + 1) (hi : i ≤ s.limit)
    (hbefore : ∀ j < i, long s.user (argv + 4 * j) ≠ 0) :
    Ends (countLoop argv fuel i) s Off.Fatal fun n s' => s' = s ∧ (∀ j < n, long s.user (argv + 4 * j) ≠ 0) ∧
      long s.user (argv + 4 * n) = 0 := by
  induction fuel generalizing i with
  | zero => omega
  | succ fuel ih =>
      rw [countLoop]
      by_cases hlt : argv + 4 * i + 3 < s.limit
      · have hread : getFsLong (.user argv) i s = .ok (.user (long s.user (argv + 4 * i)), s) := by
          unfold getFsLong
          rw [hfs]
          exact if_pos hlt
        unfold Ends
        rw [bind_ok hread]
        by_cases hzero : long s.user (argv + 4 * i) = 0
        · rw [if_pos (congrArg Ptr.user hzero)]
          exact ⟨rfl, hbefore, hzero⟩
        · rw [if_neg fun heq => hzero (Ptr.user.inj heq)]
          refine ih (by omega) (by omega) fun j hj => ?_
          rcases Nat.lt_succ_iff_lt_or_eq.1 hj with hj | rfl
          · exact hbefore j hj
          · exact hzero
      · have hread : getFsLong (.user argv) i s = .error .died := by
          unfold getFsLong
          rw [hfs]
          exact if_neg hlt
        unfold Ends
        rw [bind_error hread]
        exact .inl rfl

theorem count_ends (argv : Nat) (hfs : s.fs = .user) :
    Ends (count argv) s Off.Fatal fun n s' => s' = s ∧ Counted s.user argv n := by
  unfold count
  by_cases hnull : argv = 0
  · rw [if_pos hnull]
    exact .pure ⟨rfl, .inl ⟨hnull, rfl⟩⟩
  · rw [if_neg hnull]
    apply Ends.bind
    apply Ends.reads
    exact (countLoop_ends (i := 0) hfs rfl (Nat.zero_le _) nofun).mono fun n s' ⟨hs', hn⟩ => ⟨hs', .inr ⟨hnull, hn⟩⟩

/-! ## `do_execve` -/

/-- A caller of `execve`. -/
def entry (user : Nat → Byte) (limit : Nat) (current : Current) (eip cs esp : Nat) : State where
  fs := .user
  user := user
  limit := limit
  frame := fun _ _ => 0
  page := fun _ => 0
  lookups := 0
  reads := 0
  allocs := 0
  inodes := []
  buffers := []
  frames := []
  current := current
  eip := eip
  cs := cs
  esp := esp

/-- What a program finds for the pointers that the caller has given: a script is run by its interpreter. -/
inductive Found (w : World) (m₀ : Nat → Byte) (filename argv envp : Nat) (m : Nat → Byte) (sp : Nat) : Prop where
  | program {h : Header} {as es : List (List Byte)} (bread : w.bread 0 = some h.data) (plain : h.isScript = false)
      (argc : Counted m₀ argv as.length) (envc : Counted m₀ envp es.length) (args : Strings m₀ (.user argv) as)
      (env : Strings m₀ (.user envp) es) (image : Image m sp as es)
  | script {h : Header} {n : Nat} {name : List Byte} {as es : List (List Byte)} (bread : w.bread 0 = some h.data)
      (script : h.isScript = true) (argc : Counted m₀ argv n) (envc : Counted m₀ envp es.length)
      (filename : StringAt m₀ (.user filename) name) (rest : as.length = n - 1)
      (args : Strings m₀ (.user (argv + 4)) as) (env : Strings m₀ (.user envp) es)
      -- One string less than there are, if the caller has given none.
      (image : Image m sp ((spliced h.data name ++ (as ++ es)).take ((spliced h.data name).length + n - 1))
        (((spliced h.data name ++ (as ++ es)).drop ((spliced h.data name).length + n - 1)).take es.length))

/-- The second time, with the interpreter. -/
theorem restart_ends {filename argv envp argc envc : Nat} {n : Int}
    (hs : Spliced s₀ h.data filename argv envp argc envc x p n s) (hbread : w.bread 0 = some h.data)
    (hscript : h.isScript = true) (hargc : Counted s₀.user argv argc) (henvc : Counted s₀.user envp envc) :
    Ends (header w x >>= fun r => match r with
        | .error retval => execError2 x retval
        | .ok h' => load w true x h' argv envp n envc p) s Off.Fatal
      (Done s₀ (Found w s₀.user filename argv envp)) := by
  obtain ⟨name, as, es, hname, has, hes, hasStrings, hesStrings, hblock⟩ := hs.block
  have hcount := hs.count
  have hlen : (spliced h.data name).length = (parse (scriptLine (scriptBuf h.data))).iArg.toList.length + 2 := by
    unfold spliced
    rw [List.length_cons, List.length_append, List.length_singleton]
  have hn : n.toNat = (spliced h.data name).length + argc - 1 := by omega
  have hroom : n.toNat + (envc : Int).toNat ≤ (spliced h.data name ++ (as ++ es)).length := by
    rw [List.length_append, List.length_append]
    omega
  refine .then_ (header_ends hs.during) fun r s' hr => ?_
  cases r with
  | error retval => exact fail_ends hr.2.2.1 hr.2.2.2
  | ok h' =>
      have hblock' := hblock.congr hr.1 hr.2.1
      refine (load_script_ends hr.2.2.1 hs.pos hblock' hroom).mono fun r s'' ⟨hfail, hdone⟩ => ⟨hfail, fun hzero => ?_⟩
      have himage := hdone hzero
      rw [hn, Int.toNat_natCast, ← hes] at himage
      exact .script hbread hscript hargc (hes ▸ henvc) hname has hasStrings hesStrings himage

theorem doExecve_ends {user : Nat → Byte} {limit : Nat} {current : Current} {eip cs esp filename argv envp : Nat} :
    Ends (doExecve w filename argv envp) (entry user limit current eip cs esp) Off.Fatal
      (Done (entry user limit current eip cs esp) (Found w user filename argv envp)) := by
  obtain ⟨s₀, hs₀⟩ : ∃ s₀, s₀ = entry user limit current eip cs esp := ⟨_, rfl⟩
  have huser : s₀.user = user := by rw [hs₀]; rfl
  have hstart : ∀ {n : Nat} {l : List Nat},
      During s₀ { s₀ with page := fun _ => 0, lookups := n, inodes := l } l [] := by
    intro n l
    rw [hs₀]
    refine ⟨⟨rfl, rfl, rfl, rfl, rfl, rfl, rfl⟩, rfl, rfl, rfl,
      ⟨fun f => ⟨nofun, ?_⟩, .nil, ?_, fun _ => Nat.zero_le _⟩⟩
    · rintro ⟨hne, i, -, heq⟩
      exact absurd heq.symm hne
    · exact fun i j hne => absurd rfl hne
  have hreads : s₀.reads = 0 := by rw [hs₀]; rfl
  have hfs : s₀.fs = .user := by rw [hs₀]; rfl
  have hinodes : s₀.inodes = [] := by rw [hs₀]; rfl
  have hbuffers : s₀.buffers = [] ∧ s₀.frames = [] := by rw [hs₀]; exact ⟨rfl, rfl⟩
  rw [← hs₀, ← huser]
  unfold doExecve
  apply Ends.bind
  apply Ends.reads
  split
  · exact .halt (.inr rfl)
  apply Ends.bind
  apply Ends.modify
  have hnamei : namei w .user { s₀ with page := fun _ => 0 } = .ok (w.namei s₀.lookups,
      { s₀ with
        page := fun _ => 0
        lookups := s₀.lookups + 1
        inodes := (w.namei s₀.lookups).elim s₀.inodes fun x => x.ino :: s₀.inodes }) := if_pos hfs
  unfold Ends
  rw [bind_ok hnamei, hinodes]
  cases w.namei s₀.lookups with
  | none => exact ⟨fun _ => ⟨⟨rfl, rfl, rfl, rfl, rfl, rfl, rfl⟩, rfl, hbuffers.1, hbuffers.2⟩, nofun⟩
  | some x =>
      have hd := hstart (n := s₀.lookups + 1) (l := [x.ino])
      refine (Ends.then_ (count_ends argv hd.fs) fun argc s₁ ⟨hs₁, hargc⟩ => ?_ : Ends _ _ _ _)
      subst hs₁
      refine .then_ (count_ends envp hd.fs) fun envc s₂ ⟨hs₂, henvc⟩ => ?_
      subst hs₂
      refine .then_ (header_ends hd) fun r s₃ hr => ?_
      cases r with
      | error retval => exact fail_ends hr.2.2.1 hr.2.2.2
      | ok h =>
          have hbread : w.bread 0 = some h.data := by
            have hread := hr.2.2.2
            rw [hreads] at hread
            exact hread
          have hblock : Block s₃ (PAGE_SIZE * MAX_ARG_PAGES - 4) [] := ⟨rfl, nofun, nofun⟩
          dsimp only at hargc henvc ⊢
          cases hscript : h.isScript with
          | false =>
              rw [if_neg nofun]
              refine (load_ends hr.2.2.1 hblock (by decide)).mono fun r s' ⟨hfail, hdone⟩ => ⟨hfail, fun hzero => ?_⟩
              obtain ⟨as, es, has, hes, hasStrings, hesStrings, himage⟩ := hdone hzero
              exact .program hbread hscript (has ▸ hargc) (hes ▸ henvc) hasStrings hesStrings himage
          | true =>
              rw [if_pos rfl]
              refine .then_ (script_ends hr.2.2.1 hblock (by decide)) fun r s₄ hs₄ => ?_
              cases r with
              | error retval =>
                  exact (execError1_ends hs₄.2).mono fun r s' ⟨heq, hs'⟩ =>
                    ⟨fun _ => hs', fun hzero => absurd (heq.symm.trans hzero) hs₄.1⟩
              | ok r =>
                  exact restart_ends hs₄ hbread hscript hargc henvc

/-- **A call that fails leaves nothing behind**, and the caller is as it was. -/
theorem failed_exec_invisible (w : World) (user : Nat → Byte) (limit : Nat) (current : Current)
    (eip cs esp filename argv envp : Nat) :
    Ends (doExecve w filename argv envp) (entry user limit current eip cs esp) Off.Fatal fun r s' =>
      r ≠ 0 → Untouched (entry user limit current eip cs esp) s' :=
  doExecve_ends.mono fun _ _ hdone => hdone.1

/-! ## What the program finds -/

/-- The script to be executed, if it is one. -/
def World.script (w : World) : Option (Nat → Byte) :=
  (w.bread 0).filter fun data => data 0 == 0x23 && data 1 == 0x21

/-- The arguments that the program should find. -/
def World.arguments (w : World) (name : List Byte) (as : List (List Byte)) : List (List Byte) :=
  match w.script with
  | none => as
  | some data => spliced data name ++ as.tail

theorem Strings.tail {m : Nat → Byte} {a : Nat} {l : List (List Byte)} (h : Strings m (.user a) l) :
    Strings m (.user (a + 4)) l.tail := by
  intro i x hx
  rw [List.getElem?_tail] at hx
  obtain ⟨q, hq, hne, hx⟩ := h (i + 1) x hx
  refine ⟨q, hq.trans ?_, hne, hx⟩
  rw [Nat.mul_succ, Nat.add_comm (4 * i), Nat.add_assoc]

theorem Found.image_iff {m₀ m : Nat → Byte} {filename argv envp sp : Nat} {name : List Byte} {as es : List (List Byte)}
    (h : Found w m₀ filename argv envp m sp) (hname : StringAt m₀ (.user filename) name) (hargs : Args m₀ argv as)
    (henv : Args m₀ envp es) : Image m sp (w.arguments name as) es ↔ w.script = none ∨ as ≠ [] := by
  cases h with
  | @program h as' es' hbread hplain hargc henvc has hes himage =>
      have hscript : w.script = none := by
        unfold World.script
        rw [hbread]
        exact if_neg fun heq => Bool.false_ne_true (hplain.symm.trans heq)
      have has' := has.unique hargs.strings (hargs.count_eq hargc)
      have hes' := hes.unique henv.strings (henv.count_eq henvc)
      subst has' hes'
      unfold World.arguments
      rw [hscript]
      exact ⟨fun _ => .inl rfl, fun _ => himage⟩
  | @script h n name' as' es' hbread hscript hargc henvc hname' hrest has hes himage =>
      have hscript' : w.script = some h.data := by
        unfold World.script
        rw [hbread]
        exact if_pos hscript
      have hn := hargs.count_eq hargc
      have hname := hname'.unique hname
      have hlen : as'.length = as.tail.length := by
        rw [hrest, hn, List.length_tail]
      have has' := has.unique hargs.strings.tail hlen
      have hes' := hes.unique henv.strings (henv.count_eq henvc)
      subst hn hname has' hes'
      unfold World.arguments
      rw [hscript']
      dsimp only
      constructor
      · rintro himage'
        refine .inr fun hnil => ?_
        -- The number that the program finds is one too small.
        have hargc := himage.argc.symm.trans himage'.argc
        rw [hnil, List.tail_nil, List.nil_append, List.append_nil, List.length_take, List.length_append,
          List.length_nil] at hargc
        have hpos : (spliced h.data name').length ≠ 0 := Nat.succ_ne_zero _
        omega
      · rintro (hnone | hne)
        · cases hnone
        · have htake : (spliced h.data name').length + as.length - 1 = (spliced h.data name' ++ as.tail).length := by
            have hpos := List.length_pos_iff.2 hne
            rw [List.length_append, List.length_tail]
            omega
          rw [htake, ← List.append_assoc, List.take_left, List.drop_left, List.take_length] at himage
          exact himage

/-- **The program finds the strings that the caller has given**, but for a script that is called without arguments:
there `argc` becomes negative before the interpreter's own arguments are counted, and one of them is lost. -/
theorem exec_image_iff {user : Nat → Byte} {limit : Nat} {current : Current} {eip cs esp filename argv envp : Nat}
    {name : List Byte} {as es : List (List Byte)} {s' : State} (hname : StringAt user (.user filename) name)
    (hargs : Args user argv as) (henv : Args user envp es)
    (hrun : doExecve w filename argv envp (entry user limit current eip cs esp) = .ok (0, s')) :
    Image s'.user s'.esp (w.arguments name as) es ↔ w.script = none ∨ as ≠ [] :=
  ((doExecve_ends.ok_of hrun).2 rfl).image_iff hname hargs henv

/-! ### Two programs -/

/-- A machine with enough memory, where these headers are read one after the other. -/
def machine (headers : List (List Byte)) : World where
  namei := fun _ => some ⟨1, 0o100755, 0, 0, 4096⟩
  bread := fun i => headers[i]?.map fun l k => l.getD k 0
  memory := fun _ => true
  fresh := fun _ => 0

/-- The super-user, with the string "a" at 1 and a table of arguments at 8. -/
def root : State :=
  entry (fun a => if a = 1 then 0x61 else if a = 8 then 1 else 0) 64
    ⟨none, 0, 0, fun _ => ⟨0, 0, 0⟩, fun _ => none, 0, false, 0, 0, 0, 0, 0, 0, 0, 0, [], false⟩ 0 0x0f 0

def succeeds (r : Except Off (Int × State)) : Bool := r.toOption.any fun r => r.1 == 0

theorem of_succeeds {r : Except Off (Int × State)} (h : succeeds r = true) : ∃ s', r = .ok (0, s') := by
  cases r with
  | error e => cases h
  | ok r =>
      have hzero : r.1 = 0 := beq_iff_eq.1 h
      exact ⟨r.2, congrArg Except.ok (Prod.ext hzero rfl)⟩

theorem root_name : StringAt root.user (.user 1) [0x61] := by
  refine ⟨fun k b hb => ?_, rfl⟩
  match k, hb with
  | 0, rfl => exact ⟨rfl, by decide⟩

/-- A program with one argument. -/
theorem exec_image_program : ∃ s', doExecve (machine [[0x0b, 0x01]]) 1 8 0 root = .ok (0, s') ∧
    Image s'.user s'.esp [[0x61]] [] := by
  obtain ⟨s', hrun⟩ := of_succeeds (r := doExecve (machine [[0x0b, 0x01]]) 1 8 0 root) (by decide +kernel)
  have hargs : Args root.user 8 [[0x61]] := by
    refine .inr ⟨by decide, ⟨fun i x hx => ?_, rfl⟩⟩
    match i, hx with
    | 0, rfl => exact ⟨.user 1, rfl, by decide, root_name⟩
  exact ⟨s', hrun, (exec_image_iff root_name hargs (.inl ⟨rfl, rfl⟩) hrun).2 (.inl rfl)⟩

/-- **A script that is called without arguments** does not find its own name. -/
theorem script_without_arguments :
    ∃ s', doExecve (machine [[0x23, 0x21, 0x62, 0x0a], [0x0b, 0x01]]) 1 0 0 root = .ok (0, s') ∧
      ¬ Image s'.user s'.esp [[0x62], [0x61]] [] := by
  obtain ⟨s', hrun⟩ := of_succeeds (r := doExecve (machine [[0x23, 0x21, 0x62, 0x0a], [0x0b, 0x01]]) 1 0 0 root)
    (by decide +kernel)
  have hnone : Args root.user 0 [] := .inl ⟨rfl, rfl⟩
  have hiff := ((doExecve_ends.ok_of hrun).2 rfl).image_iff root_name hnone hnone
  refine ⟨s', hrun, fun himage => ?_⟩
  rcases hiff.1 himage with hnone | hne
  · exact absurd hnone nofun
  · exact hne rfl

end

end Exec
end Fs
end Linux095
