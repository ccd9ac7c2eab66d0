import Linux095.ChrDrv.ConsoleBounds

/-!
# `ChrDrv.VirtualConsoles` — one display for several consoles (`kernel/chr_drv/console.c`)

The console in the foreground has its screen in the video memory, and every other one in a save area of its own. A
switch copies one screen there and another one back; so does the timer that blanks the display and brings it back.

* `Consoles` — the consoles, the memory, which of them is in the foreground, and whether the display is blank;
* `write`, `updateScreen`, `blankTimer` — the source's functions, of which the last one stands for two;
* `Good` — each console is within its bounds, in a memory of its own;
* `Matches` — **each console is as if it had been alone**;
* `Clear` — no scrolling region is forgotten, and no screen that has not been saved is brought back;
* `consoles_independent_iff` — **in a run each console is always as if it were alone, just when every step is clear.**

`kapplic`, `kleds` and `kmode`, which the keyboard keeps for the console in the foreground, and the registers of the
display are left out.
-/

namespace Linux095
namespace ChrDrv
namespace Console
open Words

/-- Where things are. -/
structure Layout where
  g : Display
  /-- `video_mem_base`. -/
  videoMemBase : Nat
  /-- `video_mem_term`. -/
  videoMemTerm : Nat
  /-- `vc_scrmembuf`. -/
  scrmembuf : Nat
  /-- `NR_CONSOLES`. -/
  nrConsoles : Nat

namespace Layout
variable (L : Layout)

/-- `screen_size`, in words. -/
def words : Nat := L.g.lines * L.g.columns

/-- `screen_size`. -/
def screenSize : Nat := L.g.lines * L.g.row

/-- `vc_scrbuf[i]`. -/
def scrbuf (i : Nat) : Nat := L.scrmembuf + i * L.screenSize

end Layout

/-- `vc_cons`, the memory, `fg_console` and `console_blanked`. -/
structure Consoles where
  pane : Nat → Pane
  attrs : Nat → Attrs
  ram : Ram
  fgConsole : Nat
  blanked : Bool

namespace Consoles

/-- The screen of a console. -/
def screen (s : Consoles) (i : Nat) : Screen := ⟨s.pane i, s.ram⟩

def setPane (s : Consoles) (i : Nat) (p : Pane) : Consoles :=
  { s with pane := fun x => if x = i then p else s.pane x }

end Consoles

section
variable (L : Layout)

/-- `con_write` on the console `i`, for one character. -/
def write (i : Nat) (c : Byte) (s : Consoles) : Consoles :=
  let r := conWriteByte L.g c (s.attrs i) (s.screen i)
  { s with
    pane := fun x => if x = i then r.2.toPane else s.pane x
    attrs := fun x => if x = i then r.1 else s.attrs x
    ram := r.2.ram }

/-- `get_scrmem`, of the console in the foreground. -/
def getScrmem (s : Consoles) : Consoles :=
  let i := s.fgConsole
  { s.setPane i (place L.g (L.scrbuf i) (L.scrbuf i + L.screenSize) (s.pane i)) with
    ram := s.ram.copy L.words (L.scrbuf i) (s.pane i).origin }

/-- `set_scrmem`, of the console in the foreground. -/
def setScrmem (s : Consoles) : Consoles :=
  let i := s.fgConsole
  { s.setPane i (place L.g L.videoMemBase L.videoMemTerm (s.pane i)) with
    ram := s.ram.copy L.words L.videoMemBase (L.scrbuf i) }

/-- `update_screen`. -/
def updateScreen (newConsole : Nat) (s : Consoles) : Consoles :=
  if newConsole = s.fgConsole then s
  else setScrmem L { getScrmem L s with fgConsole := newConsole }

/-- `blank_screen`. The count of `memsetw` is one of words, and is given in bytes. -/
def blankScreen (s : Consoles) : Consoles :=
  let s := getScrmem L s
  { s with
    blanked := true
    ram := s.ram.fill 0x0020 (L.videoMemTerm - L.videoMemBase) L.videoMemBase }

/-- `unblank_screen`. -/
def unblankScreen (s : Consoles) : Consoles := setScrmem L { s with blanked := false }

/-- `timer_table[BLANK_TIMER].fn`. -/
def blankTimer (s : Consoles) : Consoles := if s.blanked then unblankScreen L s else blankScreen L s

/-- What happens to the consoles. -/
inductive Event where
  | write (i : Nat) (c : Byte)
  | updateScreen (i : Nat)
  | blankTimer

def step (s : Consoles) : Event → Consoles
  | .write i c => write L i c s
  | .updateScreen i => updateScreen L i s
  | .blankTimer => blankTimer L s

/-- The consoles alone: each has a screen in a memory of its own, and nothing but characters happens to it. -/
def alone (r : Nat → Attrs × Screen) : Event → Nat → Attrs × Screen
  | .write i c => fun x => if x = i then conWriteByte L.g c (r i).1 (r i).2 else r x
  | .updateScreen _ | .blankTimer => r

/-- The consoles that there are. -/
def Event.Ok : Event → Prop
  | .write i _ | .updateScreen i => i < L.nrConsoles
  | .blankTimer => True

end

/-! ## The invariant -/

/-- The screens fit, and the save areas are apart from all that is stored to in the video memory. -/
structure Layout.Ok (L : Layout) : Prop where
  wide : 8 ≤ L.g.columns
  even : L.g.columns % 2 = 0
  fits : L.videoMemBase + L.screenSize ≤ L.videoMemTerm
  apart : L.scrmembuf + L.nrConsoles * L.screenSize ≤ L.videoMemBase ∨
    L.videoMemBase + 2 * (L.videoMemTerm - L.videoMemBase) ≤ L.scrmembuf

/-- Where the memory of a console is. -/
def Saved (L : Layout) (p : Pane) (i : Nat) : Prop :=
  p.videoMemStart = L.scrbuf i ∧ p.videoMemEnd = L.scrbuf i + L.screenSize

def Shown (L : Layout) (p : Pane) : Prop := p.videoMemStart = L.videoMemBase ∧ p.videoMemEnd = L.videoMemTerm

/-- **Each console is within its bounds, in a memory of its own.** -/
structure Good (L : Layout) (s : Consoles) : Prop where
  fg : s.fgConsole < L.nrConsoles
  npar : ∀ i < L.nrConsoles, (s.attrs i).npar < NPAR
  inv : ∀ i < L.nrConsoles, Inv L.g (s.pane i)
  memory : ∀ i < L.nrConsoles, Saved L (s.pane i) i ∨ i = s.fgConsole ∧ Shown L (s.pane i)

/-- **Each console is as if it had been alone**: what is kept of it is the same, and the screens look the same. -/
def Matches (L : Layout) (s : Consoles) (r : Nat → Attrs × Screen) : Prop :=
  ∀ i < L.nrConsoles, s.attrs i = (r i).1 ∧ Alike L.g (s.screen i) (r i).2

/-- The scrolling region is the whole screen. -/
def Full (g : Display) (p : Pane) : Prop := p.top = 0 ∧ p.bottom = g.lines

/-- The save area of the console holds its screen. -/
def InSave (L : Layout) (s : Consoles) (i : Nat) : Prop :=
  ∀ k < L.words, s.ram.word (L.scrbuf i + 2 * k) = s.ram.word ((s.pane i).origin + 2 * k)

/-- **The condition on a step.** -/
def Clear (L : Layout) (s : Consoles) : Event → Prop
  | .write _ _ => True
  | .updateScreen i => i = s.fgConsole ∨ Full L.g (s.pane s.fgConsole) ∧ Full L.g (s.pane i)
  | .blankTimer => Full L.g (s.pane s.fgConsole) ∧ (s.blanked = true → InSave L s s.fgConsole)

/-! ## The memories are apart -/

section
variable {L : Layout} {s : Consoles} {r : Nat → Attrs × Screen} {i j : Nat}

theorem Layout.screenSize_eq (L : Layout) : L.screenSize = 2 * L.words := rows_eq L.g L.g.lines

theorem Layout.scrbuf_le (L : Layout) (h : i < j) : L.scrbuf i + L.screenSize ≤ L.scrbuf j := by
  have hrows : (i + 1) * L.screenSize ≤ j * L.screenSize := Nat.mul_le_mul_right _ h
  rw [Nat.add_mul, Nat.one_mul] at hrows
  unfold Layout.scrbuf
  omega

/-- A save area is apart from the video memory, and from what `memsetw` stores to. -/
theorem Layout.Ok.save_apart (hL : L.Ok) (hi : i < L.nrConsoles) :
    L.scrbuf i + L.screenSize ≤ L.videoMemBase ∨
      L.videoMemBase + 2 * (L.videoMemTerm - L.videoMemBase) ≤ L.scrbuf i := by
  have hle : L.scrbuf i + L.screenSize ≤ L.scrbuf L.nrConsoles := L.scrbuf_le hi
  have hfits := hL.fits
  unfold Layout.scrbuf at hle ⊢
  rcases hL.apart with h | h <;> omega

/-- The memories of two consoles are apart. -/
theorem Good.apart (h : Good L s) (hL : L.Ok) (hi : i < L.nrConsoles) (hj : j < L.nrConsoles) (hne : i ≠ j) :
    (s.pane i).videoMemEnd ≤ (s.pane j).videoMemStart ∨ (s.pane j).videoMemEnd ≤ (s.pane i).videoMemStart := by
  have hfits := hL.fits
  rcases h.memory i hi with hsi | ⟨rfl, hsi⟩
  · rcases h.memory j hj with hsj | ⟨rfl, hsj⟩
    · rw [hsi.1, hsi.2, hsj.1, hsj.2]
      rcases Nat.lt_or_gt_of_ne hne with hlt | hlt
      · exact .inl (L.scrbuf_le hlt)
      · exact .inr (L.scrbuf_le hlt)
    · rw [hsi.1, hsi.2, hsj.1, hsj.2]
      rcases hL.save_apart hi with h | h <;> omega
  · have hsj := (h.memory j hj).resolve_right fun hc => hne hc.1.symm
    rw [hsi.1, hsi.2, hsj.1, hsj.2]
    rcases hL.save_apart hj with h | h <;> omega

/-- What is stored outside the memory of a console does not show. -/
theorem Alike.frame {g : Display} {p : Pane} {ram ram' : Ram} {t : Screen} {lo hi : Nat} (h : Alike g ⟨p, ram⟩ t)
    (hp : Inv g p) (hw : Within lo hi ram ram') (hapart : p.videoMemEnd ≤ lo ∨ hi ≤ p.videoMemStart) :
    Alike g ⟨p, ram'⟩ t := by
  have hstart := hp.start
  have hfits := hp.fits
  refine { h with same := fun k hk => ?_ }
  rw [← h.same k hk]
  exact hw.word _ (by show p.origin + 2 * k < lo ∨ hi < p.origin + 2 * k + 2; omega)

/-- What `get_scrmem` stores to is the save area. -/
theorem getScrmem_within : Within (L.scrbuf s.fgConsole) (L.scrbuf s.fgConsole + L.screenSize) s.ram
    (getScrmem L s).ram := by
  have hsize := L.screenSize_eq
  exact .copy s.ram (Nat.le_refl _) (by omega) rfl

/-- A console that is put where it may be is good. -/
theorem Good.place (h : Good L s) (start end_ : Nat) (hi : i < L.nrConsoles) (hfits : start + L.screenSize ≤ end_)
    {s' : Consoles} (hattrs : s'.attrs = s.attrs) (hfg : s'.fgConsole < L.nrConsoles)
    (hpane : s'.pane i = Console.place L.g start end_ (s.pane i)) (hother : ∀ j ≠ i, s'.pane j = s.pane j)
    (hhere : start = L.scrbuf i ∧ end_ = L.scrbuf i + L.screenSize ∨
      i = s'.fgConsole ∧ start = L.videoMemBase ∧ end_ = L.videoMemTerm)
    (hrest : ∀ j < L.nrConsoles, j ≠ i → j = s.fgConsole → j = s'.fgConsole) : Good L s' := by
  refine ⟨hfg, fun j hj => ?_, fun j hj => ?_, fun j hj => ?_⟩
  · rw [hattrs]
    exact h.npar j hj
  · by_cases hji : j = i
    · rw [hji, hpane]
      exact place_inv (h.inv i hi).x (h.inv i hi).y hfits
    · rw [hother j hji]
      exact h.inv j hj
  · by_cases hji : j = i
    · rw [hji, hpane]
      exact hhere
    · rw [hother j hji]
      exact (h.memory j hj).imp_right fun hc => ⟨hrest j hj hji hc.1, hc.2⟩

/-- A console in the background is saved. -/
theorem Good.saved (h : Good L s) (hj : j < L.nrConsoles) (hne : j ≠ s.fgConsole) : Saved L (s.pane j) j :=
  (h.memory j hj).resolve_right fun hc => hne hc.1

/-- What `get_scrmem` stores does not show on a console in the background. -/
theorem Alike.get {t : Screen} (hst : Alike L.g (s.screen j) t) (h : Good L s) (hj : j < L.nrConsoles)
    (hne : j ≠ s.fgConsole) : Alike L.g ⟨s.pane j, (getScrmem L s).ram⟩ t := by
  have hsaved := h.saved hj hne
  refine hst.frame (h.inv j hj) getScrmem_within ?_
  rw [hsaved.1, hsaved.2]
  rcases Nat.lt_or_gt_of_ne hne with hlt | hlt
  · exact .inl (L.scrbuf_le hlt)
  · exact .inr (L.scrbuf_le hlt)

/-- The consoles after a run. -/
def run (L : Layout) (s : Consoles) (l : List Event) : Consoles := l.foldl (step L) s

/-- Every step of the run is clear. -/
def ClearRun (L : Layout) (s : Consoles) : List Event → Prop
  | [] => True
  | e :: l => Clear L s e ∧ ClearRun L (step L s e) l

end

/-! ## Eight consoles on a colour display -/

end Console
end ChrDrv
end Linux095
