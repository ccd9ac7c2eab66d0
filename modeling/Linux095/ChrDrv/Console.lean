import Linux095.ChrDrv.Tty
import Linux095.Words.Ram
import Mathlib.Logic.Function.Iterate

/-!
# `ChrDrv.Console` — what `con_write` draws (`kernel/chr_drv/console.c`)

A console has a piece of video memory, and a screen somewhere in it: `origin` is where the screen begins, and the
position of the cursor is kept twice, as `x` and `y` and as an address. On an EGA the screen is scrolled by moving
`origin` on.

* `Pane`, `Attrs` — what is kept of a console: where it is in memory, and the rest;
* `scrup`, `scrdown`, …, `csim` — the source's functions;
* `conWriteByte` — what `con_write` does with a character.

What the console does to its terminal (the answer to ESC Z, the `termios` of ESC c), the registers of the display
and the timers are left out. A word of the screen is stored at once here, and a character byte by byte in the source.
-/

namespace Linux095
namespace ChrDrv
namespace Console
open Words

/-! ## Data model -/

/-- The display. `video_size_row` is twice the number of the columns. -/
structure Display where
  /-- `video_num_columns`. -/
  columns : Nat
  /-- `video_num_lines`. -/
  lines : Nat
  /-- `video_type` is one of the two that can scroll by `origin`. -/
  ega : Bool
  canDoColour : Bool

/-- `video_size_row`. -/
def Display.row (g : Display) : Nat := g.columns * 2

/-- Where a console is. -/
structure Pane where
  origin : Nat
  scrEnd : Nat
  pos : Nat
  x : Nat
  y : Nat
  top : Nat
  bottom : Nat
  videoMemStart : Nat
  videoMemEnd : Nat

/-- A console and the memory. -/
structure Screen extends Pane where
  ram : Ram

/-- `translations`. -/
inductive Trans where
  | norm
  | graf
  deriving DecidableEq

def NORM_TRANS : List Nat := List.range' 32 95 ++ [32]

def GRAF_TRANS : List Nat :=
  [32, 33, 34, 35, 36, 37, 38, 39, 40, 41, 42, 43, 44, 45, 46, 47, 0o333, 49, 50, 51, 52, 53, 54, 55, 56, 57, 58, 59,
    60, 61, 62, 63, 64, 65, 66, 67, 68, 69, 70, 71, 72, 0o17, 74, 75, 76, 77, 78, 79, 80, 81, 82, 83, 84, 85, 86, 87,
    88, 89, 90, 91, 92, 93, 94, 32, 0o4, 0o261, 0o7, 0o7, 0o7, 0o7, 0o370, 0o361, 0o40, 0o7, 0o331, 0o277, 0o332,
    0o300, 0o305, 0o7, 0o7, 0o304, 0o7, 0o7, 0o303, 0o264, 0o301, 0o302, 0o263, 0o7, 0o7, 0o7, 0o7, 0o7, 0o234, 32]

/-- `translate[c-32]`. -/
def Trans.glyph (t : Trans) (c : Byte) : Byte :=
  BitVec.ofNat 8 ((match t with | .norm => NORM_TRANS | .graf => GRAF_TRANS).getD (c.toNat - 32) 0)

/-- The rest of an entry of `vc_cons`, without what only the keyboard uses. -/
structure Attrs where
  videoEraseChar : Word
  attr : Byte
  defAttr : Byte
  /-- `vc_bold_attr`. -/
  boldAttr : BitVec 32
  ques : Bool
  state : Es
  restate : Trans
  checkin : Bool
  npar : Nat
  par : Nat → BitVec 32
  savedX : BitVec 32
  savedY : BitVec 32
  iscolor : Bool
  kbdapplic : Bool
  translate : Trans

section
variable (g : Display)

/-! ## The cursor -/

/-- `gotoxy`. -/
def gotoxy (newX newY : BitVec 32) (s : Screen) : Screen :=
  if newX.toNat > g.columns ∨ newY.toNat ≥ g.lines then s
  else
    { s with
      x := newX.toNat
      y := newY.toNat
      pos := s.origin + newY.toNat * g.row + newX.toNat * 2 }

/-- `cr`. -/
def cr (s : Screen) : Screen := { s with pos := s.pos - s.x * 2, x := 0 }

/-- `save_cur`. -/
def saveCur (s : Screen) (a : Attrs) : Attrs := { a with savedX := BitVec.ofNat 32 s.x, savedY := BitVec.ofNat 32 s.y }

/-- The console is put at the start of a piece of memory, as `con_init`, `get_scrmem` and `set_scrmem` do it. -/
def place (start end_ : Nat) (p : Pane) : Pane :=
  { p with
    videoMemStart := start
    videoMemEnd := end_
    origin := start
    scrEnd := start + g.lines * g.row
    top := 0
    bottom := g.lines
    pos := start + p.y * g.row + p.x * 2 }

/-! ## Scrolling -/

/-- The lines that `scrup` and `scrdown` move, from `top` to `bottom`. -/
def region (s : Screen) : Nat × Nat :=
  let top := if s.y < s.top then 0 else if s.y > s.bottom then s.y else s.top
  let bottom := if s.y < s.top then s.y + 1 else if s.y > s.bottom then g.lines else s.bottom
  (if top > g.lines then 0 else top, if bottom > g.lines then g.lines else bottom)

/-- The lines between are moved up, and the last one is erased. -/
def moveUp (erase : Word) (top bottom : Nat) (s : Screen) : Screen :=
  let count := (bottom - top - 1) * g.columns / 2
  let dst := s.origin + g.row * top
  { s with ram := (s.ram.move count dst (s.origin + g.row * (top + 1))).fill erase g.columns (dst + 4 * count) }

/-- The screen is moved on in the memory, and back to its start where that ends. -/
def moveOrigin (erase : Word) (s : Screen) : Screen :=
  let origin := s.origin + g.row
  let pos := s.pos + g.row
  let scrEnd := s.scrEnd + g.row
  if scrEnd > s.videoMemEnd then
    let count := (g.lines - 1) * g.columns / 2
    { s with
      origin := s.videoMemStart
      pos := pos - (origin - s.videoMemStart)
      scrEnd := scrEnd - (origin - s.videoMemStart)
      ram := (s.ram.move count s.videoMemStart origin).fill erase g.columns (s.videoMemStart + 4 * count) }
  else
    { s with
      origin := origin
      pos := pos
      scrEnd := scrEnd
      ram := s.ram.fill erase g.columns (scrEnd - g.row) }

/-- `scrup`. -/
def scrup (erase : Word) (s : Screen) : Screen :=
  let (top, bottom) := region g s
  if bottom ≤ top then s
  else if g.ega ∧ top = 0 ∧ bottom = g.lines then moveOrigin g erase s
  else moveUp g erase top bottom s

/-- `scrdown`. -/
def scrdown (erase : Word) (s : Screen) : Screen :=
  let (top, bottom) := region g s
  if bottom ≤ top then s
  else
    let count := (bottom - top - 1) * g.columns / 2
    let dst := s.origin + g.row * bottom - 4
    { s with
      ram := (s.ram.moveDown count dst (s.origin + g.row * (bottom - 1) - 4)).fillDown erase g.columns
        (dst - 4 * count + 2) }

/-- `lf`. -/
def lf (erase : Word) (s : Screen) : Screen :=
  if s.y + 1 < s.bottom then { s with y := s.y + 1, pos := s.pos + g.row } else scrup g erase s

/-- `ri`. -/
def ri (erase : Word) (s : Screen) : Screen :=
  if s.y > s.top then { s with y := s.y - 1, pos := s.pos - g.row } else scrdown g erase s

/-! ## Single characters -/

/-- The beginning of the next line, for a cursor that is past the end of its own. -/
def wrap (erase : Word) (s : Screen) : Screen :=
  lf g erase { s with x := s.x - g.columns, pos := s.pos - g.row }

/-- A character is put on the screen. -/
def putChar (erase w : Word) (s : Screen) : Screen :=
  let s := if s.x ≥ g.columns then wrap g erase s else s
  { s with ram := s.ram.poke s.pos w, pos := s.pos + 2, x := s.x + 1 }

/-- BS. -/
def bs (s : Screen) : Screen := if s.x ≠ 0 then { s with x := s.x - 1, pos := s.pos - 2 } else s

/-- `del`. -/
def del (erase : Word) (s : Screen) : Screen :=
  if s.x ≠ 0 then { s with pos := s.pos - 2, x := s.x - 1, ram := s.ram.poke (s.pos - 2) erase } else s

/-- HT. -/
def tab (erase : Word) (s : Screen) : Screen :=
  let c := 8 - s.x % 8
  let s := { s with x := s.x + c, pos := s.pos + c * 2 }
  if s.x > g.columns then wrap g erase s else s

/-! ## Erasing, inserting and deleting -/

/-- `csi_J`. -/
def csiJ (erase : Word) (vpar : BitVec 32) (s : Screen) : Screen :=
  if vpar = 0 then { s with ram := s.ram.fill erase ((s.scrEnd - s.pos) / 2) s.pos }
  else if vpar = 1 then { s with ram := s.ram.fill erase ((s.pos - s.origin) / 2) s.origin }
  else if vpar = 2 then { s with ram := s.ram.fill erase (g.columns * g.lines) s.origin }
  else s

/-- `csi_K`. -/
def csiK (erase : Word) (vpar : BitVec 32) (s : Screen) : Screen :=
  if vpar = 0 then
    if s.x ≥ g.columns then s else { s with ram := s.ram.fill erase (g.columns - s.x) s.pos }
  else if vpar = 1 then
    { s with ram := s.ram.fill erase (if s.x < g.columns then s.x else g.columns) (s.pos - s.x * 2) }
  else if vpar = 2 then { s with ram := s.ram.fill erase g.columns (s.pos - s.x * 2) }
  else s

/-- The loop of `insert_char`; `old` is what the word at `p` is replaced by. -/
def insertLoop : Nat → Nat → Word → Ram → Ram
  | 0, _, _, r => r
  | n + 1, p, old, r => insertLoop n (p + 2) (r.word p) (r.poke p old)

/-- `insert_char`. -/
def insertChar (erase : Word) (s : Screen) : Screen :=
  { s with ram := insertLoop (g.columns - s.x) s.pos erase s.ram }

/-- The loop of `delete_char`. -/
def deleteLoop (erase : Word) : Nat → Nat → Ram → Ram
  | 0, p, r => r.poke p erase
  | n + 1, p, r => deleteLoop erase n (p + 2) (r.poke p (r.word (p + 2)))

/-- `delete_char`. -/
def deleteChar (erase : Word) (s : Screen) : Screen :=
  if s.x ≥ g.columns then s else { s with ram := deleteLoop erase (g.columns - s.x - 1) s.pos s.ram }

/-- For `insert_line` and `delete_line`, the lines from the cursor on are scrolled. -/
def below (f : Screen → Screen) (s : Screen) : Screen :=
  { f { s with top := s.y, bottom := g.lines } with top := s.top, bottom := s.bottom }

/-- `insert_line`. -/
def insertLine (erase : Word) : Screen → Screen := below g (scrdown g erase)

/-- `delete_line`. -/
def deleteLine (erase : Word) : Screen → Screen := below g (scrup g erase)

/-- `nr` times, but once for 0, and not more often than `most`. -/
def times (most : Nat) (nr : BitVec 32) (f : Screen → Screen) : Screen → Screen :=
  f^[if nr.toNat > most then most else if nr = 0 then 1 else nr.toNat]

/-- `csi_at`. -/
def csiAt (erase : Word) (nr : BitVec 32) : Screen → Screen := times g.columns nr (insertChar g erase)
/-- `csi_L`. -/
def csiL (erase : Word) (nr : BitVec 32) : Screen → Screen := times g.lines nr (insertLine g erase)
/-- `csi_P`. -/
def csiP (erase : Word) (nr : BitVec 32) : Screen → Screen := times g.columns nr (deleteChar g erase)
/-- `csi_M`. -/
def csiM (erase : Word) (nr : BitVec 32) : Screen → Screen := times g.lines nr (deleteLine g erase)

/-! ## Attributes -/

/-- `conv_table`. -/
def CONV_TABLE : List Nat := [0, 4, 2, 6, 1, 5, 3, 7]

/-- An entry of `conv_table`. -/
def conv (i : BitVec 32) : Byte := BitVec.ofNat 8 (CONV_TABLE.getD i.toNat 0)

/-- `case 4` of `csi_m`. -/
def underline (a : Attrs) : Byte :=
  if a.iscolor = false then a.attr ||| 0x01
  else if a.boldAttr ≠ -1 then (a.boldAttr.setWidth 8 &&& 0x0f) ||| (0xf0 &&& a.attr)
  else
    let newattr := (a.attr &&& 0xf0) ||| (0xf &&& ~~~a.attr)
    if newattr &&& 0xf = (a.attr >>> 4) &&& 0xf then (a.attr &&& 0xf0) ||| (((a.attr &&& 0xf) + 1) % 0xf) else newattr

/-- The body of the loop of `csi_m`. -/
def setAttr (p : BitVec 32) (a : Attrs) : Attrs :=
  match p.toNat with
  | 0 => { a with attr := a.defAttr }
  | 1 => { a with attr := if a.iscolor then a.attr ||| 0x08 else a.attr ||| 0x0f }
  | 4 => { a with attr := underline a }
  | 5 => { a with attr := a.attr ||| 0x80 }
  | 7 => { a with attr := (a.attr <<< 4) ||| (a.attr >>> 4) }
  | 22 => { a with attr := a.attr &&& 0xf7 }
  | 24 => { a with attr := a.attr &&& 0xfe }
  | 25 => { a with attr := a.attr &&& 0x7f }
  | 27 => { a with attr := a.defAttr }
  | 39 => { a with attr := (a.attr &&& 0xf0) ||| (a.defAttr &&& 0x0f) }
  | 49 => { a with attr := (a.attr &&& 0x0f) ||| (a.defAttr &&& 0xf0) }
  | _ =>
      if g.canDoColour = false then a
      else if 30 ≤ p ∧ p ≤ 37 then { a with iscolor := true, attr := (a.attr &&& 0xf0) ||| conv (p - 30) }
      else if 40 ≤ p ∧ p ≤ 47 then { a with iscolor := true, attr := (a.attr &&& 0x0f) ||| (conv (p - 40) <<< 4) }
      else { a with iscolor := true }

/-- `csi_m`. -/
def csim (a : Attrs) : Attrs := (List.range (a.npar + 1)).foldl (fun a i => setAttr g (a.par i) a) a

/-! ## `con_write` -/

/-- What a command makes of its parameters. -/
def adjust (c : Byte) (par : Nat → BitVec 32) : Nat → BitVec 32 :=
  let dec := fun p : BitVec 32 => if p ≠ 0 then p - 1 else p
  let inc := fun p : BitVec 32 => if p = 0 then p + 1 else p
  let set := fun (k : Nat) (p : BitVec 32) (par : Nat → BitVec 32) i => if i = k then p else par i
  if c ∈ [71#8, 96, 100] then set 0 (dec (par 0)) par
  else if c ∈ [65#8, 66, 101, 67, 97, 68, 69, 70] then set 0 (inc (par 0)) par
  else if c ∈ [72#8, 102] then set 1 (dec (par 1)) (set 0 (dec (par 0)) par)
  else if c = 114 then set 1 (if par 1 = 0 then BitVec.ofNat 32 g.lines else par 1) (set 0 (dec (par 0)) par)
  else par

/-- The `switch` of `case ESgotpars`; the parameters have been adjusted. -/
def command (c : Byte) (a : Attrs) (s : Screen) : Attrs × Screen :=
  let x := BitVec.ofNat 32 s.x
  let y := BitVec.ofNat 32 s.y
  let par := a.par
  let erase := a.videoEraseChar
  if c = 71 ∨ c = 96 then (a, gotoxy g (par 0) y s)
  else if c = 65 then (a, gotoxy g x (y - par 0) s)
  else if c = 66 ∨ c = 101 then (a, gotoxy g x (y + par 0) s)
  else if c = 67 ∨ c = 97 then (a, gotoxy g (x + par 0) y s)
  else if c = 68 then (a, gotoxy g (x - par 0) y s)
  else if c = 69 then (a, gotoxy g 0 (y + par 0) s)
  else if c = 70 then (a, gotoxy g 0 (y - par 0) s)
  else if c = 100 then (a, gotoxy g x (par 0) s)
  else if c = 72 ∨ c = 102 then (a, gotoxy g (par 1) (par 0) s)
  else if c = 74 then (a, csiJ g erase (par 0) s)
  else if c = 75 then (a, csiK g erase (par 0) s)
  else if c = 76 then (a, csiL g erase (par 0) s)
  else if c = 77 then (a, csiM g erase (par 0) s)
  else if c = 80 then (a, csiP g erase (par 0) s)
  else if c = 64 then (a, csiAt g erase (par 0) s)
  else if c = 109 then (csim g a, s)
  else if c = 114 then
    (a, if par 0 < par 1 ∧ (par 1).toNat ≤ g.lines then { s with top := (par 0).toNat, bottom := (par 1).toNat } else s)
  else if c = 115 then (saveCur s a, s)
  else if c = 117 then (a, gotoxy g a.savedX a.savedY s)
  else if c = 98 ∧ a.npar ≥ 2 ∧ par 1 - 13 = par 0 ∧ par 2 - 17 = par 0 then ({ a with boldAttr := par 0 }, s)
  else (a, s)

/-- `case ESgotpars`. -/
def gotpars (c : Byte) (a : Attrs) (s : Screen) : Attrs × Screen :=
  if a.ques then ({ a with state := .normal, ques := false }, s)
  else command g c { a with state := .normal, par := adjust g c a.par } s

/-- `case ESgetpars`. -/
def getpars (c : Byte) (a : Attrs) (s : Screen) : Attrs × Screen :=
  if c = 59 ∧ a.npar < NPAR - 1 then ({ a with npar := a.npar + 1 }, s)
  else if 48 ≤ c ∧ c ≤ 57 then
    ({ a with par := fun i => if i = a.npar then 10 * a.par i + (c.setWidth 32 - 48) else a.par i }, s)
  else gotpars g c a s

/-- `case ESsquare`. -/
def square (c : Byte) (a : Attrs) (s : Screen) : Attrs × Screen :=
  let a : Attrs := { a with par := fun _ => 0, npar := 0 }
  if c = 91 then ({ a with state := .funckey }, s)
  else if c = 63 then ({ a with state := .getpars, ques := true }, s)
  else getpars g c { a with state := .getpars, ques := false } s

/-- `case ESesc`; the state has been set to `ESnormal`. -/
def esc (c : Byte) (a : Attrs) (s : Screen) : Attrs × Screen :=
  let erase := a.videoEraseChar
  if c = 91 then ({ a with state := .square }, s)
  else if c = 69 then (a, gotoxy g 0 (BitVec.ofNat 32 (s.y + 1)) s)
  else if c = 77 then (a, ri g erase s)
  else if c = 68 then (a, lf g erase s)
  else if c = 55 then (saveCur s a, s)
  else if c = 56 then (a, gotoxy g a.savedX a.savedY s)
  else if c = 40 ∨ c = 41 then ({ a with state := .setgraph }, s)
  else if c = 80 then ({ a with state := .setterm }, s)
  else if c = 35 then ({ a with state := .other }, s)
  else if c = 99 then
    ({ a with restate := .norm, checkin := false, translate := .norm, kbdapplic := false },
      { s with top := 0, bottom := g.lines })
  else if c = 62 then ({ a with kbdapplic := false }, s)
  else if c = 61 then ({ a with kbdapplic := true }, s)
  else (a, s)

/-- `case ESnormal`. -/
def normal (c : Byte) (a : Attrs) (s : Screen) : Attrs × Screen :=
  let erase := a.videoEraseChar
  if 31 < c ∧ c < 127 then (a, putChar g erase (a.attr ++ a.translate.glyph c) s)
  else if c = 27 then ({ a with state := .esc }, s)
  else if c = 10 ∨ c = 11 ∨ c = 12 then (a, lf g erase s)
  else if c = 13 then (a, cr s)
  else if c = 127 then (a, del erase s)
  else if c = 8 then (a, bs s)
  else if c = 9 then (a, tab g erase s)
  else if c = 14 then ({ a with checkin := true, translate := a.restate }, s)
  else if c = 15 then ({ a with translate := .norm, checkin := false }, s)
  else (a, s)

/-- What `con_write` does with a character. -/
def conWriteByte (c : Byte) (a : Attrs) (s : Screen) : Attrs × Screen :=
  -- CAN and SUB end a sequence
  let a : Attrs := if c = 24 ∨ c = 26 then { a with state := .normal } else a
  match a.state with
  | .normal => normal g c a s
  | .esc => esc g c { a with state := .normal } s
  | .square => square g c a s
  | .getpars => getpars g c a s
  | .setterm =>
      if c = 83 then
        ({ a with state := .normal, defAttr := a.attr, videoEraseChar := a.attr ++ a.videoEraseChar.setWidth 8 }, s)
      else ({ a with state := .normal }, s)
  | .setgraph =>
      if c = 48 then
        ({ a with state := .normal, translate := if a.checkin then .graf else a.translate, restate := .graf }, s)
      else if c = 66 then ({ a with state := .normal, translate := .norm, restate := .norm }, s)
      else ({ a with state := .normal }, s)
  | .funckey | .other => ({ a with state := .normal }, s)

/-- All that is written to a console, one character after the other. -/
def conWrite : List Byte → Attrs × Screen → Attrs × Screen
  | [], v => v
  | c :: l, v => conWrite l (conWriteByte g c v.1 v.2)

end

end Console
end ChrDrv
end Linux095
