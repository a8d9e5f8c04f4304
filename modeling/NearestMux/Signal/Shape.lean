import NearestMux.Text.Numeral

/-!
# The shapes of a signal text

A signal text has one of two shapes. A constant is a width, an apostrophe, the letter of a base and
a row of digits: `8'hff`. A reference is the name of a wire and perhaps, in square brackets, one
index or a high and a low one: `data[7:4]`. Whatever has the first shape is a constant, even when no
bits can be made of it; a name ends at a blank or at an opening bracket, and blanks may stand before
the brackets and around the indices.

The shape says nothing about the module that the text stands in, so a text has its shape or has none
once and for all. It keeps the rows of digits as they stand: a row may be too long to be read as a
number, and that is found out only when the number is asked for.

The bits of a constant are its digits read in the base and fitted to the width: digits beyond the
width are cut off at the high end, and missing ones are zeros, up to a limit. A hexadecimal `x` or
`z` stands for four unknown or four floating bits; in the decimal base neither has a meaning, and
there may not be too many digits. Underscores between the digits are skipped, and in the binary and
hexadecimal bases no digits at all are a row of zeros.
-/

namespace NearestMux

/-- The base of the digits of a constant. -/
inductive Base where
  /-- One bit a digit. -/
  | binary
  /-- Four bits a digit. -/
  | hexadecimal
  /-- A number. -/
  | decimal
deriving DecidableEq

/-- The base of a letter, small or capital. -/
def Base.ofChar? (c : Char) : Option Base :=
  if c = 'b' ∨ c = 'B' then some .binary
  else if c = 'h' ∨ c = 'H' then some .hexadecimal
  else if c = 'd' ∨ c = 'D' then some .decimal
  else none

/-- The shape of a signal text. -/
inductive SignalShape where
  /-- The digits of a width, a base and a row of digits, as they stand. -/
  | constant (width : List Char) (base : Base) (digits : List Char)
  /-- The name of a wire, and the digits of the high and the low index when there are brackets. -/
  | reference (name : List Char) (range : Option (List Char × List Char))
deriving DecidableEq

namespace SignalShape

/-- A character that may stand among the digits of a constant, whatever its base. -/
def isConstantDigit (c : Char) : Bool :=
  (Text.hexValue? c).isSome || c == 'x' || c == 'X' || c == 'z' || c == 'Z' || c == '_'

/-- Reads a text as a constant. -/
def constant? (cs : List Char) : Option SignalShape :=
  let width := cs.takeWhile Text.isDecimal
  match cs.dropWhile Text.isDecimal with
  | '\x27' :: letter :: digits =>
    match Base.ofChar? letter with
    | some base =>
      if !width.isEmpty && !digits.isEmpty && digits.all isConstantDigit then
        some (.constant width base digits)
      else none
    | none => none
  | _ => none

/-- The digits of a number with blanks around it, and what follows. -/
def index? (cs : List Char) : Option (List Char × List Char) :=
  let cs := cs.dropWhile Text.isBlank
  let digits := cs.takeWhile Text.isDecimal
  if digits.isEmpty then none
  else some (digits, (cs.dropWhile Text.isDecimal).dropWhile Text.isBlank)

/-- The indices that stand between brackets, when nothing follows the closing one. A single index is
both the high and the low one. -/
def range? (cs : List Char) : Option (List Char × List Char) :=
  match index? cs with
  | some (high, [']']) => some (high, high)
  | some (high, ':' :: rest) =>
    match index? rest with
    | some (low, [']']) => some (high, low)
    | _ => none
  | _ => none

/-- A character that may stand in the name of a referenced wire. -/
def isNameChar (c : Char) : Bool := c != '[' && !Text.isBlank c

/-- Reads a text as a reference. -/
def reference? (cs : List Char) : Option SignalShape :=
  let name := cs.takeWhile isNameChar
  if name.isEmpty then none
  else match (cs.dropWhile isNameChar).dropWhile Text.isBlank with
    | [] => some (.reference name none)
    | '[' :: rest => (range? rest).map fun range => .reference name (some range)
    | _ => none

/-- The shape of a text, `none` when it has neither. -/
def ofChars? (cs : List Char) : Option SignalShape :=
  match constant? cs with
  | some shape => some shape
  | none => reference? cs

end SignalShape

/-- Why the digits of a constant give no bits. -/
inductive ConstantFault where
  /-- A decimal constant has no digit, or one that is not decimal. -/
  | notDecimal
  /-- A binary constant has a digit that is no bit. -/
  | notBits
  /-- A decimal constant has so many digits, which are too many. -/
  | tooManyDigits (count : Nat)
deriving DecidableEq

namespace Base

/-- The bits of one hexadecimal digit, the most significant first. -/
def hexBits (c : Char) : List Char :=
  if c = 'x' ∨ c = 'z' then List.replicate 4 c
  else
    let digits := Nat.toDigits 2 ((Text.hexValue? c).getD 0)
    List.replicate (4 - digits.length) '0' ++ digits

/-- A character that is a bit: zero, one, unknown or floating. -/
def isBit (c : Char) : Bool := c == '0' || c == '1' || c == 'x' || c == 'z'

/-- The bits that digits write in a base, the most significant first. -/
def bits (base : Base) (digits : List Char) : Except ConstantFault (List Char) :=
  let digits := (digits.filter (· != '_')).map Char.toLower
  match base with
  | .binary => if digits.all isBit then .ok digits else .error .notBits
  | .hexadecimal => .ok (digits.flatMap hexBits)
  | .decimal =>
    if !digits.isEmpty && digits.all Char.isDigit then
      if Text.isShort digits then .ok (Nat.toDigits 2 (Text.decimalNumber digits))
      else .error (.tooManyDigits digits.length)
    else .error .notDecimal

end Base

/-- Bits fitted to a width, from the most significant first to the least significant first: cut off
at the high end, or filled up there with zeros. -/
def fittedBits (width : Nat) (bits : List Char) : List Char :=
  let low := bits.reverse.take width
  low ++ List.replicate (width - low.length) '0'

/-- The number of bits that a row can no longer be filled up to. The length of a row, with the
forty-nine places that it needs beside its bits, is measured in sixty-three bits. -/
def rowLimit : Nat := Nat.pow 2 63 - 49

/-- The bits fitted to a width, `none` when they would have to be filled up to the limit or beyond.
What has all its bits written out needs no filling up, whatever its width. -/
def fittedBits? (width : Nat) (bits : List Char) : Option (List Char) :=
  if bits.length < width ∧ rowLimit ≤ width then none else some (fittedBits width bits)

/-- A row can be fitted below the limit, and when it has all its bits written out. -/
theorem fittedBits?_eq (width : Nat) (bits : List Char) : fittedBits? width bits =
    if width < rowLimit ∨ width ≤ bits.length then some (fittedBits width bits) else none := by
  unfold fittedBits?
  by_cases fits : width < rowLimit ∨ width ≤ bits.length
  · rw [if_pos fits, if_neg (by omega)]
  · rw [if_neg fits, if_pos (by omega)]

end NearestMux
