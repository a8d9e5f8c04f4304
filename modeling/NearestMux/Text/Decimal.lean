/-!
# Decimal digits — every script's ten figures

A decimal digit is a character of the Unicode category `Nd`. The category comes in runs of ten
consecutive code points, each run counting from zero to nine, so the table holds only the zeros and
a digit's value is its distance from the zero below it.

A row of digits is a number whatever its length. But a row of more than `digitLimit` digits is not
taken for one where a text is read, and a number that would be such a row is not written, so both
readers and writers ask first whether the row is short (`isShort`).

The table is data of the Unicode standard, version 14.
-/

namespace NearestMux.Text

/-- The code points of the digits zero, one for each script that has decimal digits. -/
def decimalZeros : List Nat := [
  0x30, 0x660, 0x6f0, 0x7c0, 0x966, 0x9e6, 0xa66, 0xae6, 0xb66, 0xbe6, 0xc66, 0xce6, 0xd66, 0xde6,
  0xe50, 0xed0, 0xf20, 0x1040, 0x1090, 0x17e0, 0x1810, 0x1946, 0x19d0, 0x1a80, 0x1a90, 0x1b50,
  0x1bb0, 0x1c40, 0x1c50, 0xa620, 0xa8d0, 0xa900, 0xa9d0, 0xa9f0, 0xaa50, 0xabf0, 0xff10, 0x104a0,
  0x10d30, 0x11066, 0x110f0, 0x11136, 0x111d0, 0x112f0, 0x11450, 0x114d0, 0x11650, 0x116c0,
  0x11730, 0x118e0, 0x11950, 0x11c50, 0x11d50, 0x11da0, 0x16a60, 0x16ac0, 0x16b50, 0x1d7ce,
  0x1d7d8, 0x1d7e2, 0x1d7ec, 0x1d7f6, 0x1e140, 0x1e2f0, 0x1e950, 0x1fbf0
]

/-- The value of a decimal digit of any script; `none` for every other character. -/
def decimalValue? (c : Char) : Option Nat :=
  (decimalZeros.find? fun first => decide (first ≤ c.toNat ∧ c.toNat < first + 10)).map
    (c.toNat - ·)

/-- Whether a character is a decimal digit of some script. -/
def isDecimal (c : Char) : Bool :=
  (decimalValue? c).isSome

/-- The number that a row of decimal digits writes, most significant first. A character that is no
digit counts as a zero, so the reader is total; its callers pass digits only. -/
def decimalNumber (digits : List Char) : Nat :=
  digits.foldl (fun total c => 10 * total + (decimalValue? c).getD 0) 0

/-- The most digits of a number that is read or written. -/
def digitLimit : Nat := 4300

/-- Whether a row of digits is short enough to be read or written as a number. Zeros in front
count. -/
def isShort (digits : List Char) : Bool := decide (digits.length ≤ digitLimit)

example : decimalNumber ['4', '0', '7'] = 407 := by decide
example : decimalValue? '\u0663' = some 3 := by decide
example : decimalZeros.length = 66 := by decide

end NearestMux.Text
