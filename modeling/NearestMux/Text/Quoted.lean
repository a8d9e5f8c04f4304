import NearestMux.Text.Printable

/-!
# Quoted texts — a text between marks, on one line

A message that shows a text it was given shows it quoted: between apostrophes, or between double
quotes when the text holds an apostrophe and no double quote. Inside, the backslash and the mark are
escaped by a backslash, the line feed, the carriage return and the tab have letters of their own,
and every other character that is not printable is written by its code point in two, four or eight
hexadecimal digits, whichever is the first to hold it.

A quoted text is for a reader's eyes; nothing in this library reads one back.
-/

namespace NearestMux.Text

/-- The apostrophe. -/
def apostrophe : Char := '\x27'

/-- The double quote. -/
def doubleQuote : Char := '\x22'

/-- The last `width` hexadecimal digits of a number, in lower case. -/
def hexDigits : Nat → Nat → List Char
  | 0, _ => []
  | width + 1, n => hexDigits width (n / 16) ++ [Nat.digitChar (n % 16)]

/-- The mark that a text is quoted with. -/
def quoteMark (cs : List Char) : Char :=
  if cs.contains apostrophe && !cs.contains doubleQuote then doubleQuote else apostrophe

/-- One character inside a quoted text. -/
def quotedChar (mark c : Char) : List Char :=
  if c = mark ∨ c = '\\' then ['\\', c]
  else if c = '\n' then ['\\', 'n']
  else if c = '\r' then ['\\', 'r']
  else if c = '\t' then ['\\', 't']
  else if isPrintable c then [c]
  else if c.toNat < 0x100 then '\\' :: 'x' :: hexDigits 2 c.toNat
  else if c.toNat < 0x10000 then '\\' :: 'u' :: hexDigits 4 c.toNat
  else '\\' :: 'U' :: hexDigits 8 c.toNat

/-- A text between quote marks. -/
def quoted (text : String) : String :=
  let cs := text.toList
  let mark := quoteMark cs
  String.ofList (mark :: cs.flatMap (quotedChar mark) ++ [mark])

/-- The character of the same number as a byte. -/
def byteChar (b : UInt8) : Char := Char.ofNat b.toNat

/-- One byte inside a quoted row: as itself where it is a printable character of ASCII, else with
the escapes of a text. -/
def quotedByte (mark : Char) (b : UInt8) : List Char :=
  if b.toNat < 0x7f then quotedChar mark (byteChar b) else '\\' :: 'x' :: hexDigits 2 b.toNat

/-- A row of bytes between quote marks, behind a letter. -/
def quotedBytes (data : List UInt8) : String :=
  let mark := quoteMark (data.map byteChar)
  String.ofList ('b' :: mark :: data.flatMap (quotedByte mark) ++ [mark])

end NearestMux.Text
