import NearestMux.Text.Blank
import NearestMux.Text.Decimal

/-!
# Numerals — whole numbers as text

Writing a number is one rule: decimal digits without leading zeros, a hyphen before a negative
number. Reading is more generous. A whole-number text may stand between blanks, may carry a sign,
may use the digits of any script, may start with zeros, and may set single underscores between
digits. Nothing else is a number: no base mark, no point, no underscore at an end or beside another
one.

Neither is done beyond the limit of digits. A text whose leading row of digits is too long is
refused for that, whatever comes behind the row; `isWritable` says of a number that it can be
written. `natText` and `intText` are the rule alone and have a text for every number.
-/

namespace NearestMux.Text

/-- The decimal digits of a natural number, most significant first. -/
def natDigits (n : Nat) : List Char := Nat.toDigits 10 n

/-- The decimal text of a natural number. -/
def natText (n : Nat) : String := String.ofList (natDigits n)

/-- The decimal text of an integer. -/
def intText (i : Int) : String :=
  if i < 0 then String.ofList ('-' :: natDigits i.natAbs) else natText i.natAbs

/-- Whether a number has few enough digits to be written. -/
def isWritable (i : Int) : Bool := isShort (natDigits i.natAbs)

/-- What is said of a number with too many digits to be written. -/
def unwritableMessage : String :=
  "Exceeds the limit (" ++ natText digitLimit ++ " digits) for integer string conversion; " ++
    "use sys.set_int_max_str_digits() to increase the limit"

/-- What is said of a row of too many digits to be read. -/
def unreadableMessage (count : Nat) : String :=
  "Exceeds the limit (" ++ natText digitLimit ++ " digits) for integer string conversion: " ++
    "value has " ++ natText count ++ " digits; " ++
    "use sys.set_int_max_str_digits() to increase the limit"

/-- The value of a hexadecimal digit. -/
def hexValue? (c : Char) : Option Nat :=
  let n := c.toNat
  if 0x30 ≤ n ∧ n ≤ 0x39 then some (n - 0x30)
  else if 0x41 ≤ n ∧ n ≤ 0x46 then some (n - 0x37)
  else if 0x61 ≤ n ∧ n ≤ 0x66 then some (n - 0x57)
  else none

/-- The digits of a row in which single underscores may stand between two digits; `none` when the
row is anything else. -/
def groupedDigits? : List Char → Option (List Char)
  | [] => none
  | [c] => if isDecimal c then some [c] else none
  | c :: '_' :: rest => if isDecimal c then (groupedDigits? rest).map (c :: ·) else none
  | c :: d :: rest => if isDecimal c then (groupedDigits? (d :: rest)).map (c :: ·) else none

/-- The integer that a signed row of digits writes. -/
def signedNumber? : List Char → Option Int
  | '-' :: rest => (groupedDigits? rest).map fun ds => -(decimalNumber ds : Int)
  | '+' :: rest => (groupedDigits? rest).map fun ds => (decimalNumber ds : Int)
  | cs => (groupedDigits? cs).map fun ds => (decimalNumber ds : Int)

/-- The digits that a text starts with, behind a sign or without one. A row whose underscores are
misplaced has none. -/
def leadingDigits (cs : List Char) : List Char :=
  let unsigned := match cs with
    | '-' :: rest => rest
    | '+' :: rest => rest
    | rest => rest
  (groupedDigits? (unsigned.takeWhile fun c => isDecimal c || c == '_')).getD []

/-- Why a text is read as no integer. -/
inductive NumeralFault where
  /-- It writes none. -/
  | malformed
  /-- It starts with too many digits, this many. -/
  | tooManyDigits (count : Nat)
deriving DecidableEq

/-- The integer that a text is read as. The digits are counted before it is asked what follows
them. -/
def integer (text : String) : Except NumeralFault Int :=
  let cs := trimmed isNumeralBlank text.toList
  if isShort (leadingDigits cs) then
    match signedNumber? cs with
    | some i => .ok i
    | none => .error .malformed
  else .error (.tooManyDigits (leadingDigits cs).length)

example : signedNumber? ['-', '1', '_', '0'] = some (-10) := by decide
example : groupedDigits? ['1', '_', '_', '0'] = none := by decide
example : leadingDigits ['+', '1', '_', '0', ' ', 'x'] = ['1', '0'] := by decide

end NearestMux.Text
