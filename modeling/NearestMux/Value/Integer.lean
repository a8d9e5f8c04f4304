import NearestMux.Text.Quoted
import NearestMux.Value

/-!
# The whole number of a value

Where a document is to give a whole number it may give it in other words: a truth value counts as
one or zero, a real number is cut down to its whole part, and a text or a row of bytes is read as a
numeral. A real number that is not finite, a text that is no numeral or has too many digits, and
every other value are faults. A message shows no more than the first two hundred characters of the
quotation of a text.
-/

namespace NearestMux

/-- Why a value gives no whole number. -/
inductive NumberFault where
  /-- The text is no numeral. -/
  | notNumeral (text : String)
  /-- The bytes are no numeral. -/
  | notNumeralBytes (data : List UInt8)
  /-- The text or the bytes start with too many digits, this many. -/
  | tooManyDigits (count : Nat)
  /-- The real number is not a number. -/
  | notANumber
  /-- The real number is infinite. -/
  | infinite
  /-- The value is of a kind that gives no number. -/
  | noNumber
deriving DecidableEq

/-- The start of a quotation. -/
def startOfQuotation (quotation : String) : String := String.ofList (quotation.toList.take 200)

/-- The text of the fault. -/
def NumberFault.message : NumberFault → String
  | .notNumeral text =>
    "invalid literal for int() with base 10: " ++ startOfQuotation (Text.quoted text)
  | .notNumeralBytes data =>
    "invalid literal for int() with base 10: " ++
      startOfQuotation (Text.quotedBytes (data.take 200))
  | .tooManyDigits count => Text.unreadableMessage count
  | .notANumber => "cannot convert float NaN to integer"
  | .infinite => "cannot convert float infinity to integer"
  | .noNumber => "a number was expected"

namespace Value

/-- The characters of bytes as far as they are of ASCII. Any other byte is a character that no
numeral has. -/
def asciiText (data : List UInt8) : String :=
  String.ofList (data.map fun b => if b.toNat < 0x80 then Text.byteChar b else '\ufffd')

/-- The whole number that a value gives. -/
def integer : Value → Except NumberFault Int
  | .bool b => .ok (if b then 1 else 0)
  | .int i => .ok i
  | .float x => match x.truncated? with
    | some i => .ok i
    | none => .error (if x = .notANumber then .notANumber else .infinite)
  | .text s => match Text.integer s with
    | .ok i => .ok i
    | .error .malformed => .error (.notNumeral s)
    | .error (.tooManyDigits count) => .error (.tooManyDigits count)
  | .bytes data => match Text.integer (asciiText data) with
    | .ok i => .ok i
    | .error .malformed => .error (.notNumeralBytes data)
    | .error (.tooManyDigits count) => .error (.tooManyDigits count)
  | _ => .error .noNumber

end Value

end NearestMux
