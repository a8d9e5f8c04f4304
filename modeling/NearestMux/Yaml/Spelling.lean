import NearestMux.Value
import NearestMux.Yaml.Cursor

/-!
# Spellings — what a plain scalar says

A plain scalar is what its spelling says: the absent value, a truth value, a whole or a real number,
and a text when it is none of these. The spellings are those of YAML 1.1: `yes` and `off` are truth
values, a leading zero makes a number octal, a real number has a point, and underscores may stand
between digits.

Three spellings have no value as they stand. A number to the base two or sixteen may have nothing
but underscores behind the mark of its base, a decimal number may have too many digits, and a plain
`=` or `<<` means something as a key alone. To the other bases a number may have any number of
digits.

Dates and numbers to the base sixty are not read as such; they are texts here.
-/

namespace NearestMux.Yaml

/-- The spellings of the absent value. -/
def nullSpellings : List String := ["", "~", "null", "Null", "NULL"]

/-- The spellings of the truth values. -/
def boolSpellings : List (String × Bool) := [
  ("yes", true), ("Yes", true), ("YES", true), ("no", false), ("No", false), ("NO", false),
  ("true", true), ("True", true), ("TRUE", true), ("false", false), ("False", false),
  ("FALSE", false), ("on", true), ("On", true), ("ON", true), ("off", false), ("Off", false),
  ("OFF", false)]

/-- The spellings of the real numbers that no digits write, without their sign. -/
def unwrittenReals : List (String × Binary64) := [
  (".inf", .infinity false), (".Inf", .infinity false), (".INF", .infinity false),
  ("+.inf", .infinity false), ("+.Inf", .infinity false), ("+.INF", .infinity false),
  ("-.inf", .infinity true), ("-.Inf", .infinity true), ("-.INF", .infinity true),
  (".nan", .notANumber), (".NaN", .notANumber), (".NAN", .notANumber)]

/-- A digit of ASCII. -/
def isDigit (c : Char) : Bool := decide ('0' ≤ c ∧ c ≤ '9')

/-- A digit or the underscore that may stand between digits. -/
def isDigitOrGap (c : Char) : Bool := isDigit c || c == '_'

/-- A text less the underscores between its digits. -/
def withoutGaps (cs : List Char) : List Char := cs.filter (· ≠ '_')

/-- Splits off a sign: whether the number is negative, and the text behind the sign. -/
def splitSign : List Char → Bool × List Char
  | '-' :: rest => (true, rest)
  | '+' :: rest => (false, rest)
  | cs => (false, cs)

/-- The number that digits of a base write. -/
def numberInBase (base : Nat) (digits : List Char) : Nat :=
  digits.foldl (fun total c => base * total + (Text.hexValue? c).getD 0) 0

/-- How the digits of a whole number are to be read: their base and the digits. `none` when a text
spells no whole number. -/
def wholeSpelling? : List Char → Option (Nat × List Char)
  | '0' :: 'b' :: rest =>
    if !rest.isEmpty && rest.all (fun c => c == '0' || c == '1' || c == '_') then some (2, rest)
    else none
  | '0' :: 'x' :: rest =>
    if !rest.isEmpty && rest.all (fun c => (Text.hexValue? c).isSome || c == '_') then
      some (16, rest)
    else none
  | '0' :: rest =>
    if rest.all (fun c => decide ('0' ≤ c ∧ c ≤ '7') || c == '_') then some (8, '0' :: rest)
    else none
  | c :: rest => if isDigit c && rest.all isDigitOrGap then some (10, c :: rest) else none
  | [] => none

/-- The whole number that a plain text spells. -/
def whole? (cs : List Char) : Option (Except Fault Int) :=
  let (negative, cs) := splitSign cs
  (wholeSpelling? cs).map fun (base, digits) =>
    match withoutGaps digits with
    | [] => .error .emptyNumeral
    | digits =>
      let n := numberInBase base digits
      if base = 10 ∧ !Text.isShort digits then .error .numberTooLong
      else .ok (if negative then -(n : Int) else (n : Int))

/-- Whether a text is the power of ten that may end a real number: the letter, a sign and digits. -/
def isPowerOrNothing : List Char → Bool
  | [] => true
  | c :: s :: rest => (c == 'e' || c == 'E') && (s == '-' || s == '+') && !rest.isEmpty &&
    rest.all isDigit
  | _ => false

/-- Whether a text spells a real number with digits. A number that starts with its point has a digit
behind it and no sign. -/
def isReal (cs : List Char) : Bool :=
  match cs with
  | '.' :: c :: rest => isDigit c && isPowerOrNothing (rest.dropWhile isDigitOrGap)
  | _ =>
    let (_, cs) := splitSign cs
    match cs with
    | c :: rest =>
      isDigit c && match rest.dropWhile isDigitOrGap with
        | '.' :: more => isPowerOrNothing (more.dropWhile isDigitOrGap)
        | _ => false
    | [] => false

/-- The value that a plain scalar spells. -/
def plainValue (text : String) : Except Fault Value :=
  let cs := text.toList
  if nullSpellings.contains text then .ok .null
  else match boolSpellings.lookup text, unwrittenReals.lookup text with
    | some b, _ => .ok (.bool b)
    | none, some x => .ok (.float x)
    | none, none =>
      if isReal cs then
        match Binary64.ofText? (String.ofList (withoutGaps cs)) with
        | some x => .ok (.float x)
        | none => .ok (.text text)
      else match whole? cs with
        | some (.ok i) => .ok (.int i)
        | some (.error e) => .error e
        | none => if text = "=" || text = "<<" then .error .malformed else .ok (.text text)

end NearestMux.Yaml
