import NearestMux.Text.Numeral

/-!
# Binary64 — real numbers as they are stored, read and written

A real number in a document is kept to 53 binary digits. Reading a decimal rounds it to the nearest
number that can be kept, an exact half to the even neighbour; writing gives the fewest decimal
digits that read back as the same number, and of two such rows the nearer one. Both directions work
in exact whole-number arithmetic, so nothing here depends on a machine's floating point.

Nothing in this library computes with real numbers. They arrive in documents, are shown in messages,
are compared with whole numbers as mapping keys, and are cut down to whole numbers where a width is
wanted.
-/

namespace NearestMux

/-- A number of the binary64 format. A finite number is `mantissa * 2 ^ exponent` with a sign; the
readers below give every finite number its one form, with a mantissa below `2 ^ 53` and, above the
least exponent `-1074`, not below `2 ^ 52`. -/
inductive Binary64 where
  /-- A finite number. -/
  | finite (negative : Bool) (mantissa : Nat) (exponent : Int)
  /-- An infinity. -/
  | infinity (negative : Bool)
  /-- Not a number. -/
  | notANumber
deriving DecidableEq

/-- A quotient rounded to the nearest whole number, an exact half to the even one. -/
def roundedQuotient (numerator denominator : Nat) : Nat :=
  let quotient := numerator / denominator
  let rest := numerator % denominator
  if denominator < 2 * rest ∨ (denominator = 2 * rest ∧ quotient % 2 = 1) then quotient + 1
  else quotient

/-- The fraction `numerator / denominator` divided by a power of a base, as a fraction. -/
def scaledDown (base : Nat) (power : Int) (numerator denominator : Nat) : Nat × Nat :=
  if 0 ≤ power then (numerator, denominator * base.pow power.toNat)
  else (numerator * base.pow (-power).toNat, denominator)

namespace Binary64

/-- Zero with a sign. -/
def zeroOf (negative : Bool) : Binary64 := .finite negative 0 (-1074)

/-- The number nearest to a fraction. -/
def ofFraction (negative : Bool) (numerator denominator : Nat) : Binary64 :=
  if numerator = 0 then zeroOf negative
  else
    let guess : Int := (numerator.log2 : Int) - (denominator.log2 : Int) - 53
    let (n, d) := scaledDown 2 guess numerator denominator
    let exponent := max (if Nat.pow 2 53 ≤ n / d then guess + 1 else guess) (-1074)
    let (n, d) := scaledDown 2 exponent numerator denominator
    let mantissa := roundedQuotient n d
    let (mantissa, exponent) :=
      if mantissa = Nat.pow 2 53 then (Nat.pow 2 52, exponent + 1) else (mantissa, exponent)
    if 971 < exponent then .infinity negative else .finite negative mantissa exponent

/-- The number nearest to `digits * 10 ^ scale`. Magnitudes far outside the format are settled by
the count of their digits alone. -/
def ofDecimal (negative : Bool) (digits : Nat) (scale : Int) : Binary64 :=
  let places := ((Text.natDigits digits).length : Int) + scale
  if digits = 0 ∨ places < -330 then zeroOf negative
  else if 320 < places then .infinity negative
  else
    let (n, d) := scaledDown 10 (-scale) digits 1
    ofFraction negative n d

/-- The value without its sign as a fraction; zero for what is not finite. -/
def magnitude : Binary64 → Nat × Nat
  | .finite _ mantissa exponent => scaledDown 2 (-exponent) mantissa 1
  | _ => (0, 1)

/-- Whether the number is zero, of either sign. -/
def isZero : Binary64 → Bool
  | .finite _ 0 _ => true
  | _ => false

/-- The whole number that is left when the fraction is cut off; `none` for what is not finite. -/
def truncated? : Binary64 → Option Int
  | .finite negative mantissa exponent =>
    let (n, d) := scaledDown 2 (-exponent) mantissa 1
    some (if negative then -((n / d : Nat) : Int) else ((n / d : Nat) : Int))
  | _ => none

/-- The whole number that this number is; `none` when it is none. -/
def integral? (x : Binary64) : Option Int :=
  let (n, d) := x.magnitude
  if n % d = 0 then x.truncated? else none

/-- Equality of numbers: the two zeros are equal, and what is not a number equals nothing. -/
def sameNumber : Binary64 → Binary64 → Bool
  | .notANumber, _ => false
  | _, .notANumber => false
  | x, y => x == y || (x.isZero && y.isZero)

/-- How many decimal places stand before the point of a positive fraction below one, as a number not
above zero: minus the count of zeros that follow the point. -/
def leadingZeros : Nat → Nat → Nat → Int
  | 0, _, _ => 0
  | fuel + 1, n, d => if d ≤ n * 10 then 0 else leadingZeros fuel (n * 10) d - 1

/-- The place of the decimal point of a positive fraction, counted from its first digit. -/
def pointPlace (n d : Nat) : Int :=
  if d ≤ n then ((Text.natDigits (n / d)).length : Int) else leadingZeros 400 n d

/-- The decimal with `count` digits nearest to a positive number among the two neighbours of the
number on that grid that read back as the number; `none` when neither does. The answer is a row of
digits and the power of ten of its last one. -/
def decimalOfLength? (x : Binary64) (count : Nat) : Option (Nat × Int) :=
  let (n, d) := x.magnitude
  let scale := pointPlace n d - (count : Int)
  let (n, d) := scaledDown 10 scale n d
  let low := n / d
  let readsBack (digits : Nat) : Bool := ofDecimal false digits scale == x
  match readsBack low, readsBack (low + 1) with
  | true, true => some (roundedQuotient n d, scale)
  | true, false => some (low, scale)
  | false, true => some (low + 1, scale)
  | false, false => none

/-- The fewest digits that read back as a positive number. Seventeen digits are always enough. -/
def shortestDecimal (x : Binary64) : Nat × Int :=
  ((List.range 17).findSome? fun i => decimalOfLength? x (i + 1)).getD (0, 0)

/-- The digits without the zeros at their end. -/
def withoutTrailingZeros (digits : List Char) : List Char :=
  (digits.reverse.dropWhile (· == '0')).reverse

/-- Digits with a point at a place. Between the fourth place behind the point and the sixteenth
before it the number is written out, with at least one digit on each side of the point; outside it
is written with one digit before the point and a power of ten of at least two digits. -/
def withPoint (digits : List Char) (place : Int) : List Char :=
  let count := (digits.length : Int)
  if -4 < place ∧ place ≤ 16 then
    if place ≤ 0 then '0' :: '.' :: List.replicate (-place).toNat '0' ++ digits
    else if place < count then digits.take place.toNat ++ '.' :: digits.drop place.toNat
    else digits ++ List.replicate (place - count).toNat '0' ++ ['.', '0']
  else
    let power := place - 1
    let powerDigits := Text.natDigits power.natAbs
    let powerDigits := if powerDigits.length < 2 then '0' :: powerDigits else powerDigits
    let front := match digits with
      | [] => []
      | [c] => [c]
      | c :: rest => c :: '.' :: rest
    front ++ 'e' :: (if power < 0 then '-' else '+') :: powerDigits

/-- The text of a number. -/
def text : Binary64 → String
  | .notANumber => "nan"
  | .infinity negative => if negative then "-inf" else "inf"
  | .finite negative mantissa exponent =>
    let sign := if negative then ['-'] else []
    if mantissa = 0 then String.ofList (sign ++ ['0', '.', '0'])
    else
      let (digits, scale) := shortestDecimal (.finite false mantissa exponent)
      let row := Text.natDigits digits
      String.ofList (sign ++ withPoint (withoutTrailingZeros row) ((row.length : Int) + scale))

/-- Reads the power of ten that may end a decimal. -/
def exponentPart? : List Char → Option Int
  | [] => some 0
  | c :: rest => if c = 'e' ∨ c = 'E' then Text.signedNumber? rest else none

/-- Reads an unsigned decimal: digits, perhaps a point among or beside them, perhaps a power of
ten. -/
def unsignedDecimal? (negative : Bool) (cs : List Char) : Option Binary64 :=
  let whole := cs.takeWhile Text.isDecimal
  let (fraction, rest) := match cs.dropWhile Text.isDecimal with
    | '.' :: more => (more.takeWhile Text.isDecimal, more.dropWhile Text.isDecimal)
    | more => ([], more)
  if whole.isEmpty && fraction.isEmpty then none
  else (exponentPart? rest).map fun power =>
    ofDecimal negative (Text.decimalNumber (whole ++ fraction)) (power - (fraction.length : Int))

/-- Reads the text of a number: a decimal, an infinity or `nan`, each with or without a sign. -/
def ofText? (text : String) : Option Binary64 :=
  let (negative, cs) := match text.toList with
    | '-' :: rest => (true, rest)
    | '+' :: rest => (false, rest)
    | rest => (false, rest)
  if cs = ['i', 'n', 'f'] then some (.infinity negative)
  else if cs = ['n', 'a', 'n'] then some .notANumber
  else unsignedDecimal? negative cs

end Binary64

end NearestMux
