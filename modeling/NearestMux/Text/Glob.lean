import NearestMux.Text.Occurs

/-!
# Glob patterns — names by example

A pattern stands for the texts it accepts as a whole. A star accepts any run of characters, also the
empty one; a question mark accepts any one character; a bracketed class accepts one character that
is among its members, or, after an exclamation mark, one that is not; every other character accepts
itself. No character is special to a star, so a star crosses slashes and line ends, and no character
escapes another, so a backslash accepts a backslash.

The members of a class are characters and ranges. A hyphen makes a range when a member stands on
both its sides and the one before it does not close a range already; elsewhere the hyphen is a
member itself. A range whose ends are in the wrong order holds nothing and is struck out with its
two ends before the class is read, which is why an exclamation mark behind it can come to open the
class. A closing bracket is a member when it comes first. A bracket that is never closed accepts
itself.

A class from which everything was struck out accepts nothing; its negation accepts every character.
-/

namespace NearestMux.Text

namespace Glob

/-- What a class is written with: characters, and the hyphens that join two of them to a range. -/
inductive Mark where
  /-- A character that stands for itself. -/
  | char (c : Char)
  /-- A hyphen between the two ends of a range. -/
  | dash
deriving DecidableEq

/-- A member of a class: the characters from the first to the last. -/
structure Range where
  /-- The first character of the range. -/
  first : Char
  /-- The last character of the range. -/
  last : Char
deriving DecidableEq

/-- One piece of a pattern. -/
inductive Piece where
  /-- Any run of characters. -/
  | star
  /-- Any one character. -/
  | any
  /-- This character. -/
  | char (c : Char)
  /-- One character inside the ranges, or outside them all when negated. -/
  | oneOf (negated : Bool) (members : List Range)
deriving DecidableEq

/-- Whether a range holds a character. -/
def Range.holds (r : Range) (c : Char) : Bool :=
  decide (r.first.toNat ≤ c.toNat ∧ c.toNat ≤ r.last.toNat)

/-- Splits the text of a class into marks. `since` counts the characters since the last joining
hyphen, so a hyphen joins only when at least `wait` characters stand before it and one behind it. -/
def marks (wait since : Nat) : List Char → List Mark
  | [] => []
  | ['-'] => [.char '-']
  | c :: rest =>
    if c = '-' ∧ wait ≤ since then .dash :: marks 2 0 rest
    else .char c :: marks wait (since + 1) rest

/-- Strikes out the ranges whose ends are in the wrong order, with both their ends. -/
def strikeOut : List Mark → List Mark
  | .char a :: .dash :: .char b :: rest =>
    if b.toNat < a.toNat then strikeOut rest
    else .char a :: .dash :: .char b :: strikeOut rest
  | m :: rest => m :: strikeOut rest
  | [] => []

/-- The members that a row of marks writes. -/
def members : List Mark → List Range
  | .char a :: .dash :: .char b :: rest => ⟨a, b⟩ :: members rest
  | .char a :: rest => ⟨a, a⟩ :: members rest
  | .dash :: rest => ⟨'-', '-'⟩ :: members rest
  | [] => []

/-- The class that stands between two brackets. -/
def classOf (inside : List Char) : Piece :=
  let wait := if inside.head? = some '!' then 2 else 1
  match strikeOut (marks wait 0 inside) with
  | .char '!' :: rest => .oneOf true (members rest)
  | ms => .oneOf false (members ms)

/-- The text of a class that opens here, and what follows its closing bracket; `none` when the
bracket is never closed. An exclamation mark and then a closing bracket may open the class without
ending it. -/
def splitClass? (cs : List Char) : Option (List Char × List Char) :=
  let lead := match cs with
    | '!' :: ']' :: _ => 2
    | '!' :: _ => 1
    | ']' :: _ => 1
    | _ => 0
  let tail := cs.drop lead
  match tail.dropWhile (· ≠ ']') with
  | [] => none
  | _ :: rest => some (cs.take lead ++ tail.takeWhile (· ≠ ']'), rest)

/-- Reads a pattern. Each step takes at least one character, so the number of characters is fuel
enough. -/
def piecesWithin : Nat → List Char → List Piece
  | 0, _ => []
  | _ + 1, [] => []
  | fuel + 1, '*' :: rest => .star :: piecesWithin fuel rest
  | fuel + 1, '?' :: rest => .any :: piecesWithin fuel rest
  | fuel + 1, '[' :: rest =>
    match splitClass? rest with
    | some (inside, after) => classOf inside :: piecesWithin fuel after
    | none => .char '[' :: piecesWithin fuel rest
  | fuel + 1, c :: rest => .char c :: piecesWithin fuel rest

/-- The pieces of a pattern. -/
def pieces (pattern : List Char) : List Piece := piecesWithin pattern.length pattern

/-- Whether a piece other than a star accepts a character. -/
def Piece.takes : Piece → Char → Bool
  | .star, _ => false
  | .any, _ => true
  | .char p, c => c == p
  | .oneOf negated ranges, c => ranges.any (·.holds c) != negated

/-- Whether the pieces accept the text as a whole. -/
def accepts : List Piece → List Char → Bool
  | [], cs => cs.isEmpty
  | .star :: ps, cs => someEnd (accepts ps) cs
  | p :: ps, cs => match cs with
    | [] => false
    | c :: rest => p.takes c && accepts ps rest

/-- For each place of a row, whether something true stands there or behind it. -/
def someLater : List Bool → List Bool
  | [] => []
  | b :: rest =>
    let later := someLater rest
    (b || later.head?.getD false) :: later

/-- For each end of a text, the whole text first, whether the pieces accept it. The row of the
pieces behind a piece is all that the piece needs, so many stars cost no more than many other
pieces. -/
def acceptedEnds (text : List Char) : List Piece → List Bool
  | [] => text.map (fun _ => false) ++ [true]
  | .star :: ps => someLater (acceptedEnds text ps)
  | p :: ps => text.zipWith (fun c next => p.takes c && next) (acceptedEnds text ps).tail ++ [false]

theorem acceptedEnds_nil (ps : List Piece) : acceptedEnds [] ps = [accepts ps []] := by
  induction ps with
  | nil => rfl
  | cons p ps ih => cases p <;> simp [acceptedEnds, accepts, ih, someLater, someEnd]

theorem acceptedEnds_cons (ps : List Piece) (c : Char) (cs : List Char) :
    acceptedEnds (c :: cs) ps = accepts ps (c :: cs) :: acceptedEnds cs ps := by
  induction ps generalizing c cs with
  | nil => simp [acceptedEnds, accepts]
  | cons p ps ih =>
    have head (ds : List Char) : (acceptedEnds ds (.star :: ps)).head?.getD false =
        accepts (.star :: ps) ds := by
      induction ds with
      | nil => simp [acceptedEnds_nil]
      | cons d ds ihd =>
        simp only [acceptedEnds] at ihd
        simp [acceptedEnds, ih, someLater, ihd, accepts, someEnd]
    have shape : acceptedEnds cs ps = accepts ps cs :: (acceptedEnds cs ps).tail := by
      cases cs <;> simp [acceptedEnds_nil, ih]
    cases p with
    | star =>
      have := head cs
      simp only [acceptedEnds] at this
      simp [acceptedEnds, ih, someLater, this, accepts, someEnd]
    | any | char | oneOf =>
      simp only [acceptedEnds, ih, List.tail_cons]
      rw [shape]
      simp [accepts]

end Glob

/-- Whether a glob pattern accepts a text. -/
def globAccepts (pattern text : String) : Bool :=
  (Glob.acceptedEnds text.toList (Glob.pieces pattern.toList)).head?.getD false

/-- Reading off the ends of the text decides acceptance. -/
theorem globAccepts_eq (pattern text : String) :
    globAccepts pattern text = Glob.accepts (Glob.pieces pattern.toList) text.toList := by
  unfold globAccepts
  cases text.toList <;> simp [Glob.acceptedEnds_nil, Glob.acceptedEnds_cons]

end NearestMux.Text
