import NearestMux.Value

/-!
# Attributes — what else is noted about a wire

The attributes of a wire are values under names. A document writes them as a mapping; a list of
pairs is read as one, and so is anything that has the shape of it: a pair may be a list of two
values, a text of two characters, two bytes, the two members of a set, or the two keys of a mapping.
A pair of another length is a fault of the document, told with its place; what cannot be taken apart
at all is a value of a wrong kind.

Names must be texts, and five of them are taken: they are the words by which a wire itself is
described.
-/

namespace NearestMux

/-- Why a value gives no attributes. -/
inductive AttributesFault where
  /-- The pair at a place has another length than two. -/
  | notPair (place length : Nat)
  /-- The value, or one of its pairs, cannot be taken apart. -/
  | noPairs
  /-- A list, a set or a mapping stands where a name should, or in a pair there. -/
  | compoundName
  /-- A name is no text. -/
  | nameNotText
  /-- A name is one of the words that describe a wire. -/
  | reservedName (name : String)
deriving DecidableEq

namespace Attributes

/-- The words that describe a wire. -/
def reservedNames : List String := ["self", "name", "width", "port_input", "port_output"]

/-- The parts of a value that can be taken apart: the items of a list, the characters of a text, the
keys of a mapping, the members of a set, the two sides of a pair, the numbers of bytes. -/
def parts? : Value → Option (List Value)
  | .list items => some items
  | .text s => some (s.toList.map fun c => .text (String.ofList [c]))
  | .map entries => some (entries.map Prod.fst)
  | .set members => some members
  | .pair first second => some [first, second]
  | .bytes data => some (data.map fun b => .int b.toNat)
  | _ => none

/-- Whether a value can stand for a name: it is no list, no set and no mapping, nor a pair with one
of them in it. -/
def isKey : Value → Bool
  | .list _ => false
  | .set _ => false
  | .map _ => false
  | .pair first second => isKey first && isKey second
  | _ => true

/-- Takes a pair apart. -/
def pair (place : Nat) (v : Value) : Except AttributesFault (Value × Value) :=
  match parts? v with
  | none => .error .noPairs
  | some [name, value] => if isKey name then .ok (name, value) else .error .compoundName
  | some others => .error (.notPair place others.length)

/-- Takes pairs apart, from a place on. -/
def pairs (place : Nat) : List Value → Except AttributesFault (List (Value × Value))
  | [] => .ok []
  | v :: rest => do return (← pair place v) :: (← pairs (place + 1) rest)

/-- The entries that a value gives, each name once. -/
def entries : Value → Except AttributesFault (List (Value × Value))
  | .map entries => .ok entries
  | v => match parts? v with
    | none => .error .noPairs
    | some items => do
      let found ← pairs 0 items
      return found.foldl (fun done (name, value) => Value.setEntry name value done) []

/-- An entry under a name that attributes may have. -/
def named : Value × Value → Except AttributesFault (String × Value)
  | (.text name, value) =>
    if reservedNames.contains name then .error (.reservedName name) else .ok (name, value)
  | _ => .error .nameNotText

/-- The attributes that a value gives. -/
def ofValue (v : Value) : Except AttributesFault (List (String × Value)) := do
  (← entries v).mapM named

end Attributes

end NearestMux
