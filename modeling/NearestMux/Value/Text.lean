import NearestMux.Text.Quoted
import NearestMux.Value

/-!
# The text of a value

A value is written in two ways: as a name (`Value.name`), where a text is itself, and inside a
message (`Value.quoted`), where a text is quoted. A day or a time has two spellings as well; all
other values have one, and whatever stands inside another value is quoted.

Both ways stop at a number that has too many digits to be written, wherever in the value it stands
(`Value.isWritable`). `Value.name` and `Value.quoted` are the rule of spelling alone; `Value.name?`
is the name that a value gives, if it gives one.
-/

namespace NearestMux.Value

/-- Texts one after the other, separated by a comma and a space. -/
def commaSeparated (texts : List String) : String := String.intercalate ", " texts

mutual

/-- The spelling of a value inside a message. -/
def quoted : Value → String
  | .null => "None"
  | .bool true => "True"
  | .bool false => "False"
  | .int i => Text.intText i
  | .float x => x.text
  | .text s => Text.quoted s
  | .moment m => m.quoted
  | .bytes data => Text.quotedBytes data
  | .list items => "[" ++ commaSeparated (quotedItems items) ++ "]"
  | .set [] => "set()"
  | .set members => "\x7b" ++ commaSeparated (quotedItems members) ++ "\x7d"
  | .pair first second => "(" ++ first.quoted ++ ", " ++ second.quoted ++ ")"
  | .map entries => "\x7b" ++ commaSeparated (quotedEntries entries) ++ "\x7d"

/-- The spellings of values one by one. -/
def quotedItems : List Value → List String
  | [] => []
  | item :: rest => item.quoted :: quotedItems rest

/-- The spellings of the entries of a mapping. -/
def quotedEntries : List (Value × Value) → List String
  | [] => []
  | (key, value) :: rest => (key.quoted ++ ": " ++ value.quoted) :: quotedEntries rest

end

/-- The spelling of a value that serves as a name. -/
def name : Value → String
  | .text s => s
  | .moment m => m.name
  | v => v.quoted

mutual

/-- Whether every whole number in a value has few enough digits to be written. -/
def isWritable : Value → Bool
  | .int i => Text.isWritable i
  | .list items => areWritable items
  | .set members => areWritable members
  | .pair first second => first.isWritable && second.isWritable
  | .map entries => entriesAreWritable entries
  | _ => true

/-- Whether every whole number in a row of values can be written. -/
def areWritable : List Value → Bool
  | [] => true
  | item :: rest => item.isWritable && areWritable rest

/-- Whether every whole number in the entries of a mapping can be written. -/
def entriesAreWritable : List (Value × Value) → Bool
  | [] => true
  | (key, value) :: rest => key.isWritable && value.isWritable && entriesAreWritable rest

end

/-- The name that a value gives, `none` when it cannot be written. -/
def name? (v : Value) : Option String := if v.isWritable then some v.name else none

theorem name?_eq_some_iff {v : Value} {s : String} :
    v.name? = some s ↔ v.isWritable = true ∧ v.name = s := by
  unfold name?
  split
  · next writable => simp [writable]
  · next long => simp [long]

end NearestMux.Value
