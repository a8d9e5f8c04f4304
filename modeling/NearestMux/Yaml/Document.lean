import NearestMux.Yaml.Node
import NearestMux.Yaml.Spelling

/-!
# Documents — the value of a text

A quoted scalar is a text, and a plain one is what it spells. A key that repeats takes the last
value and keeps its first place. A list or a mapping is no key. The key `<<` brings in the entries
of the mapping under it, or of several, before the entries of its own mapping; a plain `=` is a text
as a key.

More than one part of a document may have no value. The fault that is told is the one nearest to the
root, and of several at one depth the one that comes first: a collection's parts are looked at when
everything outside it was. A mapping that is brought in lies at the depth of the mapping that it is
brought into, and what brings it in is looked at before any entry is.
-/

namespace NearestMux.Yaml

/-- A result, to hold if there is no fault, and the first fault at each depth, the least depth
first. -/
structure Valued (α : Type) where
  /-- The result. -/
  result : α
  /-- The first fault at each depth. -/
  faults : List (Option Fault)

namespace Valued

variable {α β γ : Type}

/-- The faults of two parts at one depth, the earlier part first. -/
def joinFaults : List (Option Fault) → List (Option Fault) → List (Option Fault)
  | [], later => later
  | earlier, [] => earlier
  | a :: earlier, b :: later => a.or b :: joinFaults earlier later

/-- A result without a fault. -/
def sound (a : α) : Valued α := ⟨a, []⟩

/-- A fault, with a result to go on with. -/
def refused (fault : Fault) (a : α) : Valued α := ⟨a, [some fault]⟩

/-- A result made from another. -/
def map (f : α → β) (v : Valued α) : Valued β := ⟨f v.result, v.faults⟩

/-- A result made from two, the earlier part first. -/
def both (f : α → β → γ) (v : Valued α) (w : Valued β) : Valued γ :=
  ⟨f v.result w.result, joinFaults v.faults w.faults⟩

/-- A result one step deeper. -/
def deeper (v : Valued α) : Valued α := ⟨v.result, none :: v.faults⟩

/-- The result, or the fault that is told. -/
def outcome (v : Valued α) : Except Fault α :=
  match v.faults.findSome? id with
  | some fault => .error fault
  | none => .ok v.result

end Valued

/-- The value of a scalar. -/
def scalarValued (plain : Bool) (text : String) : Valued Value :=
  if plain then
    match plainValue text with
    | .ok value => .sound value
    | .error fault => .refused fault .null
  else .sound (.text text)

/-- The value of a key. -/
def keyValued : Node → Valued Value
  | .scalar plain text => if text = "=" then .sound (.text text) else scalarValued plain text
  | _ => .refused .malformed .null

/-- Whether a key brings in the entries of the mapping under it. -/
def isMergeKey : Node → Bool
  | .scalar true text => text == "<<"
  | _ => false

/-- The entries of a mapping. -/
structure Entries where
  /-- Whether nothing but mappings is brought in. -/
  sound : Bool
  /-- The entries that are brought in. -/
  merged : Valued (List (Value × Value))
  /-- The mapping's own entries. -/
  own : Valued (List (Value × Value))

namespace Entries

/-- No entries. -/
def none : Entries := ⟨true, .sound [], .sound []⟩

/-- What stands in the place of a mapping that should be brought in and is none. -/
def unsound : Entries := ⟨false, .sound [], .sound []⟩

/-- All entries. -/
def all (e : Entries) : Valued (List (Value × Value)) := e.merged.both (· ++ ·) e.own

/-- Entries with those of a mapping brought in before them. -/
def bring (brought e : Entries) : Entries :=
  ⟨brought.sound && e.sound, brought.all.both (· ++ ·) e.merged, e.own⟩

/-- Entries with an own one before them. -/
def add (key value : Valued Value) (e : Entries) : Entries :=
  { e with own := (key.both Prod.mk value).both List.cons e.own }

/-- The mapping of the entries. -/
def mapping (e : Entries) : Valued Value :=
  let check : Valued Unit := if e.sound then .sound () else .refused .malformed ()
  (check.both (fun _ entries => Value.ofEntries entries) e.all).deeper

end Entries

mutual

/-- The value of a node. -/
def Node.valued : Node → Valued Value
  | .scalar plain text => scalarValued plain text
  | .list items => ((itemsValued items).map Value.list).deeper
  | .map entries => (entriesOf entries).mapping

/-- The values of the items of a list. -/
def itemsValued : List Node → Valued (List Value)
  | [] => .sound []
  | item :: rest => item.valued.both List.cons (itemsValued rest)

/-- The entries of a mapping. -/
def entriesOf : List (Node × Node) → Entries
  | [] => .none
  | (key, node) :: rest =>
    if isMergeKey key then (broughtIn node).bring (entriesOf rest)
    else (entriesOf rest).add (keyValued key) node.valued

/-- The entries that a node brings in: those of a mapping, or those of several, the last mapping
first. -/
def broughtIn : Node → Entries
  | .map entries => entriesOf entries
  | .list items => broughtInByAll items
  | .scalar _ _ => .unsound

/-- The entries that several mappings bring in. -/
def broughtInByAll : List Node → Entries
  | [] => .none
  | .map entries :: rest => (broughtInByAll rest).bring (entriesOf entries)
  | _ :: _ => .unsound

end

/-- The value of a document's text; an empty text has the absent value. -/
def valueOf (text : String) : Except Fault Value := do
  match ← Node.ofTokens (tokensOf text) with
  | none => return .null
  | some node => node.valued.outcome

end NearestMux.Yaml
