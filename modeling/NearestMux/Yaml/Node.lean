import NearestMux.Yaml.Token

/-!
# Nodes — the tree of a document

The tokens of a document nest: a collection opens, holds its parts and closes. This module reads the
tree off the row. Parts may be left out: an item without a node, a key without a value and a value
without a key stand for the empty plain scalar.

An indented list may stand under a key at the key's own column; it has no opening or closing token
and ends where the next key begins. Between square brackets a key with a value is a mapping with one
entry.

A text holds at most one document, and no more than `nestingLimit` of its collections stand one
inside the other.

A row that does not nest is malformed, unless it breaks off where it stops nesting: then the fault
at the break is told.
-/

namespace NearestMux.Yaml

/-- A part of a document. -/
inductive Node where
  /-- A text, and whether it was written plain. -/
  | scalar (plain : Bool) (text : String)
  /-- A list. -/
  | list (items : List Node)
  /-- A mapping. -/
  | map (entries : List (Node × Node))

namespace Node

/-- What stands for a part that was left out. -/
def omitted : Node := .scalar true ""

/-- Whether a row starts with one of some tokens, or is at its end. -/
def stopsAt (ts : List Token) (stops : List Token) : Bool :=
  match ts with
  | [] => true
  | t :: _ => stops.contains t

/-- The fault of a row that does not go on as it must. -/
def faultAt : List Token → Fault
  | .broken fault :: _ => fault
  | _ => .malformed

/-- The tokens behind a comma that must stand here. -/
def afterComma : List Token → Except Fault (List Token)
  | .comma :: rest => .ok rest
  | ts => .error (faultAt ts)

mutual

/-- Reads a node. `inBlock` allows indented collections; `atKeyColumn` besides a list at the column
of the key that it belongs to. -/
def read (inBlock atKeyColumn : Bool) : Nat → List Token → Except Fault (Node × List Token)
  | 0, _ => .error .malformed
  | fuel + 1, ts =>
    match ts with
    | .scalar plain text :: rest => .ok (.scalar plain text, rest)
    | .flowListStart :: rest => do
      let (items, rest) ← readFlowList fuel true rest
      return (.list items, rest)
    | .flowMapStart :: rest => do
      let (entries, rest) ← readFlowMap fuel true rest
      return (.map entries, rest)
    | .blockListStart :: rest =>
      if inBlock then do
        let (items, rest) ← readBlockList fuel rest
        return (.list items, rest)
      else .error .malformed
    | .blockMapStart :: rest =>
      if inBlock then do
        let (entries, rest) ← readBlockMap fuel rest
        return (.map entries, rest)
      else .error .malformed
    | .item :: _ =>
      if atKeyColumn then do
        let (items, rest) ← readItems fuel ts
        return (.list items, rest)
      else .error .malformed
    | _ => .error (faultAt ts)

/-- Reads a node, or the omitted one when a stop comes first. -/
def readUnless (stops : List Token) (inBlock atKeyColumn : Bool) :
    Nat → List Token → Except Fault (Node × List Token)
  | 0, _ => .error .malformed
  | fuel + 1, ts =>
    if stopsAt ts stops then .ok (omitted, ts) else read inBlock atKeyColumn fuel ts

/-- Reads the items of an indented list and its end. -/
def readBlockList : Nat → List Token → Except Fault (List Node × List Token)
  | 0, _ => .error .malformed
  | _ + 1, .blockEnd :: rest => .ok ([], rest)
  | fuel + 1, .item :: rest => do
    let (node, rest) ← readUnless [.item, .blockEnd] true false fuel rest
    let (nodes, rest) ← readBlockList fuel rest
    return (node :: nodes, rest)
  | _ + 1, ts => .error (faultAt ts)

/-- Reads the items of a list at the column of its key. -/
def readItems : Nat → List Token → Except Fault (List Node × List Token)
  | 0, _ => .error .malformed
  | fuel + 1, .item :: rest => do
    let (node, rest) ← readUnless [.item, .key, .value, .blockEnd] true false fuel rest
    let (nodes, rest) ← readItems fuel rest
    return (node :: nodes, rest)
  | _ + 1, ts => .ok ([], ts)

/-- Reads the entries of an indented mapping and its end. -/
def readBlockMap : Nat → List Token → Except Fault (List (Node × Node) × List Token)
  | 0, _ => .error .malformed
  | _ + 1, .blockEnd :: rest => .ok ([], rest)
  | fuel + 1, .key :: rest => do
    let (key, rest) ← readUnless [.key, .value, .blockEnd] true true fuel rest
    let (value, rest) ← readValue [.key, .value, .blockEnd] true fuel rest
    let (entries, rest) ← readBlockMap fuel rest
    return ((key, value) :: entries, rest)
  | _ + 1, ts => .error (faultAt ts)

/-- Reads a colon and the value behind it; without a colon the value is omitted. -/
def readValue (stops : List Token) (inBlock : Bool) :
    Nat → List Token → Except Fault (Node × List Token)
  | 0, _ => .error .malformed
  | fuel + 1, .value :: rest => readUnless stops inBlock inBlock fuel rest
  | _ + 1, ts => .ok (omitted, ts)

/-- Reads the items between square brackets and the closing one. -/
def readFlowList : Nat → Bool → List Token → Except Fault (List Node × List Token)
  | 0, _, _ => .error .malformed
  | _ + 1, _, .flowListEnd :: rest => .ok ([], rest)
  | fuel + 1, first, ts => do
    let ts ← if first then .ok ts else afterComma ts
    match ts with
    | .flowListEnd :: rest => return ([], rest)
    | .key :: rest =>
      let (key, rest) ← readUnless [.value, .comma, .flowListEnd] false false fuel rest
      let (value, rest) ← readValue [.comma, .flowListEnd] false fuel rest
      let (nodes, rest) ← readFlowList fuel false rest
      return (.map [(key, value)] :: nodes, rest)
    | ts =>
      let (node, rest) ← read false false fuel ts
      let (nodes, rest) ← readFlowList fuel false rest
      return (node :: nodes, rest)

/-- Reads the entries between braces and the closing one. A node without a colon is a key whose
value is omitted. -/
def readFlowMap : Nat → Bool → List Token → Except Fault (List (Node × Node) × List Token)
  | 0, _, _ => .error .malformed
  | _ + 1, _, .flowMapEnd :: rest => .ok ([], rest)
  | fuel + 1, first, ts => do
    let ts ← if first then .ok ts else afterComma ts
    match ts with
    | .flowMapEnd :: rest => return ([], rest)
    | .key :: rest =>
      let (key, rest) ← readUnless [.value, .comma, .flowMapEnd] false false fuel rest
      let (value, rest) ← readValue [.comma, .flowMapEnd] false fuel rest
      let (entries, rest) ← readFlowMap fuel false rest
      return ((key, value) :: entries, rest)
    | ts =>
      let (key, rest) ← read false false fuel ts
      let (entries, rest) ← readFlowMap fuel false rest
      return ((key, omitted) :: entries, rest)

end

/-- The fuel for reading a row of tokens. Between two tokens that are taken at most three calls are
nested. -/
def fuelFor (ts : List Token) : Nat := 4 * ts.length + 8

/-- The node of a document behind which nothing but ends of documents is left. -/
def alone (node : Node) (ts : List Token) : Except Fault (Option Node) :=
  match ts.dropWhile (· == .documentEnd) with
  | [] => .ok (some node)
  | ts => .error (faultAt ts)

/-- How many collections may stand one inside the other. -/
def nestingLimit : Nat := 490

/-- A row, broken off in front of the collection that stands too deep; `depth` collections are open.
-/
def withinLimit (depth : Nat) : List Token → List Token
  | [] => []
  | t :: rest =>
    match t with
    | .flowListStart | .flowMapStart | .blockListStart | .blockMapStart =>
      if depth < nestingLimit then t :: withinLimit (depth + 1) rest else [.broken .tooDeep]
    | .flowListEnd | .flowMapEnd | .blockEnd => t :: withinLimit (depth - 1) rest
    | _ => t :: withinLimit depth rest

/-- Reads the one document of a row of tokens; `none` when the row is empty. -/
def ofTokens (ts : List Token) : Except Fault (Option Node) :=
  match withinLimit 0 ts with
  | [] => .ok none
  | .documentStart :: rest => do
    let (node, rest) ←
      readUnless [.documentStart, .documentEnd] true false (fuelFor rest) rest
    alone node rest
  | ts => do
    let (node, rest) ← read true false (fuelFor ts) ts
    alone node rest

end Node

end NearestMux.Yaml
