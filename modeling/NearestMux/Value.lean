import NearestMux.Binary64

/-!
# Values — what a document holds

A netlist and a configuration are documents of one kind: scalars, lists, and mappings whose order
counts and whose keys may be any scalar. Beside the values that a document of either kind asks for
there are those that it may hold all the same: days and times, rows of bytes, sets, and the pairs
that an ordered mapping is a list of. This module has the values and the three questions asked of
them everywhere: is the value empty (`isTruthy`), are two scalars one and the same key (`sameKey`),
and what stands under a name (`lookup?`).

Keys are compared as numbers where they are numbers. The truth values count as one and zero, so
`true`, `1` and `1.0` are one key; a text is never a number's key. What is not a number is one key
as well, although as a number it equals nothing.

A value is a tree. A document can also write a list or a mapping that contains itself; that is none
of the values here.
-/

namespace NearestMux

/-- What a day or a time is told by. The three are never compared with one another. -/
inductive Moment.Kind where
  /-- A day. -/
  | day
  /-- A time of a day, wherever it is taken. -/
  | wallClock
  /-- A time of a day at an offset. -/
  | zoned
deriving DecidableEq

/-- A day or a time. Nothing is computed with it, so its two spellings come with it. -/
structure Moment where
  /-- What it is told by. -/
  kind : Moment.Kind
  /-- Where it lies among those of its kind. -/
  place : Int
  /-- How it is written as a name. -/
  name : String
  /-- How it is written inside a message. -/
  quoted : String

/-- A value of a document. -/
inductive Value where
  /-- The absent value. -/
  | null
  /-- A truth value. -/
  | bool (b : Bool)
  /-- A whole number. -/
  | int (i : Int)
  /-- A real number. -/
  | float (x : Binary64)
  /-- A text. -/
  | text (s : String)
  /-- A day or a time. -/
  | moment (m : Moment)
  /-- A row of bytes. -/
  | bytes (data : List UInt8)
  /-- A list. -/
  | list (items : List Value)
  /-- A set, its members in the order in which they are counted out. -/
  | set (members : List Value)
  /-- A pair of an ordered mapping. -/
  | pair (first second : Value)
  /-- A mapping, its entries in order of arrival and no key twice. -/
  | map (entries : List (Value × Value))

namespace Value

instance : Inhabited Value := ⟨.null⟩

/-- Whether a value counts as given. The absent value, `false`, zero, the empty text and whatever
else is empty do not. -/
def isTruthy : Value → Bool
  | .null => false
  | .bool b => b
  | .int i => i != 0
  | .float x => !x.isZero
  | .text s => !s.isEmpty
  | .moment _ => true
  | .bytes data => !data.isEmpty
  | .list items => !items.isEmpty
  | .set members => !members.isEmpty
  | .pair _ _ => true
  | .map entries => !entries.isEmpty

/-- A value, or another one in its place when it does not count as given. -/
def orElse (v w : Value) : Value := if v.isTruthy then v else w

/-- The whole number that a scalar is when it serves as a key. -/
def keyNumber? : Value → Option Int
  | .bool b => some (if b then 1 else 0)
  | .int i => some i
  | .float x => x.integral?
  | _ => none

/-- Whether two scalars are the same key of a mapping. -/
def sameKey : Value → Value → Bool
  | .null, .null => true
  | .text s, .text t => s == t
  | .float x, .float y => x == y || x.sameNumber y
  | .moment x, .moment y => x.kind == y.kind && x.place == y.place
  | .bytes x, .bytes y => x == y
  | v, w => match v.keyNumber?, w.keyNumber? with
    | some i, some j => i == j
    | _, _ => false

/-- Sets a key: a key that is there keeps its place and takes the new value, another one is added at
the end. -/
def setEntry (key value : Value) : List (Value × Value) → List (Value × Value)
  | [] => [(key, value)]
  | (k, v) :: rest =>
    if k.sameKey key then (k, value) :: rest else (k, v) :: setEntry key value rest

/-- The mapping that a row of entries makes when they are set one after the other. -/
def ofEntries (entries : List (Value × Value)) : Value :=
  .map (entries.foldl (fun done (k, v) => setEntry k v done) [])

/-- The value under a named key. -/
def lookup? (entries : List (Value × Value)) (name : String) : Option Value :=
  (entries.find? fun (k, _) => k.sameKey (.text name)).map Prod.snd

/-- The value under a named key, the absent value when the key is not there. -/
def entry (entries : List (Value × Value)) (name : String) : Value :=
  (lookup? entries name).getD .null

end Value

end NearestMux
