import NearestMux.Yaml.Scalar

/-!
# Tokens — the marks and words of a document

A text is a row of tokens. Brackets, commas and scalars are tokens that stand in the text. The
tokens that open and close a block do not: they follow from indentation, and a block mapping is
known only when the colon behind its first key is met. So a scalar or a bracketed collection that
may turn out to be a key is remembered with its place in the row (`Candidate`), and the colon puts
the missing tokens in front of it.

A candidate is given up when the line ends or after 1024 characters. One that stands where a key
must stand cannot be given up, and that is a fault.

Where a token cannot be read the row breaks off, and the fault is its last token. So a reader of the
row tells the fault that comes first in the text, one of its own or this one. It can come to the
break only over tokens that are settled: from a candidate on, the row is not known until the
candidate is a key or given up, and when the text breaks off before that the break comes in the
candidate's place.

A text is looked over for characters that no document may hold before it is read, and that piece by
piece: a long text starts to be read when its first piece is found good, and a character that is not
allowed breaks the row off at the start of the piece that holds it. A fault in the pieces before it
comes first.

The anchors, aliases, tags and directives of the notation are not read; a text that uses them is
malformed here.
-/

namespace NearestMux.Yaml

/-- A mark or a word of a document. -/
inductive Token where
  /-- Three hyphens, which start a document. -/
  | documentStart
  /-- Three points, which end one. -/
  | documentEnd
  /-- The place where an indented list starts. -/
  | blockListStart
  /-- The place where an indented mapping starts. -/
  | blockMapStart
  /-- The place where an indented collection ends. -/
  | blockEnd
  /-- An opening square bracket. -/
  | flowListStart
  /-- A closing square bracket. -/
  | flowListEnd
  /-- An opening brace. -/
  | flowMapStart
  /-- A closing brace. -/
  | flowMapEnd
  /-- The hyphen before an item of an indented list. -/
  | item
  /-- A comma. -/
  | comma
  /-- The place before a key. -/
  | key
  /-- The colon before a value. -/
  | value
  /-- A text, and whether it was written plain. -/
  | scalar (plain : Bool) (text : String)
  /-- The place where the row breaks off. -/
  | broken (fault : Fault)
deriving DecidableEq, Repr

/-- A token that may turn out to start a key. -/
structure Candidate where
  /-- How many tokens stand before it. -/
  place : Nat
  /-- Whether nothing but a key can stand there. -/
  required : Bool
  /-- Where it starts in the text. -/
  origin : Cursor

/-- What is known while tokens are read. -/
structure Reading where
  /-- The place in the text. -/
  here : Cursor
  /-- The tokens read so far, the last one first. -/
  tokens : List Token
  /-- How many tokens that are. -/
  count : Nat
  /-- How many brackets are open. -/
  depth : Nat
  /-- The column of the innermost indented collection, `-1` outside them all. -/
  indent : Int
  /-- The columns of the collections around it, the nearest first. -/
  outer : List Int
  /-- Whether a key may start here. -/
  keyAllowed : Bool
  /-- The candidate of each level of brackets. -/
  candidates : List (Nat × Candidate)

namespace Reading

/-- The start of the reading, with no token read. -/
def start (here : Cursor) : Reading := ⟨here, [], 0, 0, -1, [], true, []⟩

/-- Adds a token at the end. -/
def push (r : Reading) (t : Token) : Reading :=
  { r with tokens := t :: r.tokens, count := r.count + 1 }

/-- Puts a token in front of the one at a place. -/
def insert (r : Reading) (place : Nat) (t : Token) : Reading :=
  let behind := r.count - place
  { r with
    tokens := r.tokens.take behind ++ t :: r.tokens.drop behind
    count := r.count + 1 }

/-- Skips spaces, comments and line ends. A line end outside brackets lets a key start. -/
def skipBlanks : Nat → Reading → Reading
  | 0, r => r
  | fuel + 1, r =>
    let here := r.here.skip (· == ' ')
    let here := if here.next? = some '#' then here.skip (!isLineEnd ·) else here
    match here.lineEnd? with
    | some (_, after) =>
      skipBlanks fuel { r with here := after, keyAllowed := r.keyAllowed || r.depth == 0 }
    | none => { r with here := here }

/-- Whether a candidate can no longer become a key. -/
def isStale (r : Reading) (c : Candidate) : Bool :=
  c.origin.line != r.here.line || decide (1024 < r.here.index - c.origin.index)

/-- Gives up the stale candidates. -/
def dropStale (r : Reading) : Except Fault Reading :=
  if r.candidates.any fun (_, c) => r.isStale c && c.required then .error .malformed
  else .ok { r with candidates := r.candidates.filter fun (_, c) => !r.isStale c }

/-- Gives up the candidate of this level. -/
def dropCandidate (r : Reading) : Except Fault Reading :=
  if (r.candidates.lookup r.depth).any (·.required) then .error .malformed
  else .ok { r with candidates := r.candidates.filter fun (level, _) => level != r.depth }

/-- Remembers that the token to come may start a key. -/
def saveCandidate (r : Reading) : Except Fault Reading :=
  if r.keyAllowed then do
    let r ← r.dropCandidate
    let required := r.depth == 0 && decide (r.indent = (r.here.column : Int))
    let c : Candidate := ⟨r.count, required, r.here⟩
    return { r with candidates := (r.depth, c) :: r.candidates }
  else .ok r

/-- Ends the indented collections that stand deeper than a column. -/
def unwindWith (column : Int) : List Int → Reading → Reading
  | [], r => r
  | next :: outer, r =>
    if column < r.indent then
      unwindWith column outer { r.push .blockEnd with indent := next, outer := outer }
    else r

/-- Ends the indented collections that stand deeper than a column; brackets suspend indentation. -/
def unwind (r : Reading) (column : Int) : Reading :=
  if r.depth = 0 then unwindWith column r.outer r else r

/-- Starts an indented collection at a column, unless one stands there already: puts its opening
token in front of the token at a place. -/
def openBlock (r : Reading) (column place : Nat) (t : Token) : Reading :=
  if r.indent < (column : Int) then
    { r.insert place t with indent := (column : Int), outer := r.indent :: r.outer }
  else r

/-- Takes one character as a token. -/
def take (r : Reading) (t : Token) : Reading := { r.push t with here := r.here.step }

/-- A line that starts or ends a document. -/
def boundary (r : Reading) (t : Token) : Except Fault Reading := do
  let r ← (r.unwind (-1)).dropCandidate
  return { r.push t with here := r.here.steps 3, keyAllowed := false }

/-- An opening bracket. -/
def openFlow (r : Reading) (t : Token) : Except Fault Reading := do
  let r ← r.saveCandidate
  return { r.take t with depth := r.depth + 1, keyAllowed := true }

/-- A closing bracket. -/
def closeFlow (r : Reading) (t : Token) : Except Fault Reading := do
  let r ← r.dropCandidate
  if r.depth = 0 then .error .malformed
  else return { r.take t with depth := r.depth - 1, keyAllowed := false }

/-- A comma between brackets. -/
def flowComma (r : Reading) : Except Fault Reading := do
  let r ← r.dropCandidate
  return { r.take .comma with keyAllowed := true }

/-- The hyphen of an item. -/
def blockItem (r : Reading) : Except Fault Reading := do
  if r.depth = 0 && !r.keyAllowed then .error .malformed
  else
    let r := if r.depth = 0 then r.openBlock r.here.column r.count .blockListStart else r
    let r ← r.dropCandidate
    return { r.take .item with keyAllowed := true }

/-- A question mark that announces a key. -/
def announcedKey (r : Reading) : Except Fault Reading := do
  if r.depth = 0 && !r.keyAllowed then .error .malformed
  else
    let r := if r.depth = 0 then r.openBlock r.here.column r.count .blockMapStart else r
    let r ← r.dropCandidate
    return { r.take .key with keyAllowed := r.depth == 0 }

/-- A colon. It makes a key of the candidate of its level; without a candidate it stands behind an
announced key. -/
def colon (r : Reading) : Except Fault Reading := do
  match r.candidates.lookup r.depth with
  | some c =>
    let r := { r with candidates := r.candidates.filter fun (level, _) => level != r.depth }
    let r := r.insert c.place .key
    let r := if r.depth = 0 then r.openBlock c.origin.column c.place .blockMapStart else r
    return { r.take .value with keyAllowed := false }
  | none =>
    if r.depth = 0 && !r.keyAllowed then .error .malformed
    else
      let r := if r.depth = 0 then r.openBlock r.here.column r.count .blockMapStart else r
      let r ← r.dropCandidate
      return { r.take .value with keyAllowed := r.depth == 0 }

/-- A quoted scalar. -/
def quotedToken (r : Reading) : Except Fault Reading := do
  let r ← r.saveCandidate
  let (text, after) ← quotedScalar r.here
  return { r.push (.scalar false text) with here := after, keyAllowed := false }

/-- A block scalar. -/
def blockToken (r : Reading) : Except Fault Reading := do
  let r ← r.dropCandidate
  let (text, after) ← blockScalar r.indent r.here
  return { r.push (.scalar false text) with here := after, keyAllowed := true }

/-- A plain scalar. A line end read behind it lets a key start. -/
def plainToken (r : Reading) : Except Fault Reading := do
  let r ← r.saveCandidate
  let (text, after, ended) := plainScalar (r.depth != 0) (r.indent + 1) r.here
  return { r.push (.scalar true text) with here := after, keyAllowed := ended }

/-- The characters that start no plain scalar. -/
def indicators : List Char :=
  ['-', '?', ':', ',', '[', ']', '{', '}', '#', '&', '*', '!', '|', '>', '\x27', '\x22', '%', '@',
    '\x60']

/-- Whether a plain scalar can start here: with a character that is no indicator, or with a hyphen,
or outside brackets a question mark or a colon, that has a word behind it. -/
def plainAllowed (r : Reading) (c : Char) : Bool :=
  !(endsWord (some c)) &&
    (!indicators.contains c ||
      (!(endsWord (r.here.ahead? 1)) && (c == '-' || (r.depth == 0 && (c == '?' || c == ':')))))

/-- Reads the token that starts with a character. -/
def token (r : Reading) (c : Char) : Except Fault Reading :=
  let alone := r.depth != 0 || endsWord (r.here.ahead? 1)
  if r.here.column == 0 && c == '%' then .error .malformed
  else if r.here.column == 0 && r.here.marks '-' then r.boundary .documentStart
  else if r.here.column == 0 && r.here.marks '.' then r.boundary .documentEnd
  else if c == '[' then r.openFlow .flowListStart
  else if c == '{' then r.openFlow .flowMapStart
  else if c == ']' then r.closeFlow .flowListEnd
  else if c == '}' then r.closeFlow .flowMapEnd
  else if c == ',' then r.flowComma
  else if c == '-' && endsWord (r.here.ahead? 1) then r.blockItem
  else if c == '?' && alone then r.announcedKey
  else if c == ':' && alone then r.colon
  else if (c == '|' || c == '>') && r.depth == 0 then r.blockToken
  else if c == '\x27' || c == '\x22' then r.quotedToken
  else if r.plainAllowed c then r.plainToken
  else .error .malformed

/-- What comes behind the tokens read so far: more tokens, or the end of the text. -/
inductive Next where
  /-- More tokens. -/
  | more (r : Reading)
  /-- The end. -/
  | finished (tokens : List Token)

/-- Reads on by one token, or to the end. -/
def advance (r : Reading) : Except Fault Next := do
  let r ← (r.skipBlanks (r.here.left + 1)).dropStale
  let r := r.unwind (r.here.column : Int)
  match r.here.next? with
  | none => return .finished (← (r.unwind (-1)).dropCandidate).tokens.reverse
  | some c => return .more (← r.token c)

/-- The place of the first candidate that may still become a key, or the end of the row. -/
def settled (r : Reading) : Nat :=
  ((r.candidates.filter fun (_, c) => !r.isStale c).map fun (_, c) => c.place).foldl min
    r.count

/-- The row that breaks off behind its settled tokens. -/
def breakOff (r : Reading) (fault : Fault) : List Token :=
  (r.tokens.drop (r.count - r.settled)).reverse ++ [.broken fault]

/-- Reads tokens up to the end of the text; `cut` says that the text goes on where it can no longer
be read. Every token takes a character, so the number of characters is fuel enough. -/
def toEnd (cut : Bool) : Nat → Reading → List Token
  | 0, r => r.breakOff .malformed
  | fuel + 1, r =>
    match r.advance with
    | .error fault => r.breakOff fault
    | .ok (.finished tokens) => if cut then r.breakOff .malformed else tokens
    | .ok (.more r) => toEnd cut fuel r

end Reading

/-- Whether a character may stand in a document at all. -/
def isAllowed (c : Char) : Bool :=
  let n := c.toNat
  decide (n = 0x09 ∨ n = 0x0a ∨ n = 0x0d ∨ (0x20 ≤ n ∧ n ≤ 0x7e) ∨ n = 0x85 ∨
    (0xa0 ≤ n ∧ n ≤ 0xd7ff) ∨ (0xe000 ≤ n ∧ n ≤ 0xfffd) ∨ 0x10000 ≤ n)

/-- How many characters of a text are looked over before any is read. -/
def firstPiece : Nat := 8192

/-- How many characters are looked over at a time from there on. -/
def laterPiece : Nat := 4096

/-- Where the piece starts that a place lies in. -/
def pieceStart (place : Nat) : Nat :=
  if place < firstPiece then 0
  else firstPiece + (place - firstPiece) / laterPiece * laterPiece

/-- The tokens of characters that are all allowed. A byte order mark at their very start is skipped.
-/
def tokensOfChars (cut : Bool) (cs : List Char) : List Token :=
  let here := Cursor.start cs
  let here := if cs.head? = some '\ufeff' then here.step else here
  (Reading.start here).toEnd cut (cs.length + 1)

/-- The tokens of a text. -/
def tokensOf (text : String) : List Token :=
  let cs := unifiedLineEnds text.toList
  match cs.findIdx? (!isAllowed ·) with
  | none => tokensOfChars false cs
  | some place => tokensOfChars true (cs.take (pieceStart place))

end NearestMux.Yaml
