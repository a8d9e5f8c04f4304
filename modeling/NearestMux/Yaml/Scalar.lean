import NearestMux.Text.Numeral
import NearestMux.Yaml.Cursor

/-!
# Scalars — the four ways of writing a text

A scalar stands plain, between apostrophes, between double quotes, or as an indented block. A plain
or quoted scalar may run over several lines; then a single line end reads as a space, and of several
the first is dropped and the others stay. A block keeps its line ends (`|`) or folds them in that
same way (`>`), and says by a sign what happens to those at its end.

Every reader here starts at the first character of a scalar and returns the text with the place
behind it. The readers work by fuel; each round takes a character, so the number of characters ahead
is always enough.
-/

namespace NearestMux.Yaml

/-- How line ends between two parts of a scalar read: one alone is a space, of several the first is
dropped. A separator is never dropped. -/
def foldedEnds (first : Char) (more : List Char) : List Char :=
  if first ≠ '\n' then first :: more else if more.isEmpty then [' '] else more

/-- Reads line ends and spaces as long as they come; `none` at a line that starts or ends a
document. -/
def plainEnds? : Nat → Cursor → List Char → Option (List Char × Cursor)
  | 0, here, ends => some (ends, here)
  | fuel + 1, here, ends =>
    if here.next? = some ' ' then plainEnds? fuel here.step ends
    else match here.lineEnd? with
      | none => some (ends, here)
      | some (c, after) =>
        if after.atBoundary then none else plainEnds? fuel after (ends ++ [c])

/-- What stands between two words of a plain scalar: how it reads, the place behind it, and whether
it holds a line end. Nothing is read when no word can follow. -/
def plainGap (here : Cursor) : List Char × Cursor × Bool :=
  let (spaces, after) := here.run (· == ' ')
  match after.lineEnd? with
  | none => (spaces, after, false)
  | some (c, line) =>
    if line.atBoundary then ([], line, true)
    else match plainEnds? line.left line [] with
      | none => ([], line, true)
      | some (ends, word) => (foldedEnds c ends, word, true)

/-- The word of a plain scalar that stands here. Inside brackets the indicators of a flow end it. -/
def plainWord (inFlow : Bool) : List Char → List Char
  | [] => []
  | c :: rest =>
    if endsWord (some c) then []
    else if c == ':' && (endsWord rest.head? ||
        (inFlow && (rest.head?.any fun d => [',', '[', ']', '{', '}'].contains d))) then []
    else if inFlow && [',', '?', '[', ']', '{', '}'].contains c then []
    else c :: plainWord inFlow rest

/-- Reads a plain scalar whose further lines must stand at `indent` or deeper. `done` is what was
read, the last character first, and `gap` what stands before the next word. The answer tells besides
whether a line end was read behind the last word. -/
def plainFrom (inFlow : Bool) (indent : Int) :
    Nat → Cursor → List Char → List Char → Bool → List Char × Cursor × Bool
  | 0, here, done, _, ended => (done.reverse, here, ended)
  | fuel + 1, here, done, gap, ended =>
    let word := if here.next? = some '#' then [] else plainWord inFlow here.rest
    if word.isEmpty then (done.reverse, here, ended)
    else
      let done := word.reverse ++ (gap.reverse ++ done)
      let (gap, after, ended) := plainGap (here.steps word.length)
      if gap.isEmpty || after.next? = some '#' || (!inFlow && (after.column : Int) < indent) then
        (done.reverse, after, ended)
      else plainFrom inFlow indent fuel after done gap ended

/-- Reads a plain scalar. -/
def plainScalar (inFlow : Bool) (indent : Int) (here : Cursor) : String × Cursor × Bool :=
  let (cs, after, ended) := plainFrom inFlow indent (here.left + 1) here [] [] false
  (String.ofList cs, after, ended)

/-- The character that a letter behind a backslash stands for. -/
def escapes : List (Char × Char) := [
  ('0', '\x00'), ('a', '\x07'), ('b', '\x08'), ('t', '\t'), ('\t', '\t'), ('n', '\n'),
  ('v', '\x0b'), ('f', '\x0c'), ('r', '\r'), ('e', '\x1b'), (' ', ' '), ('\x22', '\x22'),
  ('\\', '\\'), ('/', '/'), ('N', '\x85'), ('_', '\xa0'), ('L', '\u2028'), ('P', '\u2029')]

/-- The letters behind which a code point stands, with the number of its digits. -/
def codeLengths : List (Char × Nat) := [('x', 2), ('u', 4), ('U', 8)]

/-- The number that a row of hexadecimal digits writes; `none` when one is no digit. -/
def hexNumber? (cs : List Char) : Option Nat :=
  cs.foldl (fun total c => match total, Text.hexValue? c with
    | some n, some d => some (16 * n + d)
    | _, _ => none) (some 0)

/-- The line ends, with the blanks around them, that come next inside quotes. A line that starts or
ends a document must not stand there. -/
def quotedEnds : Nat → Cursor → List Char → Except Fault (List Char × Cursor)
  | 0, here, ends => .ok (ends, here)
  | fuel + 1, here, ends =>
    if here.atBoundary then .error .malformed
    else
      let line := here.skip fun c => c == ' ' || c == '\t'
      match line.lineEnd? with
      | none => .ok (ends, line)
      | some (c, after) => quotedEnds fuel after (ends ++ [c])

/-- Reads an escape behind its backslash. -/
def escaped (here : Cursor) : Except Fault (List Char × Cursor) :=
  match here.lineEnd? with
  | some (_, after) => quotedEnds (after.left + 1) after []
  | none =>
    match here.next? with
    | none => .error .malformed
    | some c =>
      match escapes.lookup c, codeLengths.lookup c with
      | some meant, _ => .ok ([meant], here.step)
      | none, some width =>
        let digits := here.step.rest.take width
        match hexNumber? digits with
        | some n =>
          if digits.length ≠ width then .error .malformed
          else if 0x110000 ≤ n then .error (.noCharacter n)
          else if n.isValidChar then .ok ([Char.ofNat n], here.step.steps width)
          else .error .malformed
        | none => .error .malformed
      | none, none => .error .malformed

/-- Reads what follows the opening quote, up to and with the closing one. `done` is what was read,
the last character first. -/
def quotedFrom (quote : Char) : Nat → Cursor → List Char → Except Fault (List Char × Cursor)
  | 0, _, _ => .error .malformed
  | fuel + 1, here, done =>
    match here.next? with
    | none => .error .malformed
    | some c =>
      if c == quote then
        if quote == '\x27' && here.ahead? 1 == some '\x27' then
          quotedFrom quote fuel (here.steps 2) (quote :: done)
        else .ok (done.reverse, here.step)
      else if c == '\\' && quote == '\x22' then
        match escaped here.step with
        | .ok (cs, after) => quotedFrom quote fuel after (cs.reverse ++ done)
        | .error e => .error e
      else if endsWord (some c) then
        let (blanks, line) := here.run fun c => c == ' ' || c == '\t'
        match line.lineEnd? with
        | none => quotedFrom quote fuel line (blanks.reverse ++ done)
        | some (first, after) =>
          match quotedEnds (after.left + 1) after [] with
          | .ok (ends, word) => quotedFrom quote fuel word ((foldedEnds first ends).reverse ++ done)
          | .error e => .error e
      else quotedFrom quote fuel here.step (c :: done)

/-- Reads a quoted scalar. -/
def quotedScalar (here : Cursor) : Except Fault (String × Cursor) :=
  match here.next? with
  | none => .error .malformed
  | some quote =>
    match quotedFrom quote (here.left + 1) here.step [] with
    | .ok (cs, after) => .ok (String.ofList cs, after)
    | .error e => .error e

/-- What becomes of the line ends at the end of a block. -/
inductive Chomping where
  /-- All but the first are dropped. -/
  | clip
  /-- All are dropped. -/
  | strip
  /-- All are kept. -/
  | keep
deriving DecidableEq

/-- The sign that chooses a chomping. -/
def chomping? : Option Char → Option Chomping
  | some '+' => some .keep
  | some '-' => some .strip
  | _ => none

/-- The digit that sets the indentation of a block; it must not be zero. -/
def blockDigit (here : Cursor) : Except Fault (Option Nat × Cursor) :=
  match here.next? with
  | some c =>
    if '0' ≤ c ∧ c ≤ '9' then
      if c = '0' then .error .malformed else .ok (some (c.toNat - '0'.toNat), here.step)
    else .ok (none, here)
  | none => .ok (none, here)

/-- Reads the indicators behind `|` or `>`: a chomping and an indentation, in either order. -/
def blockIndicators (here : Cursor) : Except Fault (Chomping × Option Nat × Cursor) :=
  match chomping? here.next? with
  | some chomping =>
    match blockDigit here.step with
    | .ok (digit, after) => .ok (chomping, digit, after)
    | .error e => .error e
  | none =>
    match blockDigit here with
    | .ok (some digit, after) =>
      match chomping? after.next? with
      | some chomping => .ok (chomping, some digit, after.step)
      | none => .ok (.clip, some digit, after)
    | .ok (none, after) => .ok (.clip, none, after)
    | .error e => .error e

/-- Reads the rest of the line that opens a block: a space or nothing behind the indicators, then
nothing but a comment. -/
def blockHeaderEnd (here : Cursor) : Except Fault Cursor :=
  if !(endsWord here.next?) || here.next? = some '\t' then .error .malformed
  else
    let here := here.skip (· == ' ')
    let here := if here.next? = some '#' then here.skip (!isLineEnd ·) else here
    match here.next?, here.lineEnd? with
    | none, _ => .ok here
    | some _, some (_, after) => .ok after
    | some _, none => .error .malformed

/-- The empty lines before the first line of a block whose indentation is not set, and the deepest
column that a space on them reaches. -/
def leadingLines : Nat → Cursor → List Char → Nat → List Char × Nat × Cursor
  | 0, here, ends, deepest => (ends, deepest, here)
  | fuel + 1, here, ends, deepest =>
    if here.next? = some ' ' then leadingLines fuel here.step ends (max deepest here.step.column)
    else match here.lineEnd? with
      | some (c, after) => leadingLines fuel after (ends ++ [c]) deepest
      | none => (ends, deepest, here)

/-- Skips spaces up to a column. -/
def indentTo (column : Int) : Nat → Cursor → Cursor
  | 0, here => here
  | fuel + 1, here =>
    if (here.column : Int) < column ∧ here.next? = some ' ' then indentTo column fuel here.step
    else here

/-- The empty lines that come next, up to the indentation of the line behind them. -/
def blockEnds (indent : Int) : Nat → Cursor → List Char → List Char × Cursor
  | 0, here, ends => (ends, here)
  | fuel + 1, here, ends =>
    let line := indentTo indent (here.left + 1) here
    match line.lineEnd? with
    | some (c, after) => blockEnds indent fuel after (ends ++ [c])
    | none => (ends, line)

/-- Whether a line of a block starts with a blank, which keeps the line ends around it from being
folded. -/
def startsBlank (here : Cursor) : Bool := here.next? = some ' ' || here.next? = some '\t'

/-- Reads the lines of a block. `done` is what was read, the last character first; `ends` are the
empty lines before the next line and `lineEnd` is the end of the last one. -/
def blockFrom (folded : Bool) (indent : Int) :
    Nat → Cursor → List Char → List Char → List Char → List Char × List Char × List Char × Cursor
  | 0, here, done, ends, lineEnd => (done.reverse, ends, lineEnd, here)
  | fuel + 1, here, done, ends, lineEnd =>
    if (here.column : Int) = indent ∧ here.next?.isSome then
      let blank := startsBlank here
      let (line, after) := here.run (!isLineEnd ·)
      let done := line.reverse ++ (ends.reverse ++ done)
      let (lineEnd, after) := match after.lineEnd? with
        | some (c, behind) => ([c], behind)
        | none => ([], after)
      let (ends, after) := blockEnds indent (after.left + 1) after []
      if (after.column : Int) = indent ∧ after.next?.isSome then
        let joint := if folded && lineEnd == ['\n'] && !blank && !startsBlank after then
            (if ends.isEmpty then [' '] else [])
          else lineEnd
        blockFrom folded indent fuel after (joint.reverse ++ done) ends lineEnd
      else (done.reverse, ends, lineEnd, after)
    else (done.reverse, ends, lineEnd, here)

/-- Reads a block scalar inside a collection that stands at `indent`. -/
def blockScalar (indent : Int) (here : Cursor) : Except Fault (String × Cursor) := do
  let folded := here.next? = some '>'
  let (chomping, digit, after) ← blockIndicators here.step
  let here ← blockHeaderEnd after
  let least := max (indent + 1) 1
  let (depth, ends, here) := match digit with
    | some n =>
      let depth := least + (n : Int) - 1
      let (ends, here) := blockEnds depth (here.left + 1) here []
      (depth, ends, here)
    | none =>
      let (ends, deepest, here) := leadingLines (here.left + 1) here [] 0
      (max least (deepest : Int), ends, here)
  let (done, ends, lineEnd, here) := blockFrom folded depth (here.left + 1) here [] ends []
  let tail := match chomping with
    | .strip => []
    | .clip => lineEnd
    | .keep => lineEnd ++ ends
  return (String.ofList (done ++ tail), here)

end NearestMux.Yaml
