/-!
# Cursors — a place in a document's text

Indentation decides the structure of a YAML text, so a reader has to know not only what comes next
but also where it stands: on which line, in which column, and how far into the text. A `Cursor` is
that knowledge together with the text that is still to be read. It moves only forward, one character
at a time.

Four characters end a line: the line feed, the next-line control and the two separators of Unicode.
A carriage return never comes before a reader: alone or with a line feed behind it, it is taken for
a line feed before anything in the text is counted (`unifiedLineEnds`).
-/

namespace NearestMux.Yaml

/-- Why a text is no document. -/
inductive Fault where
  /-- The text breaks the rules of the notation or uses a part of it that is not read. -/
  | malformed
  /-- A number has a base mark and no digit. -/
  | emptyNumeral
  /-- A decimal number has too many digits. -/
  | numberTooLong
  /-- An escape names a code point beyond the last one. -/
  | noCharacter (code : Nat)
  /-- Too many collections stand one inside the other. -/
  | tooDeep
deriving DecidableEq, Repr

/-- A place in a text. -/
structure Cursor where
  /-- What is still to be read. -/
  rest : List Char
  /-- The number of characters behind the cursor. -/
  index : Nat
  /-- The number of ended lines behind the cursor. -/
  line : Nat
  /-- The number of characters between the start of the line and the cursor. -/
  column : Nat
  /-- The number of characters of the whole text. -/
  total : Nat

/-- Characters with a line feed for every carriage return, whether it stands alone or before a line
feed. -/
def unifiedLineEnds : List Char → List Char
  | [] => []
  | '\r' :: '\n' :: rest => '\n' :: unifiedLineEnds rest
  | c :: rest => (if c = '\r' then '\n' else c) :: unifiedLineEnds rest

/-- Whether a character ends a line. -/
def isLineEnd (c : Char) : Bool :=
  c == '\n' || c == '\x85' || c == '\u2028' || c == '\u2029'

/-- Whether nothing, a blank or the end of a line comes next. -/
def endsWord : Option Char → Bool
  | none => true
  | some c => c == ' ' || c == '\t' || isLineEnd c

namespace Cursor

/-- The start of a text. -/
def start (cs : List Char) : Cursor := ⟨cs, 0, 0, 0, cs.length⟩

/-- The next character. -/
def next? (here : Cursor) : Option Char := here.rest.head?

/-- The number of characters that are still to be read. -/
def left (here : Cursor) : Nat := here.total - here.index

/-- The character a number of places ahead. -/
def ahead? (here : Cursor) (n : Nat) : Option Char := (here.rest.drop n).head?

/-- One character further. A byte order mark takes no column. -/
def step (here : Cursor) : Cursor :=
  match here.rest with
  | [] => here
  | c :: rest =>
    if isLineEnd c then
      { here with rest := rest, index := here.index + 1, line := here.line + 1, column := 0 }
    else
      { here with
        rest := rest
        index := here.index + 1
        column := if c == '\ufeff' then here.column else here.column + 1 }

/-- A number of characters further. -/
def steps : Nat → Cursor → Cursor
  | 0, here => here
  | n + 1, here => steps n here.step

/-- The run of characters of a class that comes next, and the place behind it. -/
def run (here : Cursor) (p : Char → Bool) : List Char × Cursor :=
  let cs := here.rest.takeWhile p
  (cs, steps cs.length here)

/-- The place behind the run of characters of a class that comes next. -/
def skip (here : Cursor) (p : Char → Bool) : Cursor := (here.run p).2

/-- Reads the end of a line if it comes next. Every end reads as a line feed, except the two
separators, which read as themselves. -/
def lineEnd? (here : Cursor) : Option (Char × Cursor) :=
  match here.rest with
  | c :: _ =>
    if c == '\u2028' || c == '\u2029' then some (c, here.step)
    else if isLineEnd c then some ('\n', here.step)
    else none
  | [] => none

/-- Whether a mark of three characters stands here as a word of its own. -/
def marks (here : Cursor) (c : Char) : Bool :=
  here.rest.take 3 == [c, c, c] && endsWord (here.ahead? 3)

/-- Whether a line that starts or ends a document stands here. -/
def atBoundary (here : Cursor) : Bool := here.marks '-' || here.marks '.'

end Cursor

end NearestMux.Yaml
