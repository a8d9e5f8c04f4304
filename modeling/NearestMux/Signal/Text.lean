import NearestMux.Signal.Basic

/-!
# The text of a signal

A signal is written the way it is read by a person: the most significant bit first. A constant shows
its width and its bits; a wire that is taken whole shows its name alone; a slice shows the one index
or the two that bound it. Several chunks stand between braces.

The texts are the rule alone. A signal is written only when the numbers that its text shows have few
enough digits (`Signal.isWritable`).
-/

namespace NearestMux

/-- The text of a chunk. -/
def Chunk.text : Chunk → String
  | .const bits => Text.natText bits.length ++ "'b" ++ String.ofList bits.reverse
  | .slice wire offset width _ =>
    if offset = 0 ∧ width = wire.width then wire.name
    else if width = 1 then wire.name ++ " [" ++ Text.natText offset ++ "]"
    else
      wire.name ++ " [" ++ Text.intText ((offset + width : Nat) - 1 : Int) ++ ":" ++
        Text.natText offset ++ "]"

/-- Whether the numbers that the text of a chunk shows can be written: the width of a constant, and
the indices of a slice that is not a whole wire. -/
def Chunk.isWritable : Chunk → Bool
  | .const bits => Text.isWritable bits.length
  | .slice wire offset width _ =>
    decide (offset = 0 ∧ width = wire.width) ||
      Text.isWritable ((offset + width : Nat) - 1 : Int) && Text.isWritable offset

namespace Signal

/-- Whether the numbers that the text of a signal shows can be written. -/
def isWritable (s : Signal) : Bool := s.chunks.all Chunk.isWritable

/-- The text of a signal. -/
def text (s : Signal) : String :=
  match s.chunks with
  | [] => "\x7b\x7d"
  | [c] => c.text
  | chunks => "\x7b " ++ String.intercalate " " (chunks.reverse.map Chunk.text) ++ " \x7d"

/-- What a signal was taken for and is not. -/
inductive Mistaken where
  /-- All of one wire. -/
  | wholeWire (s : Signal)
  /-- One chunk. -/
  | singleChunk (s : Signal)

/-- The text of the fault. -/
def Mistaken.message : Mistaken → String
  | .wholeWire s => s.text ++ " is not a whole wire"
  | .singleChunk s => s.text ++ " is not a single chunk"

/-- The wire that the signal is all of. -/
def asWire (s : Signal) : Except Mistaken Wire :=
  match s.wholeWire? with
  | some wire => .ok wire
  | none => .error (.wholeWire s)

/-- The one chunk of the signal. -/
def asChunk (s : Signal) : Except Mistaken Chunk :=
  match s.chunk? with
  | some c => .ok c
  | none => .error (.singleChunk s)

end Signal

end NearestMux
