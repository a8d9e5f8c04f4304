import NearestMux.Identifier
import NearestMux.Signal.Shape
import NearestMux.Signal.Text
import NearestMux.Value.Text

/-!
# Reading a signal

A document writes a signal as a value. A truth value is one constant bit and an integer is
thirty-two; a text is a constant or names a wire, whole or in part, with blanks at its ends trimmed;
a list is its parts set side by side, the most significant first, and may be nested or empty.
Nothing else is a signal.

What a name means depends on where the signal stands, so reading takes the wires of that place as a
function. Parts are read from the last to the first, the order of their bits, so of two faults the
later one in the text is the one reported.

A width, an index or a decimal constant of too many digits is not read, nor is a constant filled up
to more bits than a row can have. A wire is looked up before its indices are.
-/

namespace NearestMux

/-- Why a value is no signal. -/
inductive SignalFault where
  /-- The value has no shape of a signal. -/
  | unreadable (value : Value)
  /-- The text names a wire that is not there. -/
  | unknownWire (text : String)
  /-- The indices are in the wrong order or beyond the wire. -/
  | outOfBounds (high low : Nat) (wire : Wire)
  /-- The digits of a decimal constant are none of the decimal base. -/
  | notDecimal (text : String)
  /-- The digits of a binary constant are no bits. -/
  | notBits (text : String)
  /-- A width, an index or a decimal constant has so many digits, which are too many. -/
  | tooManyDigits (count : Nat)
  /-- The constant would have to be filled up to more bits than a row can be filled up to. -/
  | tooWide (width : Nat)

/-- The text of the fault. -/
def SignalFault.message : SignalFault → String
  | .unreadable value => "bad signal " ++ value.quoted
  | .unknownWire text => "signal " ++ Text.quoted text ++ " refers to unknown wire"
  | .outOfBounds high low wire =>
    "range [" ++ Text.natText high ++ ":" ++ Text.natText low ++ "] out of bounds for " ++
      wire.name ++ " (width " ++ Text.natText wire.width ++ ")"
  | .notDecimal text => "bad decimal constant " ++ Text.quoted text
  | .notBits text => "bad constant " ++ Text.quoted text
  | .tooManyDigits count => Text.unreadableMessage count
  | .tooWide width => "constant of " ++ Text.natText width ++ " bits is too wide"

/-- Whether the numbers that the text of the fault shows can be written. -/
def SignalFault.isTellable : SignalFault → Bool
  | .unreadable value => value.isWritable
  | .outOfBounds high low wire =>
    Text.isWritable high && Text.isWritable low && Text.isWritable wire.width
  | _ => true

/-- What is wrong with a signal whose digits give no bits. -/
def ConstantFault.inText (text : String) : ConstantFault → SignalFault
  | .notDecimal => .notDecimal text
  | .notBits => .notBits text
  | .tooManyDigits count => .tooManyDigits count

namespace Signal

/-- The number that a row of digits is read as. -/
def number (digits : List Char) : Except SignalFault Nat :=
  if Text.isShort digits then .ok (Text.decimalNumber digits)
  else .error (.tooManyDigits digits.length)

/-- A constant of a width, from the digits of its base. -/
def ofDigits (text : String) (width : Nat) (base : Base) (digits : List Char) :
    Except SignalFault Signal :=
  match base.bits digits with
  | .ok bits =>
    match fittedBits? width bits with
    | some row => .ok (ofChunks [.const row])
    | none => .error (.tooWide width)
  | .error fault => .error (fault.inText text)

/-- The bits of a wire between two indices. -/
def ofRange (wire : Wire) (high low : Nat) : Except SignalFault Signal :=
  if h : low ≤ high ∧ high < wire.width then
    .ok (ofChunks [.slice wire low (high - low + 1) (by omega)])
  else .error (.outOfBounds high low wire)

/-- All of a wire or, when indices are given, the bits between them. -/
def ofIndices (wire : Wire) : Option (List Char × List Char) → Except SignalFault Signal
  | none => .ok (ofWire wire)
  | some (high, low) => do ofRange wire (← number high) (← number low)

/-- The signal of a text of a known shape. -/
def ofShape (wire? : String → Option Wire) (text : String) : SignalShape → Except SignalFault Signal
  | .constant width base digits => do ofDigits text (← number width) base digits
  | .reference name range =>
    match wire? (Identifier.escape (String.ofList name)) with
    | some wire => ofIndices wire range
    | none => .error (.unknownWire text)

/-- The signal of a text. -/
def ofText (wire? : String → Option Wire) (text : String) : Except SignalFault Signal :=
  let cs := Text.trimmed Text.isBlank text.toList
  match SignalShape.ofChars? cs with
  | some shape => ofShape wire? (String.ofList cs) shape
  | none => .error (.unreadable (.text (String.ofList cs)))

mutual

/-- The signal of a value. -/
def ofValue (wire? : String → Option Wire) : Value → Except SignalFault Signal
  | .bool b => .ok (ofInt (if b then 1 else 0) 1)
  | .int i => .ok (ofInt i 32)
  | .text text => ofText wire? text
  | .list parts =>
    match chunksOfParts wire? parts with
    | .ok chunks => .ok (ofChunks chunks)
    | .error fault => .error fault
  | v => .error (.unreadable v)

/-- The chunks of parts that stand side by side, the most significant part first. -/
def chunksOfParts (wire? : String → Option Wire) : List Value → Except SignalFault (List Chunk)
  | [] => .ok []
  | part :: rest =>
    match chunksOfParts wire? rest with
    | .ok low =>
      match ofValue wire? part with
      | .ok high => .ok (low ++ high.chunks)
      | .error fault => .error fault
    | .error fault => .error fault

end

end Signal

end NearestMux
