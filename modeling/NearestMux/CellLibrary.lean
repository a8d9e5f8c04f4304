/-!
# The cell library — ports of the internal primitives

Synthesis works with a fixed set of primitive cells. For each of them the library lists the ports it
reads and the ports it drives, in order. A primitive that is not listed has no signature, and a port
that a signature does not list has no direction by it.
-/

namespace NearestMux

/-- The way a port faces. -/
inductive Direction where
  /-- The cell reads the port. -/
  | input
  /-- The cell drives the port. -/
  | output
  /-- The cell does both. -/
  | inout
deriving DecidableEq

namespace Direction

/-- The word for a direction. -/
def word : Direction → String
  | .input => "input"
  | .output => "output"
  | .inout => "inout"

/-- The direction that a word names. -/
def ofWord? (w : String) : Option Direction :=
  if w = "input" then some .input
  else if w = "output" then some .output
  else if w = "inout" then some .inout
  else none

/-- Whether the cell reads a port of this direction. -/
def reads : Direction → Bool
  | .output => false
  | _ => true

/-- Whether the cell drives a port of this direction. -/
def drives : Direction → Bool
  | .input => false
  | _ => true

end Direction

/-- The ports of a primitive. -/
structure Signature where
  /-- The ports that are read. -/
  inputs : List String
  /-- The ports that are driven. -/
  outputs : List String
deriving DecidableEq

namespace Signature

/-- The direction of a port. -/
def direction? (s : Signature) (port : String) : Option Direction :=
  if s.inputs.contains port then some .input
  else if s.outputs.contains port then some .output
  else none

end Signature

namespace CellLibrary

/-- Primitives that compute `Y` from `A`. -/
def unaryTypes : List String := [
  "$not", "$pos", "$neg", "$logic_not", "$reduce_and", "$reduce_or", "$reduce_xor",
  "$reduce_xnor", "$reduce_bool", "$_BUF_", "$_NOT_"]

/-- Primitives that compute `Y` from `A` and `B`. -/
def binaryTypes : List String := [
  "$and", "$or", "$xor", "$xnor", "$shl", "$shr", "$sshl", "$sshr", "$shift", "$shiftx", "$lt",
  "$le", "$eq", "$ne", "$eqx", "$nex", "$ge", "$gt", "$add", "$sub", "$mul", "$div", "$mod", "$pow",
  "$logic_and", "$logic_or", "$_AND_", "$_NAND_", "$_OR_", "$_NOR_", "$_XOR_", "$_XNOR_",
  "$_ANDNOT_", "$_ORNOT_"]

/-- Primitives with ports of their own: multiplexers, registers, latches and memories. -/
def otherSignatures : List (String × Signature) := [
  ("$mux", ⟨["A", "B", "S"], ["Y"]⟩),
  ("$pmux", ⟨["A", "B", "S"], ["Y"]⟩),
  ("$bmux", ⟨["A", "S"], ["Y"]⟩),
  ("$_MUX_", ⟨["A", "B", "S"], ["Y"]⟩),
  ("$_NMUX_", ⟨["A", "B", "S"], ["Y"]⟩),
  ("$dff", ⟨["CLK", "D"], ["Q"]⟩),
  ("$dffe", ⟨["CLK", "EN", "D"], ["Q"]⟩),
  ("$adff", ⟨["CLK", "ARST", "D"], ["Q"]⟩),
  ("$adffe", ⟨["CLK", "ARST", "EN", "D"], ["Q"]⟩),
  ("$sdff", ⟨["CLK", "SRST", "D"], ["Q"]⟩),
  ("$sdffe", ⟨["CLK", "SRST", "EN", "D"], ["Q"]⟩),
  ("$dlatch", ⟨["EN", "D"], ["Q"]⟩),
  ("$_DFF_P_", ⟨["C", "D"], ["Q"]⟩),
  ("$_DFF_N_", ⟨["C", "D"], ["Q"]⟩),
  ("$memrd", ⟨["CLK", "EN", "ADDR"], ["DATA"]⟩),
  ("$memwr", ⟨["CLK", "EN", "ADDR", "DATA"], []⟩),
  ("$mem", ⟨["RD_CLK", "RD_EN", "RD_ADDR", "WR_CLK", "WR_EN", "WR_ADDR", "WR_DATA"],
    ["RD_DATA"]⟩)]

/-- The signature of a primitive; `none` for a type that the library does not list. -/
def signature? (type : String) : Option Signature :=
  if unaryTypes.contains type then some ⟨["A"], ["Y"]⟩
  else if binaryTypes.contains type then some ⟨["A", "B"], ["Y"]⟩
  else otherSignatures.lookup type

/-- The direction of a port by the signature of its cell's type. -/
def direction? (type port : String) : Option Direction :=
  (signature? type).bind (·.direction? port)

/-- The ports that a cell without a signature drives unless it says otherwise. -/
def customaryOutputs : List String := ["Y", "Z", "Q", "OUT", "O"]

end CellLibrary

end NearestMux
