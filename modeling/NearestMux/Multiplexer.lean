import NearestMux.Netlist.Module
import NearestMux.Text.Occurs

/-!
# Multiplexers — which cells select, and what by

A multiplexer is a cell of one of the given types that has a select `S`, an output `Y` and at least
one of the data inputs `A` and `B`; a port counts when a signal with bits is bound to it. Its select
is genuine unless the name of the select wire says that it is a reset, which it does when the reset
token occurs in it. That is a rule about names and nothing else: capitals count, no value is looked
at, and an empty token makes every named select a reset.

The select wire is the wire that the select is all of, or else the first wire that it takes bits
from. A constant select has none and is genuine.
-/

namespace NearestMux

/-- What a multiplexer's select is for. -/
inductive SelectKind where
  /-- It chooses between data. -/
  | genuine
  /-- It resets. -/
  | reset
deriving DecidableEq

/-- The select port. -/
def selectPort : String := "S"

/-- The output port. -/
def outputPort : String := "Y"

/-- The data inputs. -/
def dataPorts : List String := ["A", "B"]

/-- Which cells are multiplexers, and which selects are resets. -/
structure MuxRule where
  /-- The types of multiplexers. -/
  types : List String
  /-- What marks the name of a reset. -/
  resetToken : String

namespace MuxRule

/-- The token that marks resets unless another one is given. -/
def customaryToken : String := "rstz"

/-- The types of multiplexers unless others are given. -/
def customaryTypes : List String := ["$mux"]

/-- The rule that holds unless another one is given. -/
def customary : MuxRule := ⟨customaryTypes, customaryToken⟩

/-- Whether a cell is a multiplexer. -/
def isMux (rule : MuxRule) (c : Cell) : Bool :=
  rule.types.contains c.type && !(c.signal selectPort).isEmpty && !(c.signal outputPort).isEmpty &&
    dataPorts.any fun port => !(c.signal port).isEmpty

theorem output_of_isMux {rule : MuxRule} {c : Cell} (h : rule.isMux c = true) :
    (c.signal outputPort).isEmpty = false := by
  simp only [isMux, Bool.and_eq_true, Bool.not_eq_true'] at h
  exact h.1.2

/-- The select wire of a cell. -/
def selectWire? (c : Cell) : Option Wire :=
  match (c.signal selectPort).wholeWire? with
  | some wire => some wire
  | none => (c.signal selectPort).wires.head?

/-- Whether a name is the name of a reset. -/
def isReset (rule : MuxRule) (name : String) : Bool := Text.occursIn rule.resetToken name

/-- What the select of a cell is for. -/
def selectKind (rule : MuxRule) (c : Cell) : SelectKind :=
  if (selectWire? c).any fun wire => rule.isReset wire.name then .reset else .genuine

theorem selectWire?_of_whole {c : Cell} {select : Wire}
    (h : (c.signal selectPort).wholeWire? = some select) : selectWire? c = some select := by
  rw [selectWire?, h]

/-- A select is genuine when the reset token does not occur in the name of its wire. -/
theorem selectKind_eq_genuine_iff (rule : MuxRule) {c : Cell} {select : Wire}
    (h : selectWire? c = some select) :
    rule.selectKind c = .genuine ↔ ¬ rule.resetToken.toList <:+: select.name.toList := by
  rw [← Text.occursIn_iff_isInfix, selectKind, h, Option.any_some]
  change _ ↔ ¬ rule.isReset select.name = true
  split <;> simp_all

end MuxRule

end NearestMux
