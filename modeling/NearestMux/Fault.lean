/-!
# Query faults — why a query has no answer

A query that finds no multiplexer has an answer, and the answer says so. A query has no answer when
what it needs is not given: the design cannot be searched (`precondition`), the start is not one
wire (`ambiguousInput`), or the wire is not there at all. The classes form a tree; `lineage` lists a
class and the classes it falls under, the narrowest first. The faults of documents and of
configurations stand beside the tree.
-/

namespace NearestMux

/-- A class of faults. -/
inductive FaultClass where
  /-- Any fault that ends a query. -/
  | query
  /-- The design cannot be searched. -/
  | precondition
  /-- Nothing is selected. -/
  | emptySelection
  /-- Modules contain themselves. -/
  | recursiveHierarchy
  /-- A module still has processes. -/
  | unresolvedProcess
  /-- The start is not one wire. -/
  | ambiguousInput
  /-- The wire is in more than one module. -/
  | ambiguousWire
  /-- No module passes the filter. -/
  | unknownModule
  /-- No module has the wire. -/
  | unknownWire
  /-- A document is no netlist. -/
  | netlistFormat
  /-- A document is no configuration. -/
  | configuration
deriving DecidableEq

namespace FaultClass

/-- The class that a class falls under. -/
def parent? : FaultClass → Option FaultClass
  | .precondition | .ambiguousInput | .unknownWire => some .query
  | .emptySelection | .recursiveHierarchy | .unresolvedProcess => some .precondition
  | .ambiguousWire | .unknownModule => some .ambiguousInput
  | .query | .netlistFormat | .configuration => none

/-- How far a class is below the top of its tree. -/
def depth : FaultClass → Nat
  | .query | .netlistFormat | .configuration => 0
  | .precondition | .ambiguousInput | .unknownWire => 1
  | _ => 2

/-- A class and a number of the classes above it. -/
def climb : Nat → FaultClass → List FaultClass
  | 0, c => [c]
  | n + 1, c => c :: match c.parent? with
    | some p => climb n p
    | none => []

/-- A class and all classes it falls under, the narrowest first. -/
def lineage (c : FaultClass) : List FaultClass := climb c.depth c

example : lineage .unknownModule = [.unknownModule, .ambiguousInput, .query] := by decide

end FaultClass

/-- Why a query has no answer. -/
inductive QueryFault where
  /-- Nothing is selected. -/
  | emptySelection
  /-- The modules, in this order, contain one another in a circle. -/
  | recursiveHierarchy (cycle : List String)
  /-- The module still has processes. -/
  | unresolvedProcess (module : String)
  /-- The wire is in more than one module. -/
  | ambiguousWire (wire : String) (modules : List String)
  /-- No module passes the filter. -/
  | unknownModule (filter : String)
  /-- No module has the wire. -/
  | unknownWire (wire : String)
deriving DecidableEq

namespace QueryFault

/-- Names one after the other, separated by a comma and a space. -/
def listed (names : List String) : String := String.intercalate ", " names

/-- The text of the fault. -/
def message : QueryFault → String
  | .emptySelection => "Cannot operate on an empty selection."
  | .recursiveHierarchy [] => "Recursive modules are not supported by find_next_mux."
  | .recursiveHierarchy cycle =>
    "Recursive modules are not supported by find_next_mux. (cycle through: " ++ listed cycle ++ ")"
  | .unresolvedProcess module =>
    "Unexpected process in module " ++ module ++
      ". find_next_mux requires processes to be lowered first (run `proc`)."
  | .ambiguousWire wire modules =>
    "The wire " ++ wire ++ " is present in more than one module (" ++ listed modules ++
      "); use a module filter."
  | .unknownModule filter => "The module " ++ filter ++ " does not exist."
  | .unknownWire wire => "The wire " ++ wire ++ " does not exist in any of the selected modules."

/-- The narrowest class of a fault. -/
def faultClass : QueryFault → FaultClass
  | .emptySelection => .emptySelection
  | .recursiveHierarchy _ => .recursiveHierarchy
  | .unresolvedProcess _ => .unresolvedProcess
  | .ambiguousWire _ _ => .ambiguousWire
  | .unknownModule _ => .unknownModule
  | .unknownWire _ => .unknownWire

end QueryFault

end NearestMux
