import NearestMux.CellLibrary
import NearestMux.Identifier
import NearestMux.Roster
import NearestMux.Signal.Text
import NearestMux.Value

/-!
# Modules — wires, cells and direct connections

A module declares wires, places cells and ties signals together. A declared wire may be a port of
the module, and then it is an input or an output, never both: the role is one value. A cell binds
signals to the ports of its type; a binding is an assignment, so binding a port again puts the new
signal in the place of the old one. A direct connection says that its source drives its target.

Processes are the behavioural parts of a module that synthesis has not yet turned into cells. The
library keeps their texts and asks of them only whether there are any.

Declarations are checked before anything is entered, so a refused one leaves the module as it was. A
name is filed in its marked form, and a name that is taken is refused before the wire itself is
looked at.
-/

namespace NearestMux

/-- The role of a wire that is a port of its module. -/
inductive PortRole where
  /-- The module reads the port. -/
  | input
  /-- The module drives the port. -/
  | output
deriving DecidableEq

/-- The direction of a port, seen from a cell of the module. -/
def PortRole.direction : PortRole → Direction
  | .input => .input
  | .output => .output

/-- A wire as a module declares it. -/
structure Declaration extends Wire where
  /-- The role of the wire when it is a port. -/
  role : Option PortRole
  /-- What else is noted about the wire. -/
  attributes : List (String × Value)

instance : Named Declaration := ⟨fun d => d.name⟩

namespace Declaration

/-- Whether the wire is a port. -/
def isPort (d : Declaration) : Bool := d.role.isSome

/-- Whether the wire is an output port. -/
def isOutput (d : Declaration) : Bool := d.role == some .output

/-- Whether the wire is an input port. -/
def isInput (d : Declaration) : Bool := d.role == some .input

/-- The text of a declared wire. -/
def text (d : Declaration) : String :=
  "Wire(" ++ d.name ++ ", w=" ++ Text.natText d.width ++ ")"

end Declaration

/-- A port of a cell and the signal bound to it. -/
structure Binding where
  /-- The port. -/
  port : String
  /-- The signal. -/
  signal : Signal

instance : Named Binding := ⟨Binding.port⟩

/-- The direction of a port as a cell notes it. Any word may be noted; one that names no direction
keeps the port from being read and from being driven. -/
structure DirectionNote where
  /-- The port. -/
  port : String
  /-- The word. -/
  word : String

instance : Named DirectionNote := ⟨DirectionNote.port⟩

/-- A cell: a primitive or an instance of a module. -/
structure Cell where
  /-- The name of the cell. -/
  name : String
  /-- The name of the primitive or of the module. -/
  type : String
  /-- The ports and the signals bound to them, in the order in which they were first bound. -/
  bindings : Roster Binding
  /-- The directions that the cell notes. -/
  notes : Roster DirectionNote

instance : Named Cell := ⟨Cell.name⟩

namespace Cell

/-- The signal bound to a port; a port without a binding has the signal without bits. -/
def signal (c : Cell) (port : String) : Signal :=
  ((c.bindings.find? port).map Binding.signal).getD .empty

theorem signal_of_mem (c : Cell) {b : Binding} (hb : b ∈ c.bindings.toList) :
    c.signal b.port = b.signal := by
  have found : c.bindings.find? b.port = some b := c.bindings.find?_eq_some_iff.mpr ⟨hb, rfl⟩
  rw [signal, found]
  rfl

/-- A port with bits is bound. -/
theorem exists_binding (c : Cell) {port : String} (h : (c.signal port).isEmpty = false) :
    ∃ b ∈ c.bindings.toList, b.port = port ∧ c.signal port = b.signal := by
  cases found : c.bindings.find? port with
  | none =>
    rw [signal, found] at h
    cases h
  | some b =>
    obtain ⟨hb, rfl⟩ := c.bindings.find?_eq_some_iff.mp found
    exact ⟨b, hb, rfl, c.signal_of_mem hb⟩

/-- Binds a signal to a port. -/
def bind (c : Cell) (port : String) (signal : Signal) : Cell :=
  { c with bindings := c.bindings.put ⟨port, signal⟩ }

/-- Takes the binding of a port away. -/
def unbind (c : Cell) (port : String) : Cell :=
  { c with bindings := c.bindings.erase port }

/-- The direction of a port of a cell that is no instance: what the library says of the type; else
what the cell notes; else, for a type without a signature, an output by the customary names and an
input by any other. -/
def primitiveDirection? (c : Cell) (port : String) : Option Direction :=
  match CellLibrary.direction? c.type port, c.notes.find? port, CellLibrary.signature? c.type with
  | some d, _, _ => some d
  | none, some note, _ => Direction.ofWord? note.word
  | none, none, some _ => none
  | none, none, none =>
    some (if CellLibrary.customaryOutputs.contains port then .output else .input)

end Cell

/-- A direct connection. -/
structure Connection where
  /-- What is driven. -/
  target : Signal
  /-- What drives it. -/
  source : Signal

/-- A module. -/
structure Module where
  /-- The name. -/
  name : String
  /-- The declared wires. -/
  wires : Roster Declaration
  /-- The cells. -/
  cells : Roster Cell
  /-- The direct connections, in the order in which they were made. -/
  connections : List Connection
  /-- The texts of the processes. -/
  processes : List String

instance : Named Module := ⟨Module.name⟩

/-- Why a declaration is refused. -/
inductive DeclareFault where
  /-- A module of that name is there. -/
  | duplicateModule (name : String)
  /-- A wire of that name is there. -/
  | duplicateWire (module name : String)
  /-- A cell of that name is there. -/
  | duplicateCell (module name : String)
  /-- The wire is to have less than no bits. -/
  | negativeWidth (wire : String) (width : Int)
  /-- The wire is to be an input and an output. -/
  | bothRoles (wire : String)
deriving DecidableEq

/-- The text of the fault. -/
def DeclareFault.message : DeclareFault → String
  | .duplicateModule name => "duplicate module " ++ name
  | .duplicateWire module name => "module " ++ module ++ ": duplicate wire " ++ name
  | .duplicateCell module name => "module " ++ module ++ ": duplicate cell " ++ name
  | .negativeWidth wire width =>
    if Text.isWritable width then "wire " ++ wire ++ ": negative width " ++ Text.intText width
    else Text.unwritableMessage
  | .bothRoles wire => "wire " ++ wire ++ ": cannot be both input and output port"

/-- What is asked for when a wire is declared. -/
structure WireRequest where
  /-- The name, with or without its mark. -/
  name : String
  /-- The number of bits. -/
  width : Int
  /-- Whether the wire is to be an input port. -/
  input : Bool
  /-- Whether the wire is to be an output port. -/
  output : Bool
  /-- What else is noted about the wire. -/
  attributes : List (String × Value)

namespace WireRequest

/-- The role that is asked for, when only one is. -/
def role? (r : WireRequest) : Option PortRole :=
  if r.input then some .input else if r.output then some .output else none

/-- The declaration that answers the request in a module. -/
def declaration (r : WireRequest) (module : String) : Declaration where
  name := Identifier.escape r.name
  width := r.width.toNat
  origin := .declared module
  role := r.role?
  attributes := r.attributes

/-- What is wrong with the request itself. -/
def fault? (r : WireRequest) : Option DeclareFault :=
  if r.width < 0 then some (.negativeWidth (Identifier.escape r.name) r.width)
  else if r.input && r.output then some (.bothRoles (Identifier.escape r.name))
  else none

end WireRequest

namespace Module

/-- A module with nothing in it. -/
def new (name : String) : Module := ⟨name, ∅, ∅, [], []⟩

/-- The declared wire of a name. -/
def wire? (m : Module) (name : String) : Option Declaration := m.wires.find? name

/-- The cell of a name. -/
def cell? (m : Module) (name : String) : Option Cell := m.cells.find? name

/-- The declared wires that are ports. -/
def ports (m : Module) : List Declaration := m.wires.toList.filter Declaration.isPort

/-- Declares a wire. -/
def addWire (m : Module) (r : WireRequest) : Except DeclareFault Module :=
  match m.wires.add? (r.declaration m.name), r.fault? with
  | none, _ => .error (.duplicateWire m.name (Identifier.escape r.name))
  | some _, some fault => .error fault
  | some wires, none => .ok { m with wires := wires }

/-- Places a cell. -/
def addCell (m : Module) (name type : String) (bindings : Roster Binding)
    (notes : Roster DirectionNote) : Except DeclareFault Module :=
  match m.cells.add? ⟨Identifier.escape name, Identifier.escape type, bindings, notes⟩ with
  | none => .error (.duplicateCell m.name (Identifier.escape name))
  | some cells => .ok { m with cells := cells }

/-- Makes a direct connection. Whether the two sides have as many bits is not asked. -/
def connect (m : Module) (target source : Signal) : Module :=
  { m with connections := m.connections ++ [⟨target, source⟩] }

/-- Adds the texts of processes. -/
def addProcesses (m : Module) (texts : List String) : Module :=
  { m with processes := m.processes ++ texts }

/-- The text of a module: how much there is of each kind. -/
def text (m : Module) : String :=
  "Module(" ++ m.name ++ ", wires=" ++ Text.natText m.wires.size ++ ", cells=" ++
    Text.natText m.cells.size ++ ", conns=" ++ Text.natText m.connections.length ++ ")"

end Module

end NearestMux
