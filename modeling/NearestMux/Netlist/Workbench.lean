import NearestMux.Netlist.Design

/-!
# Workbench — a design put together call by call

A design need not come from a document: it is also put together by calls, one for each module, wire,
cell and connection, and a call may be refused. A design is a value, so it cannot be left half
changed. Where designs are objects it could be: a table is written to in place, a module is made
first and entered later, a module holds the design it belongs to and a cell its module. The
workbench is a design of that kind. Its calls are programs that check and write in an order of their
own, and what a refused call has written stays written.

A module is known by its place, which is the count of the modules made before it. Modules hold
their design by its number and cells their module by its place; the tables file objects under names
that the objects do not answer for. Nothing of this is ruled out by the types: an entry may have
another name than its object, a place may be empty, a wire may have less than no bits.
-/

namespace NearestMux

/-- A call that puts a part into a design. -/
inductive BuildCall where
  /-- Adds a module with nothing in it. -/
  | addModule (name : String)
  /-- Declares a wire in the module at a place. -/
  | addWire (place : Nat) (request : WireRequest)
  /-- Places a cell in the module at a place. -/
  | addCell (place : Nat) (name type : String) (bindings : Roster Binding)
    (notes : Roster DirectionNote)
  /-- Makes a direct connection in the module at a place. -/
  | connect (place : Nat) (target source : Signal)

/-- Why a call has no effect. -/
inductive BuildFault where
  /-- There is no module at the place. -/
  | noModule (place : Nat)
  /-- The declaration is refused. -/
  | refused (fault : DeclareFault)
deriving DecidableEq

namespace Design

/-- Changes the module at a place. -/
def change (d : Design) (place : Nat) (f : Module → Except DeclareFault Module) :
    Except BuildFault Design :=
  match d.modules.toList[place]? with
  | none => .error (.noModule place)
  | some m => ((f m).mapError .refused).map d.put

/-- The design with the part that a call puts in. -/
def perform (d : Design) : BuildCall → Except BuildFault Design
  | .addModule name => (d.addModule name).mapError .refused
  | .addWire place request => d.change place fun m => m.addWire request
  | .addCell place name type bindings notes =>
    d.change place fun m => m.addCell name type bindings notes
  | .connect place target source => d.change place fun m => .ok (m.connect target source)

/-- The design after calls, each made whatever became of those before it. -/
def after (d : Design) : List BuildCall → Design
  | [] => d
  | call :: rest => match d.perform call with
    | .ok next => next.after rest
    | .error _ => d.after rest

end Design

/-- A wire as an object. -/
structure WireObject where
  /-- The name. -/
  name : String
  /-- The number of bits. -/
  width : Int
  /-- Whether the wire is an input port. -/
  input : Bool
  /-- Whether the wire is an output port. -/
  output : Bool
  /-- What else is noted about the wire. -/
  attributes : List (String × Value)

/-- A cell as an object. -/
structure CellObject where
  /-- The name of the cell. -/
  name : String
  /-- The name of the primitive or of the module. -/
  type : String
  /-- The ports and the signals bound to them. -/
  bindings : Roster Binding
  /-- The directions that the cell notes. -/
  notes : Roster DirectionNote
  /-- The place of the module that the cell holds, when it holds one. -/
  module : Option Nat

/-- A module as an object. -/
structure ModuleObject where
  /-- The name. -/
  name : String
  /-- The wires under their names. -/
  wires : List (String × WireObject)
  /-- The cells under their names. -/
  cells : List (String × CellObject)
  /-- The direct connections. -/
  connections : List Connection
  /-- The texts of the processes. -/
  processes : List String
  /-- The number of the design that the module holds, when it holds one. -/
  design : Option Nat

/-- A module that was just made: with nothing in it, and of no design. -/
def ModuleObject.new (name : String) : ModuleObject := ⟨name, [], [], [], [], none⟩

/-- A design as an object, with the modules that were made for it. -/
structure Workbench where
  /-- The number of the design. -/
  design : Nat
  /-- The name of the top, when it is given. -/
  top : Option String
  /-- The part that is looked at. -/
  selection : Selection
  /-- The places of the modules under their names. -/
  modules : List (String × Nat)
  /-- The modules at their places. -/
  objects : List ModuleObject

namespace Workbench

/-- The names of a table. -/
def names {α : Type} (table : List (String × α)) : List String := table.map Prod.fst

/-- Files an object under a name: a name that is there keeps its place and takes the new object,
another one comes at the end. -/
def file {α : Type} (name : String) (a : α) (table : List (String × α)) : List (String × α) :=
  if name ∈ names table then table.map fun entry => if entry.1 = name then (name, a) else entry
  else table ++ [(name, a)]

/-- An empty design. An empty name of the top is no name. -/
def empty (design : Nat) (top : Option String) : Workbench :=
  ⟨design, (top.filter (!·.isEmpty)).map Identifier.escape, .everything, [], []⟩

/-- Programs that build on a workbench. A refusal leaves what was written before it. -/
abbrev Build : Type → Type := EStateM BuildFault Workbench

/-- Refuses a declaration on a condition. -/
def refuseIf (p : Prop) [Decidable p] (fault : DeclareFault) : Build Unit :=
  if p then throw (.refused fault) else pure ()

/-- The module at a place. -/
def moduleAt (place : Nat) : Build ModuleObject := do
  match (← get).objects[place]? with
  | some m => return m
  | none => throw (.noModule place)

/-- Changes the module at a place. -/
def alter (place : Nat) (f : ModuleObject → ModuleObject) : Build Unit :=
  modify fun w => { w with objects := w.objects.modify place f }

/-- Makes a module and gives its place. -/
def makeModule (name : String) : Build Nat := do
  let place := (← get).objects.length
  modify fun w => { w with objects := w.objects ++ [ModuleObject.new name] }
  return place

/-- Makes a wire. A wire is looked at only when it is made. -/
def makeWire (name : String) (width : Int) (input output : Bool)
    (attributes : List (String × Value)) : Build WireObject := do
  refuseIf (width < 0) (.negativeWidth name width)
  refuseIf (input && output) (.bothRoles name)
  return ⟨name, width, input, output, attributes⟩

/-- Adds a module: makes it, hands it the design, and files it. -/
def addModule (name : String) : Build Nat := do
  let name := Identifier.escape name
  refuseIf (name ∈ names (← get).modules) (.duplicateModule name)
  let place ← makeModule name
  let design := (← get).design
  alter place fun m => { m with design := some design }
  modify fun w => { w with modules := file name place w.modules }
  return place

/-- Declares a wire in the module at a place: asks for the name, makes the wire, and files it. -/
def addWire (place : Nat) (request : WireRequest) : Build WireObject := do
  let name := Identifier.escape request.name
  let m ← moduleAt place
  refuseIf (name ∈ names m.wires) (.duplicateWire m.name name)
  let wire ← makeWire name request.width request.input request.output request.attributes
  alter place fun m => { m with wires := file name wire m.wires }
  return wire

/-- Places a cell in the module at a place: asks for the name, hands the new cell the module, and
files it. -/
def addCell (place : Nat) (name type : String) (bindings : Roster Binding)
    (notes : Roster DirectionNote) : Build CellObject := do
  let name := Identifier.escape name
  let type := Identifier.escape type
  let m ← moduleAt place
  refuseIf (name ∈ names m.cells) (.duplicateCell m.name name)
  let cell : CellObject := ⟨name, type, bindings, notes, some place⟩
  alter place fun m => { m with cells := file name cell m.cells }
  return cell

/-- Makes a direct connection in the module at a place. -/
def connect (place : Nat) (target source : Signal) : Build Unit := do
  let _ ← moduleAt place
  alter place fun m => { m with connections := m.connections ++ [⟨target, source⟩] }

/-- Makes a call, whatever it gives. -/
def perform : BuildCall → Build Unit
  | .addModule name => discard (addModule name)
  | .addWire place request => discard (addWire place request)
  | .addCell place name type bindings notes => discard (addCell place name type bindings notes)
  | .connect place target source => connect place target source

/-- The workbench after calls, each made on what the one before it left, refused or not. -/
def after (w : Workbench) : List BuildCall → Workbench
  | [] => w
  | call :: rest => match (perform call).run w with
    | .ok _ next => next.after rest
    | .error _ left => left.after rest

/-- The calls that are not refused, in their order. -/
def accepted (w : Workbench) : List BuildCall → List BuildCall
  | [] => []
  | call :: rest => match (perform call).run w with
    | .ok _ next => call :: next.accepted rest
    | .error _ left => left.accepted rest

end Workbench

end NearestMux
