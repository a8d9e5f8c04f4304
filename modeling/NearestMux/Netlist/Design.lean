import NearestMux.Netlist.Module
import NearestMux.Netlist.Selection

/-!
# Designs — modules that instantiate one another

A design is a roster of modules, perhaps with the name of its top, and a selection. A cell whose
type is the name of a module is an instance of that module; every other cell is a primitive. Which
of the two a cell is depends on the design alone, so the questions that turn on it are asked of the
design: which way a port of a cell faces, which cells are selected, which module is the top.

The top need not be named. Then it is the one module that no cell instantiates, and if there is none
or more than one, the design has no top.
-/

namespace NearestMux

/-- A design. -/
structure Design where
  /-- The modules. -/
  modules : Roster Module
  /-- The name of the top, when it is given. -/
  top : Option String
  /-- The part that is looked at. -/
  selection : Selection

namespace Design

/-- A design without modules. An empty name of the top is no name. -/
def new (top : Option String) : Design :=
  ⟨∅, (top.filter (!·.isEmpty)).map Identifier.escape, .everything⟩

/-- The module of a name. -/
def module? (d : Design) (name : String) : Option Module := d.modules.find? name

theorem module?_eq_some_iff (d : Design) {name : String} {m : Module} :
    d.module? name = some m ↔ m ∈ d.modules.toList ∧ m.name = name :=
  d.modules.find?_eq_some_iff

theorem eq_of_name_eq {d : Design} {m other : Module} (hm : m ∈ d.modules.toList)
    (hother : other ∈ d.modules.toList) (same : m.name = other.name) : m = other := by
  have found : d.module? other.name = some m := d.module?_eq_some_iff.mpr ⟨hm, same⟩
  have foundToo : d.module? other.name = some other := d.module?_eq_some_iff.mpr ⟨hother, rfl⟩
  rw [found] at foundToo
  exact Option.some.inj foundToo

/-- Adds a module with nothing in it. -/
def addModule (d : Design) (name : String) : Except DeclareFault Design :=
  match d.modules.add? (Module.new (Identifier.escape name)) with
  | none => .error (.duplicateModule (Identifier.escape name))
  | some modules => .ok { d with modules := modules }

/-- Puts a changed module in the place of the one with its name. -/
def put (d : Design) (m : Module) : Design := { d with modules := d.modules.put m }

/-- The module that a cell instantiates. -/
def instantiated? (d : Design) (c : Cell) : Option Module := d.module? c.type

/-- Whether a cell is an instance of a module. -/
def isInstance (d : Design) (c : Cell) : Bool := (d.instantiated? c).isSome

/-- The direction of a port of a cell. A port of an instance is a wire of the instantiated module
and faces as that module declares it; it faces nowhere when the wire is no port or is not there. -/
def direction? (d : Design) (c : Cell) (port : String) : Option Direction :=
  match d.instantiated? c with
  | some m => ((m.wire? (Identifier.escape port)).bind (·.role)).map PortRole.direction
  | none => c.primitiveDirection? port

/-- Whether a cell reads a port. -/
def reads (d : Design) (c : Cell) (port : String) : Bool :=
  (d.direction? c port).any Direction.reads

/-- Whether a cell drives a port. -/
def drives (d : Design) (c : Cell) (port : String) : Bool :=
  (d.direction? c port).any Direction.drives

/-- The bindings of the ports that a cell drives. -/
def outputs (d : Design) (c : Cell) : List Binding :=
  c.bindings.toList.filter fun b => d.drives c b.port

/-- The selected modules, in order of arrival. -/
def selectedModules (d : Design) : List Module :=
  d.modules.toList.filter fun m => d.selection.hasModule m.name

/-- The selected cells of a module, in order of arrival. -/
def selectedCells (d : Design) (m : Module) : List Cell :=
  m.cells.toList.filter fun c => d.selection.hasMember m.name c.name

theorem mem_selectedCells (d : Design) {m : Module} {c : Cell} :
    c ∈ d.selectedCells m ↔ c ∈ m.cells.toList ∧ d.selection.hasMember m.name c.name = true :=
  List.mem_filter

theorem mem_selectedModules_of_selectedCell {d : Design} {m : Module} {c : Cell}
    (hm : m ∈ d.modules.toList) (selected : c ∈ d.selectedCells m) : m ∈ d.selectedModules :=
  List.mem_filter.mpr ⟨hm, Selection.hasModule_of_hasMember (d.mem_selectedCells.mp selected).2⟩

/-- The types of all cells. -/
def cellTypes (d : Design) : List String :=
  d.modules.toList.flatMap fun m => m.cells.toList.map Cell.type

/-- The modules that no cell instantiates. -/
def roots (d : Design) : List Module :=
  d.modules.toList.filter fun m => !d.cellTypes.contains m.name

/-- The top: the named one, or the only module that no cell instantiates. -/
def topModule? (d : Design) : Option Module :=
  match d.top with
  | some name => d.module? name
  | none => match d.roots with
    | [m] => some m
    | _ => none

/-- The modules with the names of their cells and wires, as patterns see them. -/
def patternTable (d : Design) : List (String × List String) :=
  d.modules.toList.map fun m => (m.name, m.cells.names ++ m.wires.names)

/-- The design with the selection that patterns write. -/
def select (d : Design) (patterns : List String) : Design :=
  { d with selection := Selection.ofPatterns d.patternTable patterns }

/-- One line about the size of a design. -/
def summary (d : Design) : String :=
  "Design: " ++ Text.natText d.modules.size ++ " modules, " ++
    Text.natText ((d.modules.toList.map (·.wires.size)).foldr (· + ·) 0) ++ " wires, " ++
    Text.natText ((d.modules.toList.map (·.cells.size)).foldr (· + ·) 0) ++ " cells"

end Design

end NearestMux
