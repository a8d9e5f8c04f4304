import NearestMux.Netlist.Design

/-!
# The instantiation graph — which module stands inside which

Every selected cell that is an instance puts one module inside another. The graph has the modules as
nodes and an edge from the inner module to the outer one. It starts from the selected modules and
goes down: a module that is instantiated belongs to the graph whether it is selected or not, and so
does whatever its own selected cells instantiate.

Nodes and edges are lists, because the order in which they were met is what the search for a cycle
follows. An edge stands once however many cells there are for it.
-/

namespace NearestMux

/-- One module inside another. -/
structure Instantiation where
  /-- The module that is instantiated. -/
  inner : String
  /-- The module that has the cell. -/
  outer : String
deriving DecidableEq

/-- Modules, and which of them stand inside which. -/
structure InstanceGraph where
  /-- The modules in the order in which they were met. -/
  nodes : List String
  /-- The instantiations in the order in which they were met. -/
  edges : List Instantiation

namespace InstanceGraph

/-- The graph without modules. -/
def empty : InstanceGraph := ⟨[], []⟩

/-- The graph with a module. -/
def addNode (g : InstanceGraph) (name : String) : InstanceGraph :=
  if g.nodes.contains name then g else { g with nodes := g.nodes ++ [name] }

/-- The graph with an instantiation and its two modules. -/
def addEdge (g : InstanceGraph) (e : Instantiation) : InstanceGraph :=
  let g := (g.addNode e.inner).addNode e.outer
  if g.edges.contains e then g else { g with edges := g.edges ++ [e] }

end InstanceGraph

namespace Design

/-- The modules that the selected cells of a module instantiate, cell by cell. -/
def instantiatedIn (d : Design) (m : Module) : List Module :=
  (d.selectedCells m).filterMap d.instantiated?

/-- Meets the modules that stand inside one: their edges are added, and those that were not met
before are listed. -/
def meetInner (outer : String) : InstanceGraph → List Module → InstanceGraph × List Module
  | g, [] => (g, [])
  | g, inner :: rest =>
    let (h, found) := meetInner outer (g.addEdge ⟨inner.name, outer⟩) rest
    (h, if g.nodes.contains inner.name then found else inner :: found)

/-- Meets modules one after the other, and behind them those that are found inside. -/
def meetAll (d : Design) : Nat → InstanceGraph → List Module → InstanceGraph
  | 0, g, _ => g
  | _ + 1, g, [] => g
  | fuel + 1, g, m :: rest =>
    let (g, found) := meetInner m.name (g.addNode m.name) (d.instantiatedIn m)
    meetAll d fuel g (rest ++ found)

/-- The instantiation graph of the selected part of a design. Besides the selected modules each
module is met at most once, which bounds the work. -/
def instanceGraph (d : Design) : InstanceGraph :=
  meetAll d (d.selectedModules.length + d.modules.size) .empty d.selectedModules

end Design

end NearestMux
