import NearestMux.Fault
import NearestMux.Hierarchy.Cycle
import NearestMux.Hierarchy.Order
import NearestMux.Journal

/-!
# The index of a hierarchy

Before a design is searched its hierarchy is put in order. The index holds the instantiation graph,
the order of the modules with inner ones first, and every instance that a selected cell of a
selected module makes, in the order of the design.

From the instances follow the parents. The parent of a module is the outer module of its last
instance. A module with instances in two different modules has just that one parent all the same;
the index warns of it.

An index belongs to the design as it was when the index was built. It holds names, not modules, so
it may be read against a later state of the design.
-/

namespace NearestMux

/-- The hierarchy of a design, put in order. -/
structure HierarchyIndex where
  /-- The instantiation graph. -/
  graph : InstanceGraph
  /-- The modules, inner ones first. -/
  order : List String
  /-- The instances in the selected part of the design. -/
  instances : List Instantiation

namespace HierarchyIndex

/-- The outer modules of the instances of a module. -/
def outersOf (index : HierarchyIndex) (name : String) : List String :=
  (index.instances.filter (·.inner == name)).map (·.outer)

/-- The parent of a module: the outer module of its last instance. -/
def parent? (index : HierarchyIndex) (name : String) : Option String :=
  (index.outersOf name).getLast?

/-- The modules that have a parent. -/
def children (index : HierarchyIndex) : List String := (index.instances.map (·.inner)).eraseDups

/-- Modules and their parents, by the name of the module. -/
def parents (index : HierarchyIndex) : List (String × String) :=
  (index.children.mergeSort (· ≤ ·)).filterMap fun name =>
    (index.parent? name).map fun parent => (name, parent)

/-- Whether a module has instances in two different modules. -/
def isShared (index : HierarchyIndex) (name : String) : Bool :=
  match index.outersOf name with
  | [] => false
  | first :: rest => rest.any (· != first)

/-- The modules with instances in two different modules, by name. -/
def shared (index : HierarchyIndex) : List String :=
  (index.children.filter index.isShared).mergeSort (· ≤ ·)

/-- One line about the size of a hierarchy. -/
def summary (index : HierarchyIndex) : String :=
  "Hierarchy: " ++ Text.natText index.order.length ++ " modules, " ++
    Text.natText index.graph.edges.length ++ " instantiation edges"

/-- What is noted when an index is built: a warning for every shared module, then the order. -/
def journal (index : HierarchyIndex) : List Entry :=
  (index.shared.map fun name => .warning
    ("Module " ++ name ++ " is instantiated by more than one parent; " ++
      "upward crossing only follows " ++ (index.parent? name).getD "")) ++
  [.debug ("Hierarchy order: " ++ QueryFault.listed index.order)]

end HierarchyIndex

namespace Design

/-- The instances that the selected cells of the selected modules make. -/
def instances (d : Design) : List Instantiation :=
  d.selectedModules.flatMap fun outer =>
    (d.instantiatedIn outer).map fun inner => ⟨inner.name, outer.name⟩

/-- The index of a design. Nothing must be searched without a selection, and modules must not
contain themselves. -/
def index (d : Design) : Except QueryFault HierarchyIndex :=
  if d.selectedModules.isEmpty then .error .emptySelection
  else
    let graph := d.instanceGraph
    match graph.order? with
    | some order => .ok ⟨graph, order, d.instances⟩
    | none => .error (.recursiveHierarchy (((graph.cycle?).getD []).map (·.inner)))

end Design

end NearestMux
