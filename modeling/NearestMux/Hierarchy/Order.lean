import NearestMux.Hierarchy.Graph

/-!
# The order of a hierarchy — inner modules first

An order of the modules is wanted in which every module stands behind all that it instantiates. It
is made one module at a time: of the modules whose inner ones are all placed already, the one with
the least name comes next. Names compare by the code points of their characters.

When modules are left and none of them is ready, there is no order; some of them then instantiate
one another in a circle.
-/

namespace NearestMux

/-- The least of some names. -/
def leastName? : List String → Option String
  | [] => none
  | name :: rest => some (rest.foldl (fun least s => if s < least then s else least) name)

namespace InstanceGraph

/-- Whether a module instantiates none of the modules that are left. -/
def isReady (edges : List Instantiation) (left : List String) (name : String) : Bool :=
  !edges.any fun e => e.outer == name && left.contains e.inner

/-- Places the modules that are left; `none` when they have no order. -/
def place (edges : List Instantiation) : Nat → List String → Option (List String)
  | 0, left => if left.isEmpty then some [] else none
  | count + 1, left =>
    match leastName? (left.filter (isReady edges left)) with
    | some name => (place edges count (left.erase name)).map (name :: ·)
    | none => none

/-- The order of the modules, inner ones first and otherwise by name; `none` when there is none. -/
def order? (g : InstanceGraph) : Option (List String) := place g.edges g.nodes.length g.nodes

end InstanceGraph

end NearestMux
