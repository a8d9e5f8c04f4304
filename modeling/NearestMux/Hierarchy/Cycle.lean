import NearestMux.Hierarchy.Graph

/-!
# Cycles — modules that contain themselves

A hierarchy without an order has a cycle, and the report of the fault names one. Which one follows
from a fixed walk, so that the same design is always reported in the same way.

From a start the walk follows edges in depth, each edge once: from the module it is at, the first
edge not yet followed; when there is none, back to the module before (`edgeWalk`). Along the walk
the path from the start is kept (`Trail`). An edge that does not go on where the last one ended
makes the path shrink until it ends where the edge begins. An edge that leads to a module of the
path closes a cycle: the part of the path that starts at that module. Modules that a walk without a
cycle has met are settled, and edges to them are passed over by later walks.
-/

namespace NearestMux

namespace InstanceGraph

/-- The edges in the order of a walk in depth: `left` are the edges not yet followed, `stack` the
modules the walk is in, the innermost first. A step follows an edge or leaves a module, so twice the
number of edges and two are steps enough. -/
def edgeWalk : Nat → List Instantiation → List String → List Instantiation
  | 0, _, _ => []
  | _ + 1, _, [] => []
  | fuel + 1, left, name :: stack =>
    match left.find? (·.inner == name) with
    | some e => e :: edgeWalk fuel (left.erase e) (e.outer :: name :: stack)
    | none => edgeWalk fuel left stack

/-- The path of a walk and what it has met. -/
structure Trail where
  /-- The edges of the path, the last one first. -/
  path : List Instantiation
  /-- The modules on the path. -/
  active : List String
  /-- The modules met so far. -/
  seen : List String
  /-- Where the last edge that was taken led. -/
  last : Option String

/-- Takes edges off the end of a path until it ends where a module begins; a path that nowhere ends
there is given up. Answers with the path and the modules that stay active. -/
def shrink (name : String) : List Instantiation → List String → List Instantiation × List String
  | [], _ => ([], [name])
  | [_], _ => ([], [name])
  | e :: before :: path, active =>
    if before.outer = name then (before :: path, active.erase e.outer)
    else shrink name (before :: path) (active.erase e.outer)

/-- The trail from which an edge goes on. -/
def Trail.reach (t : Trail) (e : Instantiation) : Trail :=
  if t.last.all (· == e.inner) then t
  else
    let (path, active) := shrink e.inner t.path t.active
    { t with path := path, active := active }

/-- Follows a walk until it closes a cycle. Answers with the cycle, or with the modules met. -/
def follow (settled : List String) : List Instantiation → Trail → List Instantiation ⊕ List String
  | [], t => .inr t.seen
  | e :: rest, t =>
    if settled.contains e.outer then follow settled rest t
    else
      let t := t.reach e
      if t.active.contains e.outer then
        .inl ((e :: t.path).reverse.dropWhile (·.inner != e.outer))
      else
        follow settled rest ⟨e :: t.path, e.outer :: t.active, e.outer :: t.seen, some e.outer⟩

/-- The first cycle that the walks from some starts close. -/
def firstCycle (g : InstanceGraph) : List String → List String → Option (List Instantiation)
  | [], _ => none
  | start :: starts, settled =>
    if settled.contains start then firstCycle g starts settled
    else
      let walk := edgeWalk (2 * g.edges.length + 2) g.edges [start]
      match follow settled walk ⟨[], [start], [start], none⟩ with
      | .inl cycle => some cycle
      | .inr seen => firstCycle g starts (seen ++ settled)

/-- A cycle of the graph, when it has one. -/
def cycle? (g : InstanceGraph) : Option (List Instantiation) := firstCycle g g.nodes []

end InstanceGraph

end NearestMux
