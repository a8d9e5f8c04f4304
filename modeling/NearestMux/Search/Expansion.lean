import NearestMux.Alias
import NearestMux.Hierarchy.Index
import NearestMux.Multiplexer
import NearestMux.Search.Event

/-!
# Expansion — where one item leads

An item is expanded chunk by chunk, and a slice leads on by the name of its wire alone: whatever
part of the wire is cut out, the search goes on from the whole wire. What is bound to a port counts
as the wire when it is all of the wire and nothing else.

For the wire, five things are looked at in turn.

1. The multiplexers that read the wire. One whose select is the wire, and is genuine, ends the
   search. From any other the search goes on with its output, also when the wire is its select and a
   reset.
2. The other cells that read the wire, multiplexers among them: their outputs.
3. The direct connections whose source is the wire: their targets.
4. The instances with the wire at a port that they do not drive: the port's wire in the module.
5. The parent of the module, when the wire is an output port: what its instances of the module bind
   to the port.

Only selected cells are looked at. A module that still has processes cannot be searched.

The faults `missingModule` and `noSelectWire` name what cannot happen in a search whose items come
from the design itself; an item made by hand may bring about the first.
-/

namespace NearestMux

/-- Where a search takes place. -/
structure SearchSetting where
  /-- The design. -/
  design : Design
  /-- The index of its hierarchy. -/
  index : HierarchyIndex
  /-- Which cells are multiplexers. -/
  rule : MuxRule

/-- The answer of a search: the name of the select and the name of its module. -/
structure SearchAnswer where
  /-- The name to show for the select wire. -/
  select : String
  /-- The module. -/
  module : String
deriving DecidableEq

namespace SearchAnswer

/-- What stands for a name when nothing is found. -/
def noName : String := "NONE"

/-- The answer that says that there is no multiplexer. -/
def notFound : SearchAnswer := ⟨noName, noName⟩

/-- Whether the answer names something. -/
def isFound (a : SearchAnswer) : Bool := a.select != noName || a.module != noName

theorem isFound_eq_false_iff (a : SearchAnswer) : a.isFound = false ↔ a = notFound := by
  cases a
  simp [isFound, notFound]

theorem isFound_of_ne {a : SearchAnswer} (h : a ≠ notFound) : a.isFound = true := by
  rw [← Bool.not_eq_false, isFound_eq_false_iff]
  exact h

end SearchAnswer

/-- Why a search has no answer. -/
inductive SearchFault where
  /-- The module still has processes. -/
  | unresolvedProcess (module : String)
  /-- An item is in a module that the design does not have. -/
  | missingModule (module : String)
  /-- A multiplexer that was found has no select wire. -/
  | noSelectWire (cell : String)
  /-- The bound on the number of items does not hold. -/
  | tooManyItems
deriving DecidableEq

/-- What comes of expanding an item: events, and perhaps the end of the search. -/
structure Expansion where
  /-- What happens, in order. -/
  events : List Event
  /-- The end of the search, if this is it. -/
  verdict : Option (Except SearchFault SearchAnswer)

namespace Expansion

/-- An expansion in which nothing ends the search. -/
def going (events : List Event) : Expansion := ⟨events, none⟩

/-- One expansion behind another; nothing comes behind the end of the search. -/
def andThen (first second : Expansion) : Expansion :=
  match first.verdict with
  | some _ => first
  | none => ⟨first.events ++ second.events, second.verdict⟩

@[simp] theorem verdict_going (events : List Event) : (going events).verdict = none := rfl

@[simp] theorem events_going (events : List Event) : (going events).events = events := rfl

@[simp] theorem verdict_andThen (first second : Expansion) :
    (first.andThen second).verdict = first.verdict.or second.verdict := by
  unfold andThen
  split
  · next h => rw [h, Option.some_or]
  · next h => rw [h, Option.none_or]

theorem events_andThen (first second : Expansion) :
    (first.andThen second).events =
      first.events ++ if first.verdict.isNone then second.events else [] := by
  unfold andThen
  split
  · next h => simp [h]
  · next h => simp [h]

end Expansion

namespace SearchSetting

/-- The selected cells of a class and those of their bindings that are all of a wire, which is told
by its name. -/
def bound (s : SearchSetting) (m : Module) (wire : Wire) (p : Cell → Bool) :
    List (Cell × Binding) :=
  ((s.design.selectedCells m).filter p).flatMap fun c =>
    (c.bindings.toList.filter fun b => b.signal.isWhole wire.name).map fun b => (c, b)

/-- Those of the bindings through which the cell reads the wire. -/
def readers (s : SearchSetting) (m : Module) (wire : Wire) (p : Cell → Bool) :
    List (Cell × Binding) :=
  (s.bound m wire p).filter fun (c, b) => s.design.reads c b.port

/-- Looks at multiplexers that read a wire until one ends the search. -/
def passMuxes (s : SearchSetting) (m : Module) (wire : Wire) : List (Cell × Binding) → Expansion
  | [] => .going []
  | (c, b) :: rest =>
    if b.port = selectPort ∧ s.rule.selectKind c = .genuine then
      match MuxRule.selectWire? c with
      | some select => ⟨[.found c.name], some (.ok ⟨m.shownName select.name, m.name⟩)⟩
      | none => ⟨[.found c.name], some (.error (.noSelectWire c.name))⟩
    else
      let note := if b.port = selectPort then [Event.reset c.name wire.name] else []
      (Expansion.going (note ++ [.push .mux ⟨m.name, c.signal outputPort⟩])).andThen
        (passMuxes s m wire rest)

/-- The outputs of a cell that have bits. -/
def outputPushes (s : SearchSetting) (m : Module) (c : Cell) : List Event :=
  ((s.design.outputs c).filter fun b => !b.signal.isEmpty).map fun b =>
    .push (.cell c.type) ⟨m.name, b.signal⟩

/-- On through the cells that are no instances. -/
def throughCells (s : SearchSetting) (m : Module) (wire : Wire) : List Event :=
  (s.readers m wire fun c => !s.design.isInstance c).flatMap fun (c, _) => s.outputPushes m c

/-- On through the direct connections. -/
def throughConnections (m : Module) (wire : Wire) : List Event :=
  (m.connections.filter fun c => c.source.isWhole wire.name).map fun c =>
    .push .connection ⟨m.name, c.target⟩

/-- Into a module, at the port where an instance binds the wire. -/
def intoPort (m : Module) (inner : Module) (c : Cell) (port : String) : Event :=
  match inner.wire? (Identifier.escape port) with
  | some d => .push .submodule ⟨inner.name, .ofWire d.toWire⟩
  | none => .missingPort inner.name port c.name m.name

/-- On into the instances. -/
def intoInstances (s : SearchSetting) (m : Module) (wire : Wire) : List Event :=
  ((s.bound m wire s.design.isInstance).filter fun (c, b) => !s.design.drives c b.port).filterMap
    fun (c, b) => (s.design.instantiated? c).map fun inner => intoPort m inner c b.port

/-- What the instances of a module in its parent bind to a port. -/
def atInstances (s : SearchSetting) (parent m : Module) (port : String) : List Event :=
  ((s.design.selectedCells parent).filter fun c => c.type == m.name).flatMap fun c =>
    (c.bindings.toList.filter fun b => Identifier.escape b.port == port && !b.signal.isEmpty).map
      fun b => .push .parent ⟨parent.name, b.signal⟩

/-- The parent of a module as it now is in the design. -/
def parent? (s : SearchSetting) (m : Module) : Option Module :=
  (s.index.parent? m.name).bind s.design.module?

/-- On out to the parent. -/
def outToParent (s : SearchSetting) (m : Module) (wire : Wire) : List Event :=
  if (m.wire? wire.name).any Declaration.isOutput then
    match s.parent? m with
    | some parent => s.atInstances parent m wire.name
    | none => []
  else []

/-- Expands a wire of a module. -/
def expandWire (s : SearchSetting) (m : Module) (wire : Wire) : Expansion :=
  ((Expansion.going [.passing wire.name m.name]).andThen
    (s.passMuxes m wire (s.readers m wire s.rule.isMux))).andThen
      (.going (s.throughCells m wire ++ throughConnections m wire ++ s.intoInstances m wire ++
        s.outToParent m wire))

/-- Expands the chunks of a signal in turn. -/
def expandChunks (s : SearchSetting) (m : Module) : List Chunk → Expansion
  | [] => .going []
  | .const _ :: rest => (Expansion.going [.constant]).andThen (expandChunks s m rest)
  | .slice wire _ _ _ :: rest => (s.expandWire m wire).andThen (expandChunks s m rest)

/-- Expands an item. -/
def expand (s : SearchSetting) (item : Item) : Expansion :=
  match s.design.module? item.module with
  | none => ⟨[], some (.error (.missingModule item.module))⟩
  | some m =>
    if m.processes.isEmpty then s.expandChunks m item.signal.chunks
    else ⟨[], some (.error (.unresolvedProcess m.name))⟩

end SearchSetting

end NearestMux
