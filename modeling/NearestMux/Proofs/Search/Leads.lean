import NearestMux.Search.Expansion

/-!
# Leads — what one item leads to

An expansion is a computation: cells are looked at in their order, and the first multiplexer with a
genuine select ends it. This module says without an order what it looks for. `WireLeads` gives the
five ways on from a wire of a module, `Leads` the ways on from an item, and `Path` puts them one
behind the other and adds up what they cost. `Selects` says which wire is the genuine select of a
multiplexer; an item with that wire is a `Hit`, and a search `Stops` there, as it does in a module
that still has processes.

The ways on are there whether or not a search stops at the item. So a path may go through a hit; the
nearest hit is not affected, because the part of the path up to the first one costs no more.

That an expansion computes this relation is shown in `Proofs.Search.Expansion`.
-/

namespace NearestMux

/-- The names of the wires that an item takes bits from, chunk by chunk. -/
def Item.wireNames (i : Item) : List String := i.signal.wires.map Wire.name

namespace SearchSetting

/-! ## The ways on -/

/-- The ways on from a wire of a module. -/
inductive WireLeads (s : SearchSetting) (m : Module) (w : String) : Hop → Item → Prop where
  /-- Through a multiplexer that reads the wire, unless the wire is its genuine select. -/
  | mux {c : Cell} {b : Binding} (selected : c ∈ s.design.selectedCells m)
      (isMux : s.rule.isMux c = true) (bound : b ∈ c.bindings.toList)
      (whole : b.signal.isWhole w = true) (reads : s.design.reads c b.port = true)
      (passes : b.port = selectPort → s.rule.selectKind c = .reset) :
      WireLeads s m w .mux ⟨m.name, c.signal outputPort⟩
  /-- Through a cell that reads the wire and is no instance, to an output with bits. -/
  | cell {c : Cell} {b out : Binding} (selected : c ∈ s.design.selectedCells m)
      (primitive : s.design.isInstance c = false) (bound : b ∈ c.bindings.toList)
      (whole : b.signal.isWhole w = true) (reads : s.design.reads c b.port = true)
      (output : out ∈ c.bindings.toList) (drives : s.design.drives c out.port = true)
      (hasBits : out.signal.isEmpty = false) :
      WireLeads s m w (.cell c.type) ⟨m.name, out.signal⟩
  /-- Through a direct connection whose source is the wire. -/
  | connection {k : Connection} (made : k ∈ m.connections) (whole : k.source.isWhole w = true) :
      WireLeads s m w .connection ⟨m.name, k.target⟩
  /-- Into an instance, at a port that it does not drive and that its module declares. -/
  | submodule {c : Cell} {b : Binding} {inner : Module} {d : Declaration}
      (selected : c ∈ s.design.selectedCells m)
      (instantiates : s.design.instantiated? c = some inner)
      (bound : b ∈ c.bindings.toList) (whole : b.signal.isWhole w = true)
      (enters : s.design.drives c b.port = false)
      (declared : inner.wire? (Identifier.escape b.port) = some d) :
      WireLeads s m w .submodule ⟨inner.name, .ofWire d.toWire⟩
  /-- Out of an output port, to what an instance of the module in its parent binds to it. -/
  | parent {d : Declaration} {outer : Module} {c : Cell} {b : Binding}
      (declared : m.wire? w = some d) (isOutput : d.isOutput = true)
      (standsIn : s.parent? m = some outer) (selected : c ∈ s.design.selectedCells outer)
      (instantiates : c.type = m.name) (bound : b ∈ c.bindings.toList)
      (atPort : Identifier.escape b.port = w) (hasBits : b.signal.isEmpty = false) :
      WireLeads s m w .parent ⟨outer.name, b.signal⟩

/-- The ways on from an item: from the wires that it takes bits from, in its module. -/
def Leads (s : SearchSetting) (i : Item) (hop : Hop) (j : Item) : Prop :=
  ∃ m w, s.design.module? i.module = some m ∧ w ∈ i.wireNames ∧ s.WireLeads m w hop j

/-! ## Where a search ends -/

/-- A multiplexer of a module and its genuine select: the wire is all that the select port is bound
to, the cell reads it there, and the reset token does not occur in its name. -/
structure Selects (s : SearchSetting) (m : Module) (c : Cell) (select : Wire) : Prop where
  selected : c ∈ s.design.selectedCells m
  isMux : s.rule.isMux c = true
  reads : s.design.reads c selectPort = true
  whole : (c.signal selectPort).wholeWire? = some select
  genuine : ¬ s.rule.resetToken.toList <:+: select.name.toList

/-- An item is a hit when one of its wires has the name of the genuine select of a multiplexer of
its module. -/
def Hit (s : SearchSetting) (i : Item) (m : Module) (select : Wire) : Prop :=
  s.design.module? i.module = some m ∧ select.name ∈ i.wireNames ∧ ∃ c, s.Selects m c select

/-- An item is in a module that still has processes. -/
def Unresolved (s : SearchSetting) (i : Item) (m : Module) : Prop :=
  s.design.module? i.module = some m ∧ m.processes ≠ []

/-- A search ends at hits and in modules that still have processes. -/
def Stops (s : SearchSetting) (i : Item) : Prop :=
  (∃ m select, s.Hit i m select) ∨ ∃ m, s.Unresolved i m

/-! ## Ways -/

/-- A way from one item to another and what its hops cost together. -/
inductive Path (s : SearchSetting) (start : Item) : Nat → Item → Prop where
  /-- An item is at itself for nothing. -/
  | nil : Path s start 0 start
  /-- A way goes on by one hop. -/
  | snoc {cost : Nat} {i j : Item} {hop : Hop} (way : Path s start cost i)
      (leads : s.Leads i hop j) : Path s start (cost + hop.cost) j

/-- There is a way from an item to another. -/
def Reachable (s : SearchSetting) (start i : Item) : Prop := ∃ cost, s.Path start cost i

end SearchSetting

/-! ## A small setting -/

/-- A wire of one bit in the module `\top`. -/
def Wire.bit (name : String) : Wire := ⟨name, 1, .declared "\\top"⟩

/-- A module with one multiplexer. Its select is the wire `$s`, and a connection ties `$s` to the
wire `\rstz`. -/
def Module.tied : Module where
  name := "\\top"
  wires := ⟨["\\rstz", "$s", "\\a", "\\b", "\\y"].map fun name => ⟨.bit name, none, []⟩, by decide⟩
  cells := ⟨[{
    name := "\\m0"
    type := "$mux"
    bindings := ⟨[⟨"A", .ofWire (.bit "\\a")⟩, ⟨"B", .ofWire (.bit "\\b")⟩,
      ⟨"S", .ofWire (.bit "$s")⟩, ⟨"Y", .ofWire (.bit "\\y")⟩], by decide⟩
    notes := ∅ }], by decide⟩
  connections := [⟨.ofWire (.bit "$s"), .ofWire (.bit "\\rstz")⟩]
  processes := []

/-- The design of that module alone, under the customary rule. -/
def SearchSetting.tied : SearchSetting where
  design := ⟨⟨[Module.tied], by decide⟩, none, .everything⟩
  index := ⟨⟨["\\top"], []⟩, ["\\top"], []⟩
  rule := .customary

end NearestMux
