import NearestMux.Proofs.Hierarchy.Skeleton
import NearestMux.Proofs.Netlist.Reading
import NearestMux.Proofs.Netlist.Rosters
import NearestMux.Proofs.Search.Expansion
import NearestMux.Proofs.Search.Lockstep

/-!
# Marked ports — instances that name their ports without the mark

A port of an instance is a wire of the instantiated module, and wires are filed under marked names.
A document is read so that the ports of instances are marked too, but a design that is put together
by hand may bind `i` as well as `\i`. This module says that it does not matter: putting the marks on
changes neither the index of a design nor what a search comes to or counts (`search_markPorts`).

The searches go in lockstep, item by item the same. A multiplexer or another primitive is looked up
by its ports as they stand, and marking leaves it as it is. An instance is asked which way a port
faces, which wire of its module the port is, and whether the port is the one that a search leaves
its module by; all three put the mark on first.

Two conditions are needed. Ports of an instance that fall together when they are marked would leave
one binding of two. And a rule for which a module is a multiplexer would look up `S` and `Y` at its
instances as they stand. What is noted may differ: a port that is missing is named as it is bound.
-/

namespace NearestMux

/-! ## Putting the marks on -/

/-- The cell with a mark on every port. -/
def Cell.markPorts (c : Cell) : Cell :=
  { c with
    bindings := .ofList (c.bindings.toList.map fun b => ⟨Identifier.escape b.port, b.signal⟩) }

namespace Design

variable {d : Design} {m : Module} {c : Cell} {port name : String}

/-- The cell with a mark on every port when it is an instance. -/
def markCell (d : Design) (c : Cell) : Cell := if d.isInstance c then c.markPorts else c

/-- A cell keeps its name, so it stays selected or not. -/
theorem name_markCell (d : Design) (c : Cell) : (d.markCell c).name = c.name := by
  unfold markCell
  split <;> rfl

/-- A cell keeps its type, so it stays an instance of the same module or a primitive. -/
theorem type_markCell (d : Design) (c : Cell) : (d.markCell c).type = c.type := by
  unfold markCell
  split <;> rfl

/-- A primitive is left as it is. -/
theorem markCell_of_primitive (primitive : d.isInstance c = false) : d.markCell c = c := by
  rw [markCell, primitive]
  rfl

/-- The module with a mark on every port of its instances. -/
def markModule (d : Design) (m : Module) : Module :=
  { m with cells := m.cells.mapMembers d.markCell d.name_markCell }

@[simp] theorem name_markModule (d : Design) (m : Module) : (d.markModule m).name = m.name := rfl

@[simp] theorem wire?_markModule (d : Design) (m : Module) :
    (d.markModule m).wire? = m.wire? := rfl

@[simp] theorem processes_markModule (d : Design) (m : Module) :
    (d.markModule m).processes = m.processes := rfl

/-- The design with a mark on every port of every instance. -/
def markPorts (d : Design) : Design :=
  { d with modules := d.modules.mapMembers d.markModule d.name_markModule }

/-- The marks keep the ports of every instance apart. -/
def PortsApart (d : Design) : Prop :=
  ∀ m ∈ d.modules.toList, ∀ c ∈ m.cells.toList, d.isInstance c = true →
    Set.InjOn Identifier.escape {port | port ∈ c.bindings.names}

/-! ## What the marks leave as it is -/

/-- Modules are found under the names under which they were. -/
theorem module?_markPorts : d.markPorts.module? name = (d.module? name).map d.markModule :=
  d.modules.find?_mapMembers d.markModule d.name_markModule name

/-- An instance instantiates what it did, with the marks on. -/
theorem instantiated?_markPorts :
    d.markPorts.instantiated? (d.markCell c) = (d.instantiated? c).map d.markModule := by
  rw [instantiated?, instantiated?, module?_markPorts, type_markCell]

/-- Which cells are instances is not changed by marks inside the modules. -/
theorem isInstance_markPorts (d : Design) (c : Cell) :
    d.markPorts.isInstance c = d.isInstance c := by
  rw [isInstance, isInstance, instantiated?, module?_markPorts, Option.isSome_map]
  rfl

/-- Nor is it changed by marks on the ports of the cell. -/
theorem isInstance_markCell (d : Design) (c : Cell) :
    d.isInstance (d.markCell c) = d.isInstance c := by
  rw [isInstance, isInstance, instantiated?, instantiated?, type_markCell]

/-- A port faces as before: the wires of the modules are not touched. -/
theorem direction?_markPorts (d : Design) (c : Cell) (port : String) :
    d.markPorts.direction? c port = d.direction? c port := by
  have instantiated : d.markPorts.instantiated? c = (d.instantiated? c).map d.markModule :=
    module?_markPorts
  rw [direction?, direction?, instantiated]
  cases d.instantiated? c <;> rfl

theorem reads_markPorts (d : Design) (c : Cell) (port : String) :
    d.markPorts.reads c port = d.reads c port := by
  rw [reads, reads, direction?_markPorts]

theorem drives_markPorts (d : Design) (c : Cell) (port : String) :
    d.markPorts.drives c port = d.drives c port := by
  rw [drives, drives, direction?_markPorts]

theorem outputs_markPorts (d : Design) (c : Cell) : d.markPorts.outputs c = d.outputs c := by
  simp only [outputs, drives_markPorts]

/-- A port of an instance faces as the wire does that has its marked name. -/
theorem drives_markCell (isInstance : d.isInstance c = true) :
    d.drives (d.markCell c) (Identifier.escape port) = d.drives c port := by
  have same : d.instantiated? (d.markCell c) = d.instantiated? c := by
    rw [instantiated?, instantiated?, type_markCell]
  obtain ⟨inner, instantiates⟩ := Option.isSome_iff_exists.mp isInstance
  simp only [drives, direction?, same, instantiates, Identifier.escape_escape]

/-- The selected cells of a module are those that were, with the marks on. -/
theorem selectedCells_markModule (d : Design) (m : Module) :
    d.markPorts.selectedCells (d.markModule m) = (d.selectedCells m).map d.markCell := by
  change (m.cells.toList.map d.markCell).filter _ = _
  rw [List.filter_map]
  congr 1
  refine List.filter_congr fun c _ => ?_
  change d.selection.hasMember m.name (d.markCell c).name = _
  rw [name_markCell]

/-- Where the marks keep the ports apart, an instance keeps all its bindings and their order. -/
theorem toList_bindings_markCell (apart : d.PortsApart) (hm : m ∈ d.modules.toList)
    (hc : c ∈ m.cells.toList) (isInstance : d.isInstance c = true) :
    (d.markCell c).bindings.toList =
      c.bindings.toList.map fun b => ⟨Identifier.escape b.port, b.signal⟩ := by
  rw [markCell, if_pos isInstance]
  -- no binding takes the place of another one
  refine Roster.toList_ofList ?_
  rw [List.map_map]
  change (c.bindings.toList.map (Identifier.escape ∘ Named.name)).Nodup
  rw [← List.map_map]
  refine c.bindings.nodup.map_on fun port hport other hother same => ?_
  exact apart m hm c hc isInstance hport hother same

/-! ## The index -/

/-- The modules inside a module are those that were. -/
theorem instantiatedIn_markModule (d : Design) (m : Module) :
    d.markPorts.instantiatedIn (d.markModule m) = (d.instantiatedIn m).map d.markModule := by
  rw [instantiatedIn, instantiatedIn, selectedCells_markModule, List.filterMap_map,
    List.map_filterMap]
  refine List.filterMap_congr fun c _ => ?_
  exact instantiated?_markPorts

/-- The selected modules are those that were. -/
theorem selectedModules_markPorts (d : Design) :
    d.markPorts.selectedModules = d.selectedModules.map d.markModule :=
  List.filter_map ..

/-- So the index sees no difference: it asks for names, for the modules inside and for the
selection. -/
theorem sameSkeleton_markPorts (d : Design) :
    d.SameSkeleton (fun m m' => m' = d.markModule m) d.markPorts where
  name := by
    rintro m _ rfl
    rfl
  inside := by
    rintro m _ rfl
    rw [instantiatedIn_markModule]
    exact List.forall₂_map_right_iff.mpr (List.forall₂_same.mpr fun _ _ => rfl)
  selected := by
    rw [selectedModules_markPorts]
    exact List.forall₂_map_right_iff.mpr (List.forall₂_same.mpr fun _ _ => rfl)

end Design

/-! ## The searches -/

namespace SearchSetting

variable {s : SearchSetting} {m parent : Module} {w : Wire} {port : String}

/-- The setting with a mark on every port of the instances of its design. -/
def markPorts (s : SearchSetting) : SearchSetting := { s with design := s.design.markPorts }

@[simp] theorem design_markPorts (s : SearchSetting) : s.markPorts.design = s.design.markPorts :=
  rfl

@[simp] theorem rule_markPorts (s : SearchSetting) : s.markPorts.rule = s.rule := rfl

/-- Among cells that are no instances nothing changes. -/
theorem filter_primitives_markModule {p : Cell → Bool}
    (primitive : ∀ c ∈ m.cells.toList, p c = true → s.design.isInstance c = false)
    (keeps : ∀ c ∈ m.cells.toList, p (s.design.markCell c) = p c) :
    (s.design.markPorts.selectedCells (s.design.markModule m)).filter p =
      (s.design.selectedCells m).filter p := by
  rw [Design.filter_selectedCells_map (s.design.selectedCells_markModule m) keeps]
  refine (List.map_congr_left fun c hc => ?_).trans (List.map_id _)
  obtain ⟨selected, isP⟩ := List.mem_filter.mp hc
  exact Design.markCell_of_primitive (primitive c (s.design.mem_selectedCells.mp selected).1 isP)

/-- Of cells that are no instances the same ones read a wire. -/
theorem readers_markPorts {p : Cell → Bool}
    (primitive : ∀ c ∈ m.cells.toList, p c = true → s.design.isInstance c = false)
    (keeps : ∀ c ∈ m.cells.toList, p (s.design.markCell c) = p c) :
    s.markPorts.readers (s.design.markModule m) w p = s.readers m w p := by
  simp only [readers, bound, design_markPorts, Design.reads_markPorts,
    filter_primitives_markModule primitive keeps]

/-- Multiplexers are no instances when no module is one for the rule. -/
theorem readers_isMux_markPorts (plain : ∀ m ∈ s.design.modules.toList, m.name ∉ s.rule.types) :
    s.markPorts.readers (s.design.markModule m) w s.rule.isMux = s.readers m w s.rule.isMux := by
  have notMux {c : Cell} (isInstance : s.design.isInstance c = true) :
      c.type ∉ s.rule.types := by
    obtain ⟨inner, instantiates⟩ := Option.isSome_iff_exists.mp isInstance
    obtain ⟨hinner, named⟩ := s.design.module?_eq_some_iff.mp instantiates
    exact named ▸ plain inner hinner
  refine readers_markPorts (fun c _ isMux => ?_) fun c _ => ?_
  · rw [← Bool.not_eq_true]
    intro isInstance
    simp only [MuxRule.isMux, Bool.and_eq_true, List.contains_iff_mem] at isMux
    exact notMux isInstance isMux.1.1.1
  · -- an instance has other ports now, but for its type alone it is no multiplexer
    cases isInstance : s.design.isInstance c with
    | false => rw [Design.markCell_of_primitive isInstance]
    | true =>
      have isNone : s.rule.types.contains c.type = false := by
        simpa using notMux isInstance
      simp only [MuxRule.isMux, s.design.type_markCell, isNone, Bool.false_and]

/-- The multiplexers are looked at in the same way. -/
theorem passMuxes_markPorts (bindings : List (Cell × Binding)) :
    s.markPorts.passMuxes (s.design.markModule m) w bindings = s.passMuxes m w bindings := by
  induction bindings with
  | nil => rfl
  | cons p rest ih =>
    obtain ⟨c, b⟩ := p
    rw [passMuxes, passMuxes, ih]
    rfl

/-- The primitives lead on to the same outputs. -/
theorem throughCells_markPorts :
    s.markPorts.throughCells (s.design.markModule m) w = s.throughCells m w := by
  have readers : s.markPorts.readers (s.design.markModule m) w
      (fun c => !s.design.isInstance c) = s.readers m w fun c => !s.design.isInstance c := by
    refine readers_markPorts (fun c _ primitive => ?_) fun c _ => ?_
    · simpa using primitive
    · rw [s.design.isInstance_markCell]
  simp only [throughCells, design_markPorts, Design.isInstance_markPorts, readers, outputPushes,
    Design.outputs_markPorts, Design.name_markModule]

/-- What an instance enters by a port where it binds the wire. -/
def enteredBy (s : SearchSetting) (p : Cell × Binding) : Option (Hop × Item) :=
  (s.design.instantiated? p.1).bind fun inner =>
    (inner.wire? (Identifier.escape p.2.port)).map fun d =>
      (.submodule, ⟨inner.name, .ofWire d.toWire⟩)

/-- What the instances enter, without what is noted of missing ports. -/
theorem pushes_intoInstances : pushes (s.intoInstances m w) =
    ((s.bound m w s.design.isInstance).filter fun p => !s.design.drives p.1 p.2.port).filterMap
      s.enteredBy := by
  rw [intoInstances, pushes, List.filterMap_filterMap]
  refine List.filterMap_congr fun p _ => ?_
  obtain ⟨c, b⟩ := p
  dsimp only [enteredBy]
  cases s.design.instantiated? c with
  | none => rfl
  | some inner =>
    change Event.push? (intoPort m inner c b.port) = Option.map _ _
    unfold intoPort
    cases inner.wire? (Identifier.escape b.port) <;> rfl

/-- An instance and a binding of it, with the marks on. -/
def markPair (s : SearchSetting) (p : Cell × Binding) : Cell × Binding :=
  (s.design.markCell p.1, ⟨Identifier.escape p.2.port, p.2.signal⟩)

/-- The instances that bind a wire are those that did, at the marked ports. -/
theorem bound_instances_markPorts (apart : s.design.PortsApart) (hm : m ∈ s.design.modules.toList) :
    s.markPorts.bound (s.design.markModule m) w s.markPorts.design.isInstance =
      (s.bound m w s.design.isInstance).map s.markPair := by
  have same : ∀ c ∈ m.cells.toList,
      s.design.markPorts.isInstance (s.design.markCell c) = s.design.isInstance c := fun c _ =>
    (s.design.isInstance_markPorts _).trans (s.design.isInstance_markCell c)
  rw [bound, bound, design_markPorts,
    Design.filter_selectedCells_map (s.design.selectedCells_markModule m) same, List.flatMap_map,
    List.map_flatMap]
  refine List.flatMap_congr fun c hc => ?_
  obtain ⟨selected, isInstance⟩ := List.mem_filter.mp hc
  have hc := (s.design.mem_selectedCells.mp selected).1
  rw [Design.toList_bindings_markCell apart hm hc isInstance, List.filter_map, List.map_map,
    List.map_map]
  rfl

/-- A marked port leads to the wire that the port led to. -/
theorem enteredBy_markPair (p : Cell × Binding) :
    s.markPorts.enteredBy (s.markPair p) = s.enteredBy p := by
  simp only [enteredBy, markPair, design_markPorts, Design.instantiated?_markPorts,
    Option.bind_map, Function.comp_def, Design.wire?_markModule, Design.name_markModule,
    Identifier.escape_escape]

/-- So the same is entered inside the instances. -/
theorem pushes_intoInstances_markPorts (apart : s.design.PortsApart)
    (hm : m ∈ s.design.modules.toList) :
    pushes (s.markPorts.intoInstances (s.design.markModule m) w) =
      pushes (s.intoInstances m w) := by
  have enters : ∀ p ∈ s.bound m w s.design.isInstance,
      (!s.design.drives (s.markPair p).1 (s.markPair p).2.port) =
        !s.design.drives p.1 p.2.port := by
    intro p hp
    obtain ⟨⟨_, isInstance⟩, -⟩ := mem_bound.mp hp
    exact congrArg not (Design.drives_markCell isInstance)
  rw [pushes_intoInstances, pushes_intoInstances, bound_instances_markPorts apart hm,
    List.filter_map, List.filterMap_map]
  simp only [Function.comp_def, design_markPorts, Design.drives_markPorts, enteredBy_markPair,
    List.filter_congr enters]

/-- What the instances in the parent bind to a port is the same. -/
theorem atInstances_markPorts (apart : s.design.PortsApart) (hm : m ∈ s.design.modules.toList)
    (hparent : parent ∈ s.design.modules.toList) :
    s.markPorts.atInstances (s.design.markModule parent) (s.design.markModule m) port =
      s.atInstances parent m port := by
  have instances : (s.design.markPorts.selectedCells (s.design.markModule parent)).filter
      (fun c => c.type == m.name) =
        ((s.design.selectedCells parent).filter fun c => c.type == m.name).map
          s.design.markCell := by
    refine Design.filter_selectedCells_map (s.design.selectedCells_markModule parent) fun c _ => ?_
    rw [s.design.type_markCell]
  simp only [atInstances, design_markPorts, Design.name_markModule, instances, List.flatMap_map]
  refine List.flatMap_congr fun c hc => ?_
  obtain ⟨selected, type⟩ := List.mem_filter.mp hc
  have isInstance : s.design.isInstance c = true :=
    Option.isSome_iff_exists.mpr
      ⟨m, s.design.module?_eq_some_iff.mpr ⟨hm, (beq_iff_eq.mp type).symm⟩⟩
  have hc := (s.design.mem_selectedCells.mp selected).1
  rw [Design.toList_bindings_markCell apart hparent hc isInstance, List.filter_map, List.map_map]
  simp only [Function.comp_def, Identifier.escape_escape]

/-- So the way out leads to the same items. -/
theorem outToParent_markPorts (apart : s.design.PortsApart) (hm : m ∈ s.design.modules.toList) :
    s.markPorts.outToParent (s.design.markModule m) w = s.outToParent m w := by
  have parents : s.markPorts.parent? (s.design.markModule m) =
      (s.parent? m).map s.design.markModule := by
    rw [parent?, parent?, Option.map_bind]
    refine congrArg _ (funext fun name => ?_)
    exact Design.module?_markPorts
  rw [outToParent, outToParent, parents, Design.wire?_markModule]
  cases standsIn : s.parent? m with
  | none => rfl
  | some parent =>
    dsimp only [Option.map_some]
    rw [atInstances_markPorts apart hm (parent?_mem standsIn)]

/-- A wire is expanded alike on both designs. -/
theorem alike_expandWire_markPorts (apart : s.design.PortsApart)
    (plain : ∀ m ∈ s.design.modules.toList, m.name ∉ s.rule.types)
    (hm : m ∈ s.design.modules.toList) (w : Wire) :
    (s.expandWire m w).Alike Eq Eq (s.markPorts.expandWire (s.design.markModule m) w) := by
  unfold expandWire
  rw [rule_markPorts, readers_isMux_markPorts plain, passMuxes_markPorts, throughCells_markPorts,
    outToParent_markPorts apart hm]
  -- at the instances only what is entered agrees: a missing port is noted as it is bound
  refine .andThen (.of_eq rfl rfl) (.of_eq ?_ rfl)
  simp only [Expansion.events_going, pushes_append, pushes_intoInstances_markPorts apart hm]
  rfl

/-- And so is an item. -/
theorem alike_expand_markPorts (apart : s.design.PortsApart)
    (plain : ∀ m ∈ s.design.modules.toList, m.name ∉ s.rule.types) (i : Item) :
    (s.expand i).Alike Eq Eq (s.markPorts.expand i) := by
  rw [expand, expand, design_markPorts, Design.module?_markPorts]
  cases found : s.design.module? i.module with
  | none => exact .of_eq rfl rfl
  | some m =>
    have hm := (s.design.module?_eq_some_iff.mp found).1
    dsimp only [Option.map_some]
    rw [Design.processes_markModule]
    split
    · exact alike_expandChunks (alike_expandWire_markPorts apart plain hm) _
    · exact .of_eq rfl rfl

/-- The two searches go in lockstep, each item beside itself. -/
theorem lockstep_markPorts (apart : s.design.PortsApart)
    (plain : ∀ m ∈ s.design.modules.toList, m.name ∉ s.rule.types) :
    s.Lockstep s.markPorts Eq Eq where
  keys := by
    rintro i _ j _ rfl rfl
    exact Iff.rfl
  expand := by
    rintro i _ rfl
    exact alike_expand_markPorts apart plain i
  notFound := rfl

/-- **Ports of instances may be bound with or without the mark.** Let the marks keep the ports of
every instance apart, and let no module have the name of a type of multiplexers. Then a design and
the same design with every port of every instance marked have the same index, or none for the same
reason: the same order, the same parents, the same shared modules. And with that index a search from
any signal of any module has the same outcome on both, be it an answer or a fault, and counts the
same. -/
theorem search_markPorts {d : Design} {rule : MuxRule} (apart : d.PortsApart)
    (plain : ∀ m ∈ d.modules.toList, m.name ∉ rule.types) :
    d.markPorts.index = d.index ∧
      ∀ index, d.index = .ok index → ∀ m ∈ d.modules.toList, ∀ g,
        let s : SearchSetting := ⟨d, index, rule⟩
        let marked : SearchSetting := ⟨d.markPorts, index, rule⟩
        (marked.search ⟨m.name, g⟩).outcome = (s.search ⟨m.name, g⟩).outcome ∧
          (marked.search ⟨m.name, g⟩).stats = (s.search ⟨m.name, g⟩).stats := by
  refine ⟨d.sameSkeleton_markPorts.index_eq.symm, fun index _ m _ g => ?_⟩
  have lockstep := lockstep_markPorts (s := ⟨d, index, rule⟩) apart plain
  obtain ⟨stats, outcome⟩ := lockstep.search (Eq.refl (Item.mk m.name g))
  exact ⟨outcome.symm, stats.symm⟩

/-- A module with an inverter from its input to its output. -/
def inverter : Module where
  name := "\\child"
  wires := ⟨[⟨⟨"\\i", 1, .declared "\\child"⟩, some .input, []⟩,
    ⟨⟨"\\o", 1, .declared "\\child"⟩, some .output, []⟩], by decide⟩
  cells := ⟨[{
    name := "\\inv"
    type := "$not"
    bindings := ⟨[⟨"A", .ofWire ⟨"\\i", 1, .declared "\\child"⟩⟩,
      ⟨"Y", .ofWire ⟨"\\o", 1, .declared "\\child"⟩⟩], by decide⟩
    notes := ∅ }], by decide⟩
  connections := []
  processes := []

/-- A module with an instance of the inverter, whose ports are bound without their marks, and with a
multiplexer that is selected by what comes out of it. -/
def inverted : Module where
  name := "\\top"
  wires := ⟨["\\x", "\\sel", "\\a", "\\b", "\\y"].map fun name => ⟨.bit name, none, []⟩, by decide⟩
  cells := ⟨[{
    name := "\\u_child"
    type := "\\child"
    bindings := ⟨[⟨"i", .ofWire (.bit "\\x")⟩, ⟨"o", .ofWire (.bit "\\sel")⟩], by decide⟩
    notes := ∅ }, {
    name := "\\mux0"
    type := "$mux"
    bindings := ⟨[⟨"A", .ofWire (.bit "\\a")⟩, ⟨"B", .ofWire (.bit "\\b")⟩,
      ⟨"S", .ofWire (.bit "\\sel")⟩, ⟨"Y", .ofWire (.bit "\\y")⟩], by decide⟩
    notes := ∅ }], by decide⟩
  connections := []
  processes := []

/-- The two modules, their ports bound as they are written. -/
def unmarked : Design := ⟨⟨[inverted, inverter], by decide⟩, some "\\top", .everything⟩

/-- Of the two cells only the instance has its ports marked. -/
example : (unmarked.markPorts.module? inverted.name).map (fun m =>
    m.cells.toList.map fun c => c.bindings.names) =
      some [["\\i", "\\o"], ["A", "B", "S", "Y"]] := by
  decide +kernel

theorem search_markPorts_unmarked : unmarked.PortsApart ∧
    (∀ m ∈ unmarked.modules.toList, m.name ∉ MuxRule.customary.types) ∧
    ∃ index, unmarked.index = .ok index ∧ unmarked.markPorts.index = .ok index ∧
      inverted ∈ unmarked.modules.toList ∧
      (SearchSetting.search ⟨unmarked, index, .customary⟩
        ⟨inverted.name, .ofWire (.bit "\\x")⟩).outcome = .ok ⟨"\\sel", "\\top"⟩ ∧
      (SearchSetting.search ⟨unmarked.markPorts, index, .customary⟩
        ⟨inverted.name, .ofWire (.bit "\\x")⟩).outcome = .ok ⟨"\\sel", "\\top"⟩ := by
  have apart : unmarked.PortsApart := by
    have names : ∀ m ∈ unmarked.modules.toList, ∀ c ∈ m.cells.toList,
        (c.bindings.names.map Identifier.escape).Nodup := by
      decide +kernel
    intro m hm c hc _ port hport other hother same
    exact List.inj_on_of_nodup_map (names m hm c hc) hport hother same
  have plain : ∀ m ∈ unmarked.modules.toList, m.name ∉ MuxRule.customary.types := by
    decide +kernel
  have hm : inverted ∈ unmarked.modules.toList := List.mem_cons_self
  have search : unmarked.index.toOption.map (fun index =>
      (SearchSetting.search ⟨unmarked, index, .customary⟩
        ⟨inverted.name, .ofWire (.bit "\\x")⟩).outcome) = some (.ok ⟨"\\sel", "\\top"⟩) := by
    decide +kernel
  obtain ⟨same, searches⟩ := @search_markPorts unmarked .customary apart plain
  cases built : unmarked.index with
  | error fault =>
    rw [built] at search
    cases search
  | ok index =>
    rw [built] at search
    have answer := Option.some.inj search
    obtain ⟨outcome, -⟩ := searches index built inverted hm (.ofWire (.bit "\\x"))
    exact ⟨apart, plain, index, rfl, same.trans built, hm, answer, outcome.trans answer⟩

end SearchSetting

end NearestMux
