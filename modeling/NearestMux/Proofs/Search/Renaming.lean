import NearestMux.Proofs.Search.Containment
import NearestMux.Proofs.Search.MarkedPorts
import NearestMux.Proofs.Signal.Renaming

/-!
# Renamed wires — a search sees names only to compare them

A search never looks into a name, but for two things: whether it is public, and whether it contains
the reset token. So wires may be called anything else. Here all wires of a design are renamed, with
the signals over them and with the ports of instances, which are wires of the modules inside.
Cells, modules and the ports of primitives keep their names, and so the selection stays what it was.
Then the index is the same, and a search comes to the same end, under the new names
(`search_rename`).

The two searches go in lockstep, an item beside the renamed item. What differs from the proof about
marked ports is that nothing stays literally the same: each of the five ways on is shown to commute
with the renaming.

A cell is renamed in one way (`Cell.rename`), with the renaming of its ports as an argument: for an
instance it is that of the wires, for a primitive it leaves every port as it is. That a module may
bear the name of a type of multiplexers does no harm: the ports of an instance are marked, and no
marked port is a select.
-/

namespace NearestMux

/-! ## Rosters under new names -/

namespace Roster

variable {α : Type} [Named α] {names : Renaming} {f : α → α}

/-- The roster with every member changed in its place, its name as a renaming says. -/
def relabel (r : Roster α) (names : Renaming) (f : α → α)
    (named : ∀ a, Named.name (f a) = names (Named.name a)) : Roster α where
  toList := r.toList.map f
  nodup := by
    have renamed : (r.toList.map f).map Named.name = r.names.map names := by
      rw [List.map_map, Roster.names, List.map_map]
      exact List.map_congr_left fun a _ => named a
    rw [renamed]
    exact r.nodup.map names.injective

/-- A roster finds a renamed member under the new name. -/
theorem find?_relabel (r : Roster α) (named : ∀ a, Named.name (f a) = names (Named.name a))
    (name : String) : (r.relabel names f named).find? (names name) = (r.find? name).map f := by
  rw [find?, find?, relabel, List.find?_map]
  simp only [Function.comp_def, named, names.beq_eq]

end Roster

/-! ## Designs under new names -/

variable {r : Renaming}

/-- The binding of a port under its new name. -/
def Binding.rename (r ports : Renaming) (b : Binding) : Binding := ⟨ports b.port, b.signal.rename r⟩

/-- The cell over renamed wires, with its ports renamed in a way of their own. -/
def Cell.rename (r ports : Renaming) (c : Cell) : Cell :=
  { c with bindings := c.bindings.relabel ports (Binding.rename r ports) fun _ => rfl }

/-- A renamed cell has the renamed signal on the renamed port. -/
theorem Cell.signal_rename (ports : Renaming) (c : Cell) (port : String) :
    (c.rename r ports).signal (ports port) = (c.signal port).rename r := by
  have found : (c.rename r ports).bindings.find? (ports port) =
      (c.bindings.find? port).map (Binding.rename r ports) :=
    c.bindings.find?_relabel (fun _ => rfl) port
  rw [signal, signal, found]
  cases c.bindings.find? port <;> rfl

/-- The declaration of the renamed wire. -/
def Declaration.rename (r : Renaming) (d : Declaration) : Declaration := { d with name := r d.name }

/-- The connection of the renamed signals. -/
def Connection.rename (r : Renaming) (k : Connection) : Connection :=
  ⟨k.target.rename r, k.source.rename r⟩

namespace Design

/-- The new names of the ports of a cell. The ports of an instance are wires; those of a primitive
are not. -/
def portNames (d : Design) (r : Renaming) (c : Cell) : Renaming :=
  if d.isInstance c then r else .refl

/-- The cell in the design of the renamed wires. -/
def renameCell (d : Design) (r : Renaming) (c : Cell) : Cell := c.rename r (d.portNames r c)

/-- The module in the design of the renamed wires. -/
def renameModule (d : Design) (r : Renaming) (m : Module) : Module where
  name := m.name
  wires := m.wires.relabel r (Declaration.rename r) fun _ => rfl
  cells := m.cells.mapMembers (d.renameCell r) fun _ => rfl
  connections := m.connections.map (Connection.rename r)
  processes := m.processes

/-- The design with all its wires renamed, and with them the ports of its instances. -/
def rename (d : Design) (r : Renaming) : Design :=
  { d with modules := d.modules.mapMembers (d.renameModule r) fun _ => rfl }

end Design

/-- The names that a module uses carry their marks: its own, the ports of its instances, and the
wires that its signals are cut from. -/
structure Module.Marked (isInstance : Cell → Bool) (m : Module) : Prop where
  name : Identifier.IsMarked m.name
  ports : ∀ c ∈ m.cells.toList, isInstance c = true → ∀ b ∈ c.bindings.toList,
    Identifier.IsMarked b.port
  bindings : ∀ c ∈ m.cells.toList, ∀ b ∈ c.bindings.toList, b.signal.Marked
  connections : ∀ k ∈ m.connections, k.target.Marked ∧ k.source.Marked

/-- A signal over wires with marked names has marked names only. -/
theorem Signal.Within.marked {wires : Roster Declaration} {g : Signal} (within : g.Within wires)
    (marked : ∀ d ∈ wires.toList, Identifier.IsMarked d.name) : g.Marked := by
  intro w hw
  obtain ⟨c, hc, isWire⟩ := List.mem_filterMap.mp hw
  cases c with
  | const bits => cases isWire
  | slice wire offset width inside =>
    cases isWire
    obtain ⟨⟨d, hd, rfl⟩, -⟩ := within.declared _ _ _ _ hc
    exact marked d hd

/-- The names in a well-formed module carry their marks. -/
theorem Design.marked_of_wellFormed {d : Design} {m : Module}
    (module : m.WellFormed d.modules.names) : m.Marked d.isInstance := by
  have wires : ∀ w ∈ m.wires.toList, Identifier.IsMarked w.name := fun w hw =>
    (module.wires w hw).marked
  refine ⟨module.marked, fun c hc isInstance => ?_, fun c hc b hb => ?_, fun k hk => ?_⟩
  · obtain ⟨inner, instantiates⟩ := Option.isSome_iff_exists.mp isInstance
    obtain ⟨hinner, named⟩ := d.module?_eq_some_iff.mp instantiates
    exact (module.cells c hc).ports (named ▸ List.mem_map_of_mem hinner)
  · exact ((module.cells c hc).signals b hb).marked wires
  · have connection := module.connections k hk
    exact ⟨connection.target.marked wires, connection.source.marked wires⟩

/-! ## What is asked of a renamed design -/

namespace Design

variable {d : Design} {m : Module} {c : Cell} {port name : String}

@[simp] theorem name_renameModule (d : Design) (m : Module) : (d.renameModule r m).name = m.name :=
  rfl

@[simp] theorem name_renameCell (d : Design) (c : Cell) : (d.renameCell r c).name = c.name := rfl

@[simp] theorem type_renameCell (d : Design) (c : Cell) : (d.renameCell r c).type = c.type := rfl

/-- The ports of an instance are renamed with the wires of its module. -/
theorem portNames_of_instance (isInstance : d.isInstance c = true) : d.portNames r c = r := by
  rw [portNames, if_pos isInstance]

/-- The ports of a primitive keep their names. -/
theorem portNames_of_primitive (primitive : d.isInstance c = false) :
    d.portNames r c = .refl := by
  rw [portNames, primitive]
  rfl

theorem wire?_renameModule (m : Module) (name : String) :
    (d.renameModule r m).wire? (r name) = (m.wire? name).map (Declaration.rename r) :=
  m.wires.find?_relabel (fun _ => rfl) name

/-- A renamed design finds a module under its old name, with its wires renamed. -/
theorem module?_rename : (d.rename r).module? name = (d.module? name).map (d.renameModule r) :=
  d.modules.find?_mapMembers (d.renameModule r) (fun _ => rfl) name

theorem instantiated?_rename :
    (d.rename r).instantiated? (d.renameCell r c) = (d.instantiated? c).map (d.renameModule r) :=
  module?_rename

/-- Renaming wires makes no cell an instance and none a primitive. -/
theorem isInstance_rename : (d.rename r).isInstance (d.renameCell r c) = d.isInstance c := by
  rw [isInstance, isInstance, instantiated?_rename, Option.isSome_map]

/-- The port of a primitive is bound to the renamed signal. -/
theorem signal_renameCell (primitive : d.isInstance c = false) (port : String) :
    (d.renameCell r c).signal port = (c.signal port).rename r := by
  have renamed := c.signal_rename (r := r) (d.portNames r c) port
  rw [portNames_of_primitive primitive] at renamed
  rw [renameCell, portNames_of_primitive primitive]
  exact renamed

/-- A port faces as before. -/
theorem direction?_rename (marked : d.isInstance c = true → Identifier.IsMarked port) :
    (d.rename r).direction? (d.renameCell r c) (d.portNames r c port) = d.direction? c port := by
  unfold direction?
  rw [instantiated?_rename]
  cases instantiates : d.instantiated? c with
  | none =>
    have primitive : d.isInstance c = false := by rw [isInstance, instantiates]; rfl
    rw [portNames_of_primitive primitive]
    rfl
  | some inner =>
    have isInstance : d.isInstance c = true := by rw [isInstance, instantiates]; rfl
    simp only [Option.map_some, portNames_of_instance isInstance, r.escape_eq (marked isInstance),
      wire?_renameModule]
    cases inner.wire? (Identifier.escape port) <;> rfl

/-- A renamed cell reads the renamed ports. -/
theorem reads_rename (marked : d.isInstance c = true → Identifier.IsMarked port) :
    (d.rename r).reads (d.renameCell r c) (d.portNames r c port) = d.reads c port := by
  rw [reads, reads, direction?_rename marked]

/-- A renamed cell drives the renamed ports. -/
theorem drives_rename (marked : d.isInstance c = true → Identifier.IsMarked port) :
    (d.rename r).drives (d.renameCell r c) (d.portNames r c port) = d.drives c port := by
  rw [drives, drives, direction?_rename marked]

/-- The cells selected of a renamed module are those selected of the module, renamed. -/
theorem selectedCells_rename (d : Design) (m : Module) :
    (d.rename r).selectedCells (d.renameModule r m) = (d.selectedCells m).map (d.renameCell r) :=
  List.filter_map ..

/-! ## The index -/

theorem instantiatedIn_rename (d : Design) (m : Module) :
    (d.rename r).instantiatedIn (d.renameModule r m) =
      (d.instantiatedIn m).map (d.renameModule r) := by
  rw [instantiatedIn, instantiatedIn, selectedCells_rename, List.filterMap_map,
    List.map_filterMap]
  exact List.filterMap_congr fun c _ => instantiated?_rename

theorem sameSkeleton_rename (d : Design) (r : Renaming) :
    d.SameSkeleton (fun m m' => m' = d.renameModule r m) (d.rename r) where
  name := by
    rintro m _ rfl
    rfl
  inside := by
    rintro m _ rfl
    rw [instantiatedIn_rename]
    exact List.forall₂_map_right_iff.mpr (List.forall₂_same.mpr fun _ _ => rfl)
  selected := by
    have selected : (d.rename r).selectedModules = d.selectedModules.map (d.renameModule r) :=
      List.filter_map ..
    rw [selected]
    exact List.forall₂_map_right_iff.mpr (List.forall₂_same.mpr fun _ _ => rfl)

end Design

/-! ## Names to show -/

namespace Connection

variable {g : Signal} {k : Connection} {w : String}

/-- The public name of a renamed signal is the renamed one. -/
theorem publicName?_rename (marked : g.Marked) :
    publicName? (g.rename r) = (publicName? g).map r := by
  unfold publicName?
  rw [Signal.wholeWire?_rename]
  cases whole : g.wholeWire? with
  | none => rfl
  | some wire =>
    have same := r.isPublic_eq (marked.of_wholeWire? whole)
    simp only [Option.map_some, Option.filter_some, Wire.rename, same]
    split <;> rfl

theorem alias?_rename (marked : k.target.Marked ∧ k.source.Marked) :
    (k.rename r).alias? (r w) = (k.alias? w).map r := by
  simp only [alias?, Connection.rename, Signal.isWhole_rename, publicName?_rename marked.1,
    publicName?_rename marked.2]
  split
  · rfl
  · split <;> rfl

end Connection

/-- A wire is shown under the new name of what it was shown under. -/
theorem Design.shownName_renameModule {d : Design} {m : Module}
    (marked : m.Marked d.isInstance) (w : String) :
    (d.renameModule r m).shownName (r w) = r (m.shownName w) := by
  have lent : (m.connections.map (Connection.rename r)).findSome? (fun k => k.alias? (r w)) =
      (m.connections.findSome? fun k => k.alias? w).map r := by
    have connections := marked.connections
    generalize m.connections = row at connections
    induction row with
    | nil => rfl
    | cons k rest ih =>
      obtain ⟨first, others⟩ := List.forall_mem_cons.mp connections
      rw [List.map_cons, List.findSome?_cons, List.findSome?_cons, Connection.alias?_rename first]
      cases k.alias? w with
      | none => exact ih others
      | some _ => rfl
  unfold Module.shownName
  change ((m.connections.map (Connection.rename r)).findSome? _).getD _ = _
  rw [lent]
  cases m.connections.findSome? fun k => k.alias? w <;> rfl

/-! ## Items and answers -/

/-- The item over renamed wires. -/
def Item.rename (r : Renaming) (i : Item) : Item := ⟨i.module, i.signal.rename r⟩

/-- The event with the item that it enters renamed. -/
def Event.renamePush (r : Renaming) : Event → Event
  | .push hop item => .push hop (item.rename r)
  | e => e

/-- The answer with the select that it names renamed. That there is none stays what it is. -/
def SearchAnswer.rename (r : Renaming) (a : SearchAnswer) : SearchAnswer :=
  if a.isFound then { a with select := r a.select } else a

/-- An item beside the renamed one. -/
abbrev Item.Renamed (r : Renaming) (i i' : Item) : Prop := i' = i.rename r

/-- An outcome beside the renamed one. -/
abbrev OutcomeRenamed (r : Renaming) (o o' : Except SearchFault SearchAnswer) : Prop :=
  o' = o.map (SearchAnswer.rename r)

theorem pushes_renamePush (events : List Event) :
    pushes (events.map (Event.renamePush r)) =
      (pushes events).map fun p => (p.1, p.2.rename r) := by
  unfold pushes
  rw [List.filterMap_map, List.map_filterMap]
  exact List.filterMap_congr fun e _ => by cases e <;> rfl

theorem paired_renamePush (entered : List (Hop × Item)) :
    List.Forall₂ (PairedPush (Item.Renamed r)) entered
      (entered.map fun p => (p.1, p.2.rename r)) :=
  List.forall₂_map_right_iff.mpr (List.forall₂_same.mpr fun _ _ => ⟨rfl, rfl⟩)

/-! ## Multiplexers -/

namespace MuxRule

variable {rule : MuxRule} {c : Cell} {d : Design} {w : Wire}

/-- A cell with marked ports alone has no select. -/
theorem isMux_of_marked (ports : ∀ b ∈ c.bindings.toList, Identifier.IsMarked b.port) :
    rule.isMux c = false := by
  have unbound : (c.signal selectPort).isEmpty = true := by
    cases found : c.bindings.find? selectPort with
    | none =>
      rw [Cell.signal, found]
      rfl
    | some b =>
      obtain ⟨hb, named⟩ := c.bindings.find?_eq_some_iff.mp found
      have marked := ports b hb
      rw [show b.port = selectPort from named] at marked
      rcases marked with backslash | dollar
      · exact absurd backslash (by decide)
      · exact absurd dollar (by decide)
  unfold isMux
  rw [unbound]
  simp only [Bool.not_true, Bool.and_false, Bool.false_and]

/-- A cell is a multiplexer just when the renamed one is. -/
theorem isMux_renameCell
    (ports : d.isInstance c = true → ∀ b ∈ c.bindings.toList, Identifier.IsMarked b.port) :
    rule.isMux (d.renameCell r c) = rule.isMux c := by
  cases isInstance : d.isInstance c with
  | true =>
    rw [isMux_of_marked (ports isInstance)]
    refine isMux_of_marked fun b hb => ?_
    obtain ⟨b, bound, rfl⟩ := List.mem_map.mp hb
    change Identifier.IsMarked (d.portNames r c b.port)
    rw [Design.portNames_of_instance isInstance]
    exact r.isMarked (ports isInstance b bound)
  | false =>
    simp only [isMux, Design.type_renameCell, Design.signal_renameCell isInstance,
      Signal.isEmpty_rename]

/-- A renamed multiplexer is selected by the renamed wire. -/
theorem selectWire?_renameCell (primitive : d.isInstance c = false) :
    selectWire? (d.renameCell r c) = (selectWire? c).map (Wire.rename r) := by
  unfold selectWire?
  rw [Design.signal_renameCell primitive, Signal.wholeWire?_rename, Signal.wires_rename,
    List.head?_map]
  cases (c.signal selectPort).wholeWire? <;> rfl

theorem isMarked_of_selectWire? (bindings : ∀ b ∈ c.bindings.toList, b.signal.Marked)
    (select : selectWire? c = some w) : Identifier.IsMarked w.name := by
  have marked : (c.signal selectPort).Marked := by
    unfold Cell.signal
    cases found : c.bindings.find? selectPort with
    | none => exact List.forall_mem_nil _
    | some b => exact bindings b (c.bindings.find?_eq_some_iff.mp found).1
  unfold selectWire? at select
  split at select
  · next whole =>
    cases select
    exact marked.of_wholeWire? whole
  · exact marked w (List.mem_of_head? select)

/-- A renaming that keeps the token of the reset keeps what selects a multiplexer. -/
theorem selectKind_renameCell (primitive : d.isInstance c = false)
    (bindings : ∀ b ∈ c.bindings.toList, b.signal.Marked)
    (token : ∀ name, Identifier.IsMarked name → rule.isReset (r name) = rule.isReset name) :
    rule.selectKind (d.renameCell r c) = rule.selectKind c := by
  unfold selectKind
  rw [selectWire?_renameCell primitive]
  cases select : selectWire? c with
  | none => rfl
  | some w =>
    simp only [Option.map_some, Option.any_some, Wire.rename,
      token w.name (isMarked_of_selectWire? bindings select)]

end MuxRule

/-! ## The searches -/

namespace SearchSetting

variable {s : SearchSetting} {m parent : Module} {w : Wire} {port : String} {c : Cell}

/-- The setting over renamed wires. -/
def rename (s : SearchSetting) (r : Renaming) : SearchSetting :=
  { s with design := s.design.rename r }

@[simp] theorem design_rename (s : SearchSetting) : (s.rename r).design = s.design.rename r := rfl

@[simp] theorem rule_rename (s : SearchSetting) : (s.rename r).rule = s.rule := rfl

/-- A cell and a binding of it, over renamed wires. -/
def renamePair (s : SearchSetting) (r : Renaming) (p : Cell × Binding) : Cell × Binding :=
  (s.design.renameCell r p.1, p.2.rename r (s.design.portNames r p.1))

/-- The bindings over a renamed wire are those over the wire, renamed. -/
theorem bound_rename {p p' : Cell → Bool}
    (keeps : ∀ c ∈ m.cells.toList, p' (s.design.renameCell r c) = p c) :
    (s.rename r).bound (s.design.renameModule r m) (w.rename r) p' =
      (s.bound m w p).map (s.renamePair r) := by
  rw [bound, bound, design_rename,
    Design.filter_selectedCells_map (s.design.selectedCells_rename m) keeps, List.flatMap_map,
    List.map_flatMap]
  refine List.flatMap_congr fun c _ => ?_
  have bindings : (s.design.renameCell r c).bindings.toList =
      c.bindings.toList.map (Binding.rename r (s.design.portNames r c)) := rfl
  rw [bindings, List.filter_map, List.map_map, List.map_map]
  simp only [Function.comp_def, Binding.rename, Wire.name_rename, Signal.isWhole_rename]
  rfl

/-- The ports of instances among the bindings of a wire are marked. -/
theorem isMarked_of_mem_bound (marked : m.Marked s.design.isInstance) {p : Cell → Bool}
    {b : Binding} (hb : (c, b) ∈ s.bound m w p) :
    s.design.isInstance c = true → Identifier.IsMarked b.port := by
  intro isInstance
  obtain ⟨⟨selected, -⟩, bound, -⟩ := mem_bound.mp hb
  exact marked.ports c (s.design.mem_selectedCells.mp selected).1 isInstance b bound

/-- The cells that read a renamed wire are those that read the wire, renamed. -/
theorem readers_rename (marked : m.Marked s.design.isInstance) {p p' : Cell → Bool}
    (keeps : ∀ c ∈ m.cells.toList, p' (s.design.renameCell r c) = p c) :
    (s.rename r).readers (s.design.renameModule r m) (w.rename r) p' =
      (s.readers m w p).map (s.renamePair r) := by
  rw [readers, readers, bound_rename keeps, List.filter_map]
  refine congrArg _ (List.filter_congr ?_)
  rintro ⟨c, b⟩ hb
  exact Design.reads_rename (isMarked_of_mem_bound marked hb)

/-- The answer that names a wire of a marked module, under the new name. -/
theorem rename_answer (marked : m.Marked s.design.isInstance) (w : Wire) :
    SearchAnswer.rename r ⟨m.shownName w.name, m.name⟩ =
      ⟨(s.design.renameModule r m).shownName (w.rename r).name, m.name⟩ := by
  have found : SearchAnswer.isFound ⟨m.shownName w.name, m.name⟩ = true :=
    isFound_of_filed (Identifier.escape_of_isMarked marked.name).symm
  rw [SearchAnswer.rename, if_pos found, Wire.name_rename, Design.shownName_renameModule marked]

/-- At the multiplexers a renamed wire comes to what the wire comes to, renamed. -/
theorem alike_passMuxes_rename (marked : m.Marked s.design.isInstance)
    (token : ∀ name, Identifier.IsMarked name → s.rule.isReset (r name) = s.rule.isReset name)
    {bindings : List (Cell × Binding)}
    (known : ∀ p ∈ bindings, p.1 ∈ m.cells.toList ∧ s.design.isInstance p.1 = false) :
    (s.passMuxes m w bindings).Alike (Item.Renamed r) (OutcomeRenamed r)
      ((s.rename r).passMuxes (s.design.renameModule r m) (w.rename r)
        (bindings.map (s.renamePair r))) := by
  induction bindings with
  | nil => exact .going .nil
  | cons p rest ih =>
    obtain ⟨c, b⟩ := p
    obtain ⟨⟨hc, primitive⟩, others⟩ := List.forall_mem_cons.mp known
    have signals := marked.bindings c hc
    have port : (b.rename r (s.design.portNames r c)).port = b.port := by
      rw [Design.portNames_of_primitive primitive]
      rfl
    rw [List.map_cons]
    dsimp only [renamePair]
    unfold passMuxes
    rw [port, rule_rename, MuxRule.selectKind_renameCell primitive signals token,
      MuxRule.selectWire?_renameCell primitive]
    split
    · cases MuxRule.selectWire? c with
      | none => exact ⟨.nil, .some rfl⟩
      | some select =>
        exact ⟨.nil, .some (congrArg Except.ok (rename_answer marked select).symm)⟩
    · have out := Design.signal_renameCell (r := r) primitive outputPort
      refine Expansion.Alike.andThen ⟨?_, .none⟩ (ih others)
      rw [out]
      by_cases isSelect : b.port = selectPort
      · rw [if_pos isSelect, if_pos isSelect]
        exact .cons ⟨rfl, rfl⟩ .nil
      · rw [if_neg isSelect, if_neg isSelect]
        exact .cons ⟨rfl, rfl⟩ .nil

/-! ## The other ways on -/

theorem outputPushes_rename (marked : m.Marked s.design.isInstance) (hc : c ∈ m.cells.toList) :
    (s.rename r).outputPushes (s.design.renameModule r m) (s.design.renameCell r c) =
      (s.outputPushes m c).map (Event.renamePush r) := by
  have drives : ∀ b ∈ c.bindings.toList,
      (s.design.rename r).drives (s.design.renameCell r c) (s.design.portNames r c b.port) =
        s.design.drives c b.port := fun b hb =>
    Design.drives_rename fun isInstance => marked.ports c hc isInstance b hb
  have outputs : (s.design.rename r).outputs (s.design.renameCell r c) =
      (s.design.outputs c).map (Binding.rename r (s.design.portNames r c)) := by
    change (c.bindings.toList.map _).filter _ = _
    rw [List.filter_map]
    exact congrArg _ (List.filter_congr drives)
  simp only [outputPushes, design_rename, outputs, List.filter_map, List.map_map,
    Function.comp_def, Binding.rename, Signal.isEmpty_rename]
  rfl

/-- Through cells a renamed wire goes where the wire goes, renamed. -/
theorem throughCells_rename (marked : m.Marked s.design.isInstance) :
    (s.rename r).throughCells (s.design.renameModule r m) (w.rename r) =
      (s.throughCells m w).map (Event.renamePush r) := by
  have keeps : ∀ c ∈ m.cells.toList,
      (!(s.rename r).design.isInstance (s.design.renameCell r c)) = !s.design.isInstance c :=
    fun c _ => congrArg not Design.isInstance_rename
  unfold throughCells
  rw [readers_rename marked keeps, List.flatMap_map, List.map_flatMap]
  refine List.flatMap_congr fun p hp => ?_
  obtain ⟨⟨⟨selected, -⟩, -⟩, -⟩ := mem_readers.mp hp
  exact outputPushes_rename marked (s.design.mem_selectedCells.mp selected).1

/-- Along connections a renamed wire goes where the wire goes, renamed. -/
theorem throughConnections_rename (m : Module) (w : Wire) :
    throughConnections (s.design.renameModule r m) (w.rename r) =
      (throughConnections m w).map (Event.renamePush r) := by
  change ((m.connections.map (Connection.rename r)).filter _).map _ = _
  simp only [throughConnections, List.filter_map, List.map_map, Function.comp_def,
    Connection.rename, Wire.name_rename, Signal.isWhole_rename]
  rfl

theorem enteredBy_rename {p : Cell × Binding}
    (marked : s.design.isInstance p.1 = true → Identifier.IsMarked p.2.port) :
    (s.rename r).enteredBy (s.renamePair r p) =
      (s.enteredBy p).map fun p => (p.1, p.2.rename r) := by
  unfold enteredBy renamePair
  rw [design_rename, Design.instantiated?_rename]
  cases instantiates : s.design.instantiated? p.1 with
  | none => rfl
  | some inner =>
    have isInstance : s.design.isInstance p.1 = true := by
      rw [Design.isInstance, instantiates]
      rfl
    simp only [Option.map_some, Option.bind_some, Binding.rename,
      Design.portNames_of_instance isInstance, r.escape_eq (marked isInstance),
      Design.wire?_renameModule, Option.map_map, Function.comp_def]
    refine congrArg (Option.map · _) (funext fun d => ?_)
    rw [Item.rename, Signal.ofWire_rename]
    rfl

/-- Into instances a renamed wire goes where the wire goes, renamed. -/
theorem pushes_intoInstances_rename (marked : m.Marked s.design.isInstance) :
    pushes ((s.rename r).intoInstances (s.design.renameModule r m) (w.rename r)) =
      (pushes (s.intoInstances m w)).map fun p => (p.1, p.2.rename r) := by
  have keeps : ∀ c ∈ m.cells.toList,
      (s.rename r).design.isInstance (s.design.renameCell r c) = s.design.isInstance c :=
    fun c _ => Design.isInstance_rename
  have enters : ∀ p ∈ s.bound m w s.design.isInstance,
      (!(s.rename r).design.drives (s.renamePair r p).1 (s.renamePair r p).2.port) =
        !s.design.drives p.1 p.2.port := fun p hp =>
    congrArg not (Design.drives_rename (isMarked_of_mem_bound marked hp))
  rw [pushes_intoInstances, pushes_intoInstances, bound_rename keeps, List.filter_map,
    List.filterMap_map, List.map_filterMap]
  simp only [Function.comp_def, List.filter_congr enters]
  refine List.filterMap_congr fun p hp => ?_
  exact enteredBy_rename (isMarked_of_mem_bound marked (List.mem_filter.mp hp).1)

theorem atInstances_rename (hm : m ∈ s.design.modules.toList)
    (marked : parent.Marked s.design.isInstance) :
    (s.rename r).atInstances (s.design.renameModule r parent) (s.design.renameModule r m) (r port) =
      (s.atInstances parent m port).map (Event.renamePush r) := by
  have instances : ((s.rename r).design.selectedCells (s.design.renameModule r parent)).filter
      (fun c => c.type == (s.design.renameModule r m).name) =
        ((s.design.selectedCells parent).filter fun c => c.type == m.name).map
          (s.design.renameCell r) :=
    Design.filter_selectedCells_map (s.design.selectedCells_rename parent) fun _ _ => rfl
  unfold atInstances
  rw [instances, List.flatMap_map, List.map_flatMap]
  refine List.flatMap_congr fun c hc => ?_
  obtain ⟨selected, type⟩ := List.mem_filter.mp hc
  have isInstance : s.design.isInstance c = true :=
    Option.isSome_iff_exists.mpr
      ⟨m, s.design.module?_eq_some_iff.mpr ⟨hm, (beq_iff_eq.mp type).symm⟩⟩
  have ports := marked.ports c (s.design.mem_selectedCells.mp selected).1 isInstance
  have atPort : ∀ b ∈ c.bindings.toList,
      (Identifier.escape (r b.port) == r port && !(b.signal.rename r).isEmpty) =
        (Identifier.escape b.port == port && !b.signal.isEmpty) := by
    intro b hb
    rw [r.escape_eq (ports b hb), r.beq_eq, Signal.isEmpty_rename]
  change ((c.bindings.toList.map _).filter _).map _ = _
  rw [Design.portNames_of_instance isInstance, List.filter_map, List.map_map, List.map_map]
  simp only [Function.comp_def, Binding.rename, List.filter_congr atPort]
  rfl

/-- Out of its module a renamed wire goes where the wire goes, renamed. -/
theorem outToParent_rename (hm : m ∈ s.design.modules.toList)
    (marked : ∀ m ∈ s.design.modules.toList, m.Marked s.design.isInstance) :
    (s.rename r).outToParent (s.design.renameModule r m) (w.rename r) =
      (s.outToParent m w).map (Event.renamePush r) := by
  have parents : (s.rename r).parent? (s.design.renameModule r m) =
      (s.parent? m).map (s.design.renameModule r) := by
    rw [parent?, parent?, Option.map_bind]
    exact congrArg _ (funext fun name => Design.module?_rename)
  have isOutput : ((s.design.renameModule r m).wire? (w.rename r).name).any Declaration.isOutput =
      (m.wire? w.name).any Declaration.isOutput := by
    rw [Wire.name_rename, Design.wire?_renameModule, Option.any_map]
    rfl
  unfold outToParent
  rw [isOutput, parents]
  split
  · cases standsIn : s.parent? m with
    | none => rfl
    | some parent => exact atInstances_rename hm (marked parent (parent?_mem standsIn))
  · rfl

/-! ## Wires, signals, items -/

theorem alike_expandWire_rename (hm : m ∈ s.design.modules.toList)
    (marked : ∀ m ∈ s.design.modules.toList, m.Marked s.design.isInstance)
    (token : ∀ name, Identifier.IsMarked name → s.rule.isReset (r name) = s.rule.isReset name)
    (w : Wire) :
    (s.expandWire m w).Alike (Item.Renamed r) (OutcomeRenamed r)
      ((s.rename r).expandWire (s.design.renameModule r m) (w.rename r)) := by
  have here := marked m hm
  have isMux : ∀ c ∈ m.cells.toList,
      (s.rename r).rule.isMux (s.design.renameCell r c) = s.rule.isMux c := fun c hc =>
    MuxRule.isMux_renameCell (here.ports c hc)
  have known : ∀ p ∈ s.readers m w s.rule.isMux,
      p.1 ∈ m.cells.toList ∧ s.design.isInstance p.1 = false := by
    rintro ⟨c, b⟩ hp
    obtain ⟨⟨⟨selected, isMux⟩, -⟩, -⟩ := mem_readers.mp hp
    have hc := (s.design.mem_selectedCells.mp selected).1
    refine ⟨hc, Bool.eq_false_iff.mpr fun isInstance => ?_⟩
    rw [MuxRule.isMux_of_marked (here.ports c hc isInstance)] at isMux
    cases isMux
  unfold expandWire
  refine .andThen (.andThen (.going .nil) ?_) (.going ?_)
  · rw [readers_rename here isMux]
    exact alike_passMuxes_rename here token known
  · rw [throughCells_rename here, throughConnections_rename, outToParent_rename hm marked]
    simp only [pushes_append, pushes_renamePush, pushes_intoInstances_rename here,
      ← List.map_append]
    exact paired_renamePush _

theorem alike_expandChunks_rename
    (wires : ∀ w, (s.expandWire m w).Alike (Item.Renamed r) (OutcomeRenamed r)
      ((s.rename r).expandWire (s.design.renameModule r m) (w.rename r))) (chunks : List Chunk) :
    (s.expandChunks m chunks).Alike (Item.Renamed r) (OutcomeRenamed r)
      ((s.rename r).expandChunks (s.design.renameModule r m) (chunks.map (Chunk.rename r))) := by
  induction chunks with
  | nil => exact .going .nil
  | cons c _ ih =>
    cases c with
    | const _ => exact .andThen (.going .nil) ih
    | slice wire _ _ _ => exact (wires wire).andThen ih

theorem alike_expand_rename
    (marked : ∀ m ∈ s.design.modules.toList, m.Marked s.design.isInstance)
    (token : ∀ name, Identifier.IsMarked name → s.rule.isReset (r name) = s.rule.isReset name)
    (i : Item) :
    (s.expand i).Alike (Item.Renamed r) (OutcomeRenamed r)
      ((s.rename r).expand (i.rename r)) := by
  unfold expand
  rw [design_rename, Item.rename, Design.module?_rename]
  cases found : s.design.module? i.module with
  | none => exact ⟨.nil, .some rfl⟩
  | some m =>
    have hm := (s.design.module?_eq_some_iff.mp found).1
    dsimp only [Option.map_some]
    change Expansion.Alike _ _ _ (if m.processes.isEmpty then _ else _)
    split
    · exact alike_expandChunks_rename (alike_expandWire_rename hm marked token) _
    · exact ⟨.nil, .some rfl⟩

/-- The search and the search through renamed wires go in lockstep. -/
theorem lockstep_rename
    (marked : ∀ m ∈ s.design.modules.toList, m.Marked s.design.isInstance)
    (token : ∀ name, Identifier.IsMarked name → s.rule.isReset (r name) = s.rule.isReset name) :
    s.Lockstep (s.rename r) (Item.Renamed r) (OutcomeRenamed r) where
  keys := by
    rintro i _ j _ rfl rfl
    simp only [Item.key, Item.rename, Prod.mk.injEq, Signal.key_rename_eq_iff]
  expand := by
    rintro i _ rfl
    exact alike_expand_rename marked token i
  notFound := rfl

/-- **Wires may be called anything else.** Let a design be read from a document, under any
selection, and rename its wires, and the ports of its instances with them, so that different names
stay different, marks stay, and so does whether the reset token occurs in a name. Then the index is
the same. With that index or any other a search from the renamed item counts what the search from
the item counts, and comes to its outcome under the new names: the answer names the renamed select
in the same module, and that there is no multiplexer, or which module has processes, is told in the
same words. -/
theorem search_rename {doc asked : Value} {d : Design}
    (accepted : Document.design doc asked = .ok d) (selection : Selection) (rule : MuxRule)
    (r : Renaming)
    (token : ∀ name, Identifier.IsMarked name →
      (rule.resetToken.toList <:+: (r name).toList ↔ rule.resetToken.toList <:+: name.toList)) :
    let chosen : Design := { d with selection := selection }
    (chosen.rename r).index = chosen.index ∧
      ∀ (index : HierarchyIndex) (start : Item),
        let s : SearchSetting := ⟨chosen, index, rule⟩
        let renamed : SearchSetting := ⟨chosen.rename r, index, rule⟩
        (renamed.search (start.rename r)).outcome =
            (s.search start).outcome.map (SearchAnswer.rename r) ∧
          (renamed.search (start.rename r)).stats = (s.search start).stats := by
  intro chosen
  refine ⟨(chosen.sameSkeleton_rename r).index_eq.symm, fun index start => ?_⟩
  intro s renamed
  have marked : ∀ m ∈ s.design.modules.toList, m.Marked s.design.isInstance := fun m hm =>
    Design.marked_of_wellFormed (Document.allFormed_of_design accepted m hm)
  have reset : ∀ name, Identifier.IsMarked name →
      s.rule.isReset (r name) = s.rule.isReset name := by
    intro name isMarked
    rw [Bool.eq_iff_iff]
    unfold MuxRule.isReset
    rw [Text.occursIn_iff_isInfix, Text.occursIn_iff_isInfix]
    exact token name isMarked
  have lockstep : s.Lockstep renamed (Item.Renamed r) (OutcomeRenamed r) :=
    lockstep_rename marked reset
  obtain ⟨stats, outcome⟩ := lockstep.search (rfl : Item.Renamed r start (start.rename r))
  exact ⟨outcome, stats.symm⟩

/-- The wire of `top` and the port of `leaf` change names. -/
def crossed : Renaming := .swap "\\x" "\\a" (by decide)

/-- The nested modules, of `top` its one cell. -/
def nestedPart : Design := { nested with selection := nestedSelection }

theorem search_rename_crossed : Document.design nestedDocument .null = .ok nested ∧
    (∀ name, Identifier.IsMarked name →
      (MuxRule.customary.resetToken.toList <:+: (crossed name).toList ↔
        MuxRule.customary.resetToken.toList <:+: name.toList)) ∧
    ∃ index, nestedPart.index = .ok index ∧ (nestedPart.rename crossed).index = .ok index ∧
      (SearchSetting.search ⟨nestedPart, index, .customary⟩
        ⟨"\\top", .ofWire nestedWire⟩).outcome = .ok ⟨"\\a", "\\leaf"⟩ ∧
      (SearchSetting.search ⟨nestedPart.rename crossed, index, .customary⟩
        ⟨"\\top", .ofWire (nestedWire.rename crossed)⟩).outcome = .ok ⟨"\\x", "\\leaf"⟩ := by
  have token : ∀ name, Identifier.IsMarked name →
      (MuxRule.customary.resetToken.toList <:+: (crossed name).toList ↔
        MuxRule.customary.resetToken.toList <:+: name.toList) := by
    intro name _
    have alike : "\\x".toList.head? = "\\a".toList.head? := by decide
    have neither : MuxRule.customary.resetToken.toList <:+: "\\x".toList ↔
        MuxRule.customary.resetToken.toList <:+: "\\a".toList := by
      decide
    exact Renaming.swap_iff alike (P := fun name => _ <:+: name.toList) neither name
  have search : nestedPart.index.toOption.map (fun index =>
      (SearchSetting.search ⟨nestedPart, index, .customary⟩
        ⟨"\\top", .ofWire nestedWire⟩).outcome) = some (.ok ⟨"\\a", "\\leaf"⟩) := by
    decide +kernel
  have renamed : SearchAnswer.rename crossed ⟨"\\a", "\\leaf"⟩ = ⟨"\\x", "\\leaf"⟩ := by
    decide +kernel
  obtain ⟨same, searches⟩ :=
    search_rename nested_accepted nestedSelection .customary crossed token
  cases built : nestedPart.index with
  | error fault =>
    rw [built] at search
    cases search
  | ok index =>
    rw [built] at search
    have answer := Option.some.inj search
    obtain ⟨outcome, -⟩ := searches index ⟨"\\top", .ofWire nestedWire⟩
    refine ⟨nested_accepted, token, index, rfl, same.trans built, answer, ?_⟩
    rw [← Signal.ofWire_rename, ← renamed]
    exact outcome.trans (congrArg (Except.map (SearchAnswer.rename crossed)) answer)

end SearchSetting

end NearestMux
