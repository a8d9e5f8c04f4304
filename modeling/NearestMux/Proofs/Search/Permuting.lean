import NearestMux.Proofs.Hierarchy.Order
import NearestMux.Proofs.Netlist.Rosters
import NearestMux.Proofs.Search.Containment
import NearestMux.Proofs.Search.Ending

/-!
# Permuted designs — the order of an export does not decide what is found

Take a design whose modules are filed and without processes (`Design.Lowered`) and change, inside
each module, the order of the cells, of the ports of each cell, and of the connections
(`Design.Permuted`). The modules stay in their order. Then a search on the one design finds a
multiplexer just when it does on the other, and the cheapest way to the item at which it ends costs
the same (`SearchSetting.search_permuted`). The answer itself may be another one.

The searches take their items out of the queue in different orders, and there is no way to go
through them side by side. But what a search finds at is decided by the ways on and by the items at
which it stops (`findsAt_iff`), and these are the same on both designs.

One way on needs a second look. A module has one parent, that of its last instance, and the
instances were noted in the order of the design. The last one is in the last selected module with an
instance at all, though, and in that module any of its instances will do: the outer modules of the
instances come in the same order on both sides, each as often as it has instances
(`Design.Permuted.outersOf_eq`).
-/

namespace NearestMux

/-! ## What is permuted -/

/-- Two cells that differ in the order of their ports. -/
structure Cell.Permuted (c c' : Cell) : Prop where
  name : c.name = c'.name
  type : c.type = c'.type
  bindings : c.bindings.toList.Perm c'.bindings.toList
  notes : c.notes.toList.Perm c'.notes.toList

/-- Two rows of cells that differ in their order, and in each cell in the order of the ports. -/
def CellsPermuted (cells cells' : List Cell) : Prop :=
  ∃ row, List.Forall₂ Cell.Permuted cells row ∧ row.Perm cells'

/-- Two modules that differ in the order of the cells, of the ports of each cell, and of the
connections. -/
structure Module.Permuted (m m' : Module) : Prop where
  name : m.name = m'.name
  wires : m.wires = m'.wires
  cells : CellsPermuted m.cells.toList m'.cells.toList
  connections : m.connections.Perm m'.connections
  processes : m.processes = m'.processes

/-- Two designs whose modules, in one order, differ in the order of what is inside them. -/
structure Design.Permuted (d d' : Design) : Prop where
  top : d.top = d'.top
  selection : d.selection = d'.selection
  modules : List.Forall₂ Module.Permuted d.modules.toList d'.modules.toList

/-- The cell with its ports the other way round. -/
def Cell.reversed (c : Cell) : Cell :=
  { c with bindings := c.bindings.reversed, notes := c.notes.reversed }

/-- The module with everything but its wires the other way round. -/
def Module.reversed (m : Module) : Module :=
  { m with
    cells := (m.cells.mapMembers Cell.reversed fun _ => rfl).reversed
    connections := m.connections.reverse }

/-- The design with its modules in their order, and what is inside them the other way round. -/
def Design.reversed (d : Design) : Design :=
  { d with modules := d.modules.mapMembers Module.reversed fun _ => rfl }

theorem Cell.permuted_reversed (c : Cell) : c.Permuted c.reversed :=
  ⟨rfl, rfl, c.bindings.perm_reversed, c.notes.perm_reversed⟩

theorem Module.permuted_reversed (m : Module) : m.Permuted m.reversed where
  name := rfl
  wires := rfl
  cells := by
    refine ⟨m.cells.toList.map Cell.reversed, ?_, (List.reverse_perm _).symm⟩
    exact List.forall₂_map_right_iff.mpr (List.forall₂_same.mpr fun c _ => c.permuted_reversed)
  connections := (List.reverse_perm m.connections).symm
  processes := rfl

theorem Design.permuted_reversed (d : Design) : d.Permuted d.reversed where
  top := rfl
  selection := rfl
  modules :=
    List.forall₂_map_right_iff.mpr (List.forall₂_same.mpr fun m _ => m.permuted_reversed)

theorem Cell.Permuted.symm {c c' : Cell} (same : c.Permuted c') : c'.Permuted c :=
  ⟨same.name.symm, same.type.symm, same.bindings.symm, same.notes.symm⟩

namespace CellsPermuted

variable {cells cells' : List Cell}

theorem symm (same : CellsPermuted cells cells') : CellsPermuted cells' cells := by
  obtain ⟨row, each, perm⟩ := same
  have back : List.Forall₂ Cell.Permuted row cells := (each.imp fun _ _ same => same.symm).flip
  obtain ⟨row', each', perm'⟩ := List.perm_comp_forall₂ perm.symm back
  exact ⟨row', each', perm'⟩

/-- Every cell has its like on the other side. -/
theorem exists_mem (same : CellsPermuted cells cells') :
    ∀ c ∈ cells, ∃ c' ∈ cells', c.Permuted c' := by
  obtain ⟨row, each, perm⟩ := same.symm
  have known : List.Forall₂ (fun c' c => c' ∈ cells' ∧ c'.Permuted c) cells' row :=
    (List.forall₂_and_left _ _).mpr ⟨fun _ hc => hc, each⟩
  have likes : ∀ c ∈ row, ∃ c' ∈ cells', c.Permuted c' :=
    forall_of_forall₂ known fun c' _ like => ⟨c', like.1, like.2.symm⟩
  exact fun c hc => likes c (perm.mem_iff.mpr hc)

/-- Cells kept by conditions that agree on cells alike are the same cells in another order. -/
theorem filter (same : CellsPermuted cells cells') {p p' : Cell → Bool}
    (alike : ∀ {c c'}, c.Permuted c' → p c = p' c') :
    CellsPermuted (cells.filter p) (cells'.filter p') := by
  obtain ⟨row, each, perm⟩ := same
  refine ⟨row.filter p', List.rel_filter (fun c c' like => ?_) each, perm.filter p'⟩
  change p c = true ↔ p' c' = true
  rw [alike like]

/-- What is read off the cells one by one is the same, up to its order. -/
theorem filterMap (same : CellsPermuted cells cells') {α : Type} {f f' : Cell → Option α}
    (alike : ∀ {c c'}, c.Permuted c' → f c = f' c') :
    (cells.filterMap f).Perm (cells'.filterMap f') := by
  obtain ⟨row, each, perm⟩ := same
  have made : List.Forall₂ Eq (cells.filterMap f) (row.filterMap f') := by
    refine List.rel_filterMap (fun c c' like => ?_) each
    rw [alike like]
    cases f' c' with
    | none => exact .none
    | some _ => exact .some rfl
  rw [List.forall₂_eq_eq_eq] at made
  rw [made]
  exact perm.filterMap f'

end CellsPermuted

theorem Module.Permuted.symm {m m' : Module} (same : m.Permuted m') : m'.Permuted m :=
  ⟨same.name.symm, same.wires.symm, same.cells.symm, same.connections.symm, same.processes.symm⟩

theorem Design.Permuted.symm {d d' : Design} (same : d.Permuted d') : d'.Permuted d :=
  ⟨same.top.symm, same.selection.symm, (same.modules.imp fun _ _ same => same.symm).flip⟩

/-! ## What is asked of cells -/

namespace Cell.Permuted

variable {c c' : Cell}

/-- A cell has one signal on a port, in whichever order its bindings stand. -/
theorem signal_eq (same : c.Permuted c') (port : String) : c.signal port = c'.signal port := by
  rw [signal, signal, Roster.find?_eq_of_perm same.bindings]

theorem primitiveDirection?_eq (same : c.Permuted c') (port : String) :
    c.primitiveDirection? port = c'.primitiveDirection? port := by
  unfold primitiveDirection?
  rw [same.type, Roster.find?_eq_of_perm same.notes]

/-- The order of bindings does not decide whether a cell is a multiplexer. -/
theorem isMux_eq (same : c.Permuted c') (rule : MuxRule) : rule.isMux c = rule.isMux c' := by
  simp only [MuxRule.isMux, same.type, same.signal_eq]

/-- The order of bindings does not decide what a multiplexer is selected by. -/
theorem selectKind_eq (same : c.Permuted c') (rule : MuxRule) :
    rule.selectKind c = rule.selectKind c' := by
  rw [MuxRule.selectKind, MuxRule.selectKind, MuxRule.selectWire?, MuxRule.selectWire?,
    same.signal_eq]

end Cell.Permuted

namespace Design

variable {d d' : Design} {m m' : Module} {c c' : Cell} {name : String}
  {index index' : HierarchyIndex}

theorem Permuted.rel_module? (same : d.Permuted d') (name : String) :
    Option.Rel Module.Permuted (d.module? name) (d'.module? name) :=
  Roster.rel_find? same.modules (fun _ _ same => same.name) name

theorem Permuted.exists_module (same : d.Permuted d') (found : d.module? name = some m) :
    ∃ m', d'.module? name = some m' ∧ m.Permuted m' := by
  have agree := same.rel_module? name
  rw [found] at agree
  generalize d'.module? name = found' at agree ⊢
  cases agree with
  | some like => exact ⟨_, rfl, like⟩

/-- Two like cells instantiate two like modules, or none. -/
theorem Permuted.rel_instantiated? (same : d.Permuted d') (like : c.Permuted c') :
    Option.Rel Module.Permuted (d.instantiated? c) (d'.instantiated? c') := by
  rw [instantiated?, instantiated?, ← like.type]
  exact same.rel_module? c.type

/-- Cells alike are instances in both designs or in neither. -/
theorem Permuted.isInstance_eq (same : d.Permuted d') (like : c.Permuted c') :
    d.isInstance c = d'.isInstance c' := by
  have agree := same.rel_instantiated? like
  unfold isInstance
  generalize d.instantiated? c = inner, d'.instantiated? c' = inner' at agree ⊢
  cases agree <;> rfl

theorem Permuted.direction?_eq (same : d.Permuted d') (like : c.Permuted c') (port : String) :
    d.direction? c port = d'.direction? c' port := by
  have agree := same.rel_instantiated? like
  unfold direction?
  generalize d.instantiated? c = inner, d'.instantiated? c' = inner' at agree ⊢
  cases agree with
  | none => exact like.primitiveDirection?_eq port
  | some modules =>
    dsimp only
    rw [Module.wire?, Module.wire?, modules.wires]

theorem Permuted.reads_eq (same : d.Permuted d') (like : c.Permuted c') (port : String) :
    d.reads c port = d'.reads c' port := by
  rw [reads, reads, same.direction?_eq like]

theorem Permuted.drives_eq (same : d.Permuted d') (like : c.Permuted c') (port : String) :
    d.drives c port = d'.drives c' port := by
  rw [drives, drives, same.direction?_eq like]

/-- The same cells are selected, in another order. -/
theorem Permuted.selectedCells (same : d.Permuted d') (modules : m.Permuted m') :
    CellsPermuted (d.selectedCells m) (d'.selectedCells m') := by
  refine modules.cells.filter fun like => ?_
  rw [same.selection, modules.name, like.name]

/-- A selected cell has its like among the selected cells of the other side. -/
theorem Permuted.exists_selectedCell (same : d.Permuted d') (modules : m.Permuted m')
    (selected : c ∈ d.selectedCells m) : ∃ c' ∈ d'.selectedCells m', c.Permuted c' :=
  (same.selectedCells modules).exists_mem c selected

/-! ## The index -/

/-- A permuted design retains every instantiation. -/
theorem Permuted.retainedBy (same : d.Permuted d') : d.RetainedBy d' where
  selection := same.selection.symm
  modules := by
    intro name m found
    obtain ⟨m', found', modules⟩ := same.exists_module found
    refine ⟨m', found', fun c hc => ?_⟩
    obtain ⟨c', hc', like⟩ := modules.cells.exists_mem c hc
    exact ⟨c', hc', like.name.symm, like.type.symm⟩

theorem Permuted.sameHierarchy (same : d.Permuted d') : d.SameHierarchy d' :=
  sameHierarchy_of_retainedBy same.retainedBy same.symm.retainedBy

theorem Permuted.innerNames (same : d.Permuted d') (modules : m.Permuted m') :
    (d.innerNames m).Perm (d'.innerNames m') := by
  unfold Design.innerNames instantiatedIn
  rw [List.map_filterMap, List.map_filterMap]
  refine (same.selectedCells modules).filterMap fun {c c'} like => ?_
  have agree := same.rel_instantiated? like
  generalize d.instantiated? c = inner, d'.instantiated? c' = inner' at agree ⊢
  cases agree with
  | none => rfl
  | some modules => exact congrArg some modules.name

/-- The two indices note the same modules around a module. -/
theorem Permuted.outersOf_eq (same : d.Permuted d') (built : d.index = .ok index)
    (built' : d'.index = .ok index') (name : String) :
    index.outersOf name = index'.outersOf name := by
  have selected : List.Forall₂ Module.Permuted d.selectedModules d'.selectedModules := by
    refine List.rel_filter (fun m m' modules => ?_) same.modules
    change d.selection.hasModule m.name = true ↔ d'.selection.hasModule m'.name = true
    rw [same.selection, modules.name]
  have outers : List.Forall₂ Eq (index.outersOf name) (index'.outersOf name) := by
    rw [outersOf_of_index built, outersOf_of_index built']
    refine List.rel_flatMap selected fun m m' modules => ?_
    rw [(same.innerNames modules).count_eq, modules.name]
    exact List.forall₂_refl _
  rwa [List.forall₂_eq_eq_eq] at outers

/-- A module has the same parent on both sides. -/
theorem Permuted.parent?_eq (same : d.Permuted d') (built : d.index = .ok index)
    (built' : d'.index = .ok index') (name : String) :
    index.parent? name = index'.parent? name := by
  rw [HierarchyIndex.parent?, HierarchyIndex.parent?, same.outersOf_eq built built']

/-- A permuted design has no processes either, and its modules are filed under the same names. -/
theorem Permuted.lowered (same : d.Permuted d') (lowered : d.Lowered) : d'.Lowered where
  filed := forall_of_forall₂ ((List.forall₂_and_left _ _).mpr ⟨lowered.filed, same.modules⟩)
    fun _ _ modules => modules.2.name ▸ modules.1
  processes := forall_of_forall₂ ((List.forall₂_and_left _ _).mpr ⟨lowered.processes, same.modules⟩)
    fun _ _ modules => modules.2.processes ▸ modules.1

end Design

/-! ## The ways on -/

namespace SearchSetting

variable {s t : SearchSetting} {m m' : Module} {w : String} {start i j : Item} {hop : Hop}

/-- Two settings over permuted designs, with the same parents and under one rule. -/
structure Permuted (s t : SearchSetting) : Prop where
  design : s.design.Permuted t.design
  parents : ∀ name, s.index.parent? name = t.index.parent? name
  rule : s.rule = t.rule

theorem Permuted.symm (same : s.Permuted t) : t.Permuted s :=
  ⟨same.design.symm, fun name => (same.parents name).symm, same.rule.symm⟩

theorem Permuted.exists_parent (same : s.Permuted t) (modules : m.Permuted m') {outer : Module}
    (standsIn : s.parent? m = some outer) :
    ∃ outer', t.parent? m' = some outer' ∧ outer.Permuted outer' := by
  obtain ⟨name, isParent, found⟩ := Option.bind_eq_some_iff.mp standsIn
  obtain ⟨outer', found', like⟩ := same.design.exists_module found
  refine ⟨outer', Option.bind_eq_some_iff.mpr ⟨name, ?_, found'⟩, like⟩
  rw [← same.parents, ← modules.name]
  exact isParent

/-- A way from a wire is a way from it in the permuted setting. -/
theorem WireLeads.permuted (same : s.Permuted t) (modules : m.Permuted m')
    (leads : s.WireLeads m w hop j) : t.WireLeads m' w hop j := by
  cases leads with
  | @mux c b selected isMux bound whole reads passes =>
    obtain ⟨c', selected', like⟩ := same.design.exists_selectedCell modules selected
    rw [modules.name, like.signal_eq]
    rw [same.rule, like.isMux_eq] at isMux
    rw [same.design.reads_eq like] at reads
    rw [same.rule, like.selectKind_eq] at passes
    exact .mux selected' isMux (like.bindings.mem_iff.mp bound) whole reads passes
  | @cell c b out selected primitive bound whole reads output drives hasBits =>
    obtain ⟨c', selected', like⟩ := same.design.exists_selectedCell modules selected
    rw [modules.name, like.type]
    rw [same.design.isInstance_eq like] at primitive
    rw [same.design.reads_eq like] at reads
    rw [same.design.drives_eq like] at drives
    exact .cell selected' primitive (like.bindings.mem_iff.mp bound) whole reads
      (like.bindings.mem_iff.mp output) drives hasBits
  | connection made whole =>
    rw [modules.name]
    exact .connection (modules.connections.mem_iff.mp made) whole
  | @submodule c b inner d selected instantiates bound whole enters declared =>
    obtain ⟨c', selected', like⟩ := same.design.exists_selectedCell modules selected
    obtain ⟨inner', instantiates', inside⟩ := same.design.exists_module instantiates
    rw [inside.name]
    rw [same.design.drives_eq like] at enters
    rw [Module.wire?, inside.wires] at declared
    rw [like.type] at instantiates'
    exact .submodule selected' instantiates' (like.bindings.mem_iff.mp bound) whole enters declared
  | @parent d outer c b declared isOutput standsIn selected instantiates bound atPort hasBits =>
    obtain ⟨outer', standsIn', outside⟩ := same.exists_parent modules standsIn
    obtain ⟨c', selected', like⟩ := same.design.exists_selectedCell outside selected
    rw [outside.name]
    rw [Module.wire?, modules.wires] at declared
    rw [like.type, modules.name] at instantiates
    exact .parent declared isOutput standsIn' selected' instantiates
      (like.bindings.mem_iff.mp bound) atPort hasBits

theorem Leads.permuted (same : s.Permuted t) (leads : s.Leads i hop j) : t.Leads i hop j := by
  obtain ⟨m, w, found, hw, leads⟩ := leads
  obtain ⟨m', found', modules⟩ := same.design.exists_module found
  exact ⟨m', w, found', hw, leads.permuted same modules⟩

/-- A path is a path of the same cost in the permuted setting. -/
theorem Path.permuted (same : s.Permuted t) {cost : Nat} (way : s.Path start cost i) :
    t.Path start cost i := by
  induction way with
  | nil => exact .nil
  | snoc _ leads ih => exact ih.snoc (leads.permuted same)

/-- A search stops at the same items. -/
theorem Stops.permuted (same : s.Permuted t) (stops : s.Stops i) : t.Stops i := by
  rcases stops with ⟨m, select, found, named, c, selects⟩ | ⟨m, found, unresolved⟩
  · obtain ⟨m', found', modules⟩ := same.design.exists_module found
    obtain ⟨c', selected', like⟩ := same.design.exists_selectedCell modules selects.selected
    have isMux := selects.isMux
    have reads := selects.reads
    have whole := selects.whole
    have genuine := selects.genuine
    rw [same.rule, like.isMux_eq] at isMux
    rw [same.design.reads_eq like] at reads
    rw [like.signal_eq] at whole
    rw [same.rule] at genuine
    exact Or.inl ⟨m', select, found', named, c', selected', isMux, reads, whole, genuine⟩
  · obtain ⟨m', found', modules⟩ := same.design.exists_module found
    rw [modules.processes] at unresolved
    exact Or.inr ⟨m', found', unresolved⟩

theorem Permuted.stopCosts_subset (same : s.Permuted t) (start : Item) :
    s.stopCosts start ⊆ t.stopCosts start := by
  rintro cost ⟨i, way, stops⟩
  exact ⟨i, way.permuted same, stops.permuted same⟩

/-- The costs at which a search can stop are the same in both settings. -/
theorem Permuted.stopCosts_eq (same : s.Permuted t) (start : Item) :
    s.stopCosts start = t.stopCosts start :=
  (same.stopCosts_subset start).antisymm (same.symm.stopCosts_subset start)

/-- **The order of an export does not decide what is found.** Let no module of a design have
processes, and let each be filed under a marked name, as every module is that was added to a design
or read from a document (`Design.Lowered`). Permute in each module the cells, the ports of each cell
and the connections. An index of the design as it was becomes an index of the design as it is, with
the same order and the same parents. And under any rule a search from any signal of any module says
on both designs that there is no multiplexer, or it finds one on both, and the cheapest way to the
item at which it ends costs the same. -/
theorem search_permuted {d d' : Design} (same : d.Permuted d') (lowered : d.Lowered)
    {index : HierarchyIndex} (built : d.index = .ok index) :
    ∃ index', d'.index = .ok index' ∧ index'.order = index.order ∧
      (∀ name, index'.parent? name = index.parent? name) ∧
      ∀ (rule : MuxRule), ∀ m ∈ d.modules.toList, ∀ g,
        let s : SearchSetting := ⟨d, index, rule⟩
        let t : SearchSetting := ⟨d', index', rule⟩
        (s.search ⟨m.name, g⟩).outcome = .ok .notFound ∧
            (t.search ⟨m.name, g⟩).outcome = .ok .notFound ∨
          ∃ n, s.FindsAt ⟨m.name, g⟩ n ∧ t.FindsAt ⟨m.name, g⟩ n := by
  obtain ⟨index', built', order⟩ := same.sameHierarchy.exists_index built
  have parents : ∀ name, index'.parent? name = index.parent? name := fun name =>
    (same.parent?_eq built built' name).symm
  refine ⟨index', built', order, parents, ?_⟩
  intro rule m hm g s t
  have settings : s.Permuted t := ⟨same, fun name => (parents name).symm, rfl⟩
  obtain ⟨m', found', modules⟩ := same.exists_module (d.module?_eq_some_iff.mpr ⟨hm, rfl⟩)
  have hm' := (d'.module?_eq_some_iff.mp found').1
  have lowered' : t.design.Lowered := same.lowered lowered
  have start : (⟨m'.name, g⟩ : Item) = ⟨m.name, g⟩ := by rw [modules.name]
  rcases notFound_or_findsAt (s := s) lowered hm g with ⟨none, nowhere⟩ | ⟨n, finds⟩
  · rcases notFound_or_findsAt lowered' hm' g with ⟨none', -⟩ | ⟨n, finds'⟩
    · rw [start] at none'
      exact Or.inl ⟨none, none'⟩
    · obtain ⟨⟨i, way, stops⟩, -⟩ := (findsAt_iff lowered' hm' g).mp finds'
      rw [start] at way
      exact absurd (stops.permuted settings.symm) (nowhere i ⟨n, way.permuted settings.symm⟩)
  · have least := (findsAt_iff (s := s) lowered hm g).mp finds
    rw [settings.stopCosts_eq, ← start] at least
    have finds' := (findsAt_iff lowered' hm' g).mpr least
    rw [start] at finds'
    exact Or.inr ⟨n, finds, finds'⟩

/-- An inverter between two wires of `\top`. -/
def between (name x y : String) : Cell where
  name := name
  type := "$not"
  bindings := ⟨[⟨"A", .ofWire (.bit x)⟩, ⟨"Y", .ofWire (.bit y)⟩], (by decide : ["A", "Y"].Nodup)⟩
  notes := ∅

/-- A multiplexer that a wire of `\top` selects. -/
def selectedBy (name x y : String) : Cell where
  name := name
  type := "$mux"
  bindings := ⟨[⟨"A", .ofWire (.bit "\\a")⟩, ⟨"S", .ofWire (.bit x)⟩, ⟨"Y", .ofWire (.bit y)⟩],
    (by decide : ["A", "S", "Y"].Nodup)⟩
  notes := ∅

/-- A module in which two ways lead from `\x` to a multiplexer, through one inverter each. -/
def forked : Module where
  name := "\\top"
  wires := ⟨["\\x", "\\a", "\\s0", "\\s1", "\\y0", "\\y1"].map
    fun name => ⟨.bit name, none, []⟩, by decide⟩
  cells := ⟨[between "\\n0" "\\x" "\\s0", between "\\n1" "\\x" "\\s1",
    selectedBy "\\m0" "\\s0" "\\y0", selectedBy "\\m1" "\\s1" "\\y1"], by decide⟩
  connections := []
  processes := []

/-- The module alone. -/
def forkedDesign : Design := ⟨⟨[forked], by decide⟩, none, .everything⟩

/-- The two searches give different answers, at the same cost. -/
theorem search_permuted_forked : forkedDesign.Permuted forkedDesign.reversed ∧
    forkedDesign.Lowered ∧ forked ∈ forkedDesign.modules.toList ∧
    ∃ index index', forkedDesign.index = .ok index ∧ forkedDesign.reversed.index = .ok index' ∧
      let s : SearchSetting := ⟨forkedDesign, index, .customary⟩
      let t : SearchSetting := ⟨forkedDesign.reversed, index', .customary⟩
      let start : Item := ⟨forked.name, .ofWire (.bit "\\x")⟩
      (s.search start).outcome = .ok ⟨"\\s0", "\\top"⟩ ∧
        (t.search start).outcome = .ok ⟨"\\s1", "\\top"⟩ ∧
        ∃ n, s.FindsAt start n ∧ t.FindsAt start n := by
  have permuted := forkedDesign.permuted_reversed
  have lowered : forkedDesign.Lowered := by
    constructor
    · intro m hm
      rw [List.mem_singleton.mp hm]
      exact ⟨"top", rfl⟩
    · intro m hm
      rw [List.mem_singleton.mp hm]
      rfl
  have hm : forked ∈ forkedDesign.modules.toList := List.mem_singleton_self _
  have search : forkedDesign.index.toOption.map (fun index =>
      (SearchSetting.search ⟨forkedDesign, index, .customary⟩
        ⟨forked.name, .ofWire (.bit "\\x")⟩).outcome) = some (.ok ⟨"\\s0", "\\top"⟩) := by
    decide +kernel
  have search' : forkedDesign.reversed.index.toOption.map (fun index =>
      (SearchSetting.search ⟨forkedDesign.reversed, index, .customary⟩
        ⟨forked.name, .ofWire (.bit "\\x")⟩).outcome) = some (.ok ⟨"\\s1", "\\top"⟩) := by
    decide +kernel
  cases built : forkedDesign.index with
  | error fault =>
    rw [built] at search
    cases search
  | ok index =>
    obtain ⟨index', built', -, -, searches⟩ := search_permuted permuted lowered built
    rw [built] at search
    rw [built'] at search'
    have answer := Option.some.inj search
    have answer' := Option.some.inj search'
    refine ⟨permuted, lowered, hm, index, index', rfl, built', answer, answer', ?_⟩
    rcases searches .customary forked hm (.ofWire (.bit "\\x")) with ⟨none, -⟩ | finds
    · have differ : (⟨"\\s0", "\\top"⟩ : SearchAnswer) ≠ .notFound := by decide
      exact absurd (Except.ok.inj (answer.symm.trans none)) differ
    · exact finds

end SearchSetting

end NearestMux
