import NearestMux.Proofs.Search.Containment
import NearestMux.Proofs.Search.MarkedPorts
import NearestMux.Query

/-!
# The selected part — what is not selected is not seen

Take away from a design every cell that is not selected, and every module that is neither selected
nor the type of a selected cell of a selected module (`Design.selectedPart`). This module says that
nobody can tell: the index is the same, a query finds its wire in the same place, and a search comes
to the same end and counts the same (`search_selectedPart`).

Most questions are asked of selected cells to begin with. What has to be shown is that the others do
not reach further. A module is looked up by its name in three ways: as the type of a selected cell,
as a module of the order, and as the parent of a module. All three come from the hierarchy, and the
modules of the hierarchy are kept (`Design.isKept_of_inHierarchy`).

A search stays in the hierarchy (`Leads.inHierarchy`), so the two searches go in lockstep on items
that are literally the same. Outside the hierarchy they need not agree: in a module that was taken
away the second one has nothing to look at.
-/

namespace NearestMux

/-! ## The selected part of a design -/

namespace Design

variable {d : Design} {m : Module} {c : Cell} {name : String}

/-- Whether a module is selected or the type of a selected cell of a selected module. -/
def isKept (d : Design) (m : Module) : Bool :=
  d.selection.hasModule m.name ||
    d.selectedModules.any fun outer => (d.selectedCells outer).any fun c => c.type == m.name

/-- The module with its selected cells alone. -/
def trim (d : Design) (m : Module) : Module :=
  { m with cells := m.cells.keep fun c => d.selection.hasMember m.name c.name }

@[simp] theorem name_trim (d : Design) (m : Module) : (d.trim m).name = m.name := rfl

@[simp] theorem wire?_trim (d : Design) (m : Module) : (d.trim m).wire? = m.wire? := rfl

/-- The design without what is not selected: of its modules those that are selected or instantiated
in the selection, and of their cells the selected ones. -/
def selectedPart (d : Design) : Design :=
  { d with modules := (d.modules.keep d.isKept).mapMembers d.trim d.name_trim }

/-- The selected part finds the modules that it keeps, trimmed. -/
theorem module?_selectedPart :
    d.selectedPart.module? name = ((d.module? name).filter d.isKept).map d.trim := by
  rw [module?, selectedPart, Roster.find?_mapMembers, Roster.find?_keep]
  rfl

/-! ## What is kept -/

/-- A selected module is kept. -/
theorem isKept_of_selected (isSelected : m ∈ d.selectedModules) : d.isKept m = true := by
  rw [isKept, (List.mem_filter.mp isSelected).2, Bool.true_or]

/-- The type of a selected cell is kept. -/
theorem isKept_of_instantiated {i : Module} (hm : m ∈ d.modules.toList)
    (selected : c ∈ d.selectedCells m) (type : c.type = i.name) : d.isKept i = true := by
  have instantiated : (d.selectedModules.any fun outer =>
      (d.selectedCells outer).any fun c => c.type == i.name) = true := by
    refine List.any_eq_true.mpr ⟨m, mem_selectedModules_of_selectedCell hm selected, ?_⟩
    exact List.any_eq_true.mpr ⟨c, selected, beq_iff_eq.mpr type⟩
  rw [isKept, instantiated, Bool.or_true]

/-- The modules of the hierarchy are there, and they are kept. -/
theorem isKept_of_inHierarchy (belongs : d.InHierarchy name) :
    ∃ m, d.module? name = some m ∧ d.isKept m = true := by
  cases belongs with
  | @selected m isSelected =>
    obtain ⟨hm, -⟩ := List.mem_filter.mp isSelected
    exact ⟨m, d.module?_eq_some_iff.mpr ⟨hm, rfl⟩, isKept_of_selected isSelected⟩
  | inside stands _ =>
    obtain ⟨m, found, ⟨c, selected, type⟩, isModule⟩ := stands
    obtain ⟨i, inner⟩ := Option.isSome_iff_exists.mp isModule
    obtain ⟨hm, -⟩ := d.module?_eq_some_iff.mp found
    obtain ⟨-, named⟩ := d.module?_eq_some_iff.mp inner
    exact ⟨i, inner, isKept_of_instantiated hm selected (type.trans named.symm)⟩

/-- What is looked up by a name of the hierarchy is found trimmed. -/
theorem module?_selectedPart_of_inHierarchy (belongs : d.InHierarchy name) :
    d.selectedPart.module? name = (d.module? name).map d.trim := by
  obtain ⟨m, found, kept⟩ := isKept_of_inHierarchy belongs
  rw [module?_selectedPart, found, Option.filter_some, kept]
  rfl

/-! ## What is asked of selected cells -/

/-- Trimming takes away only cells that are not selected. -/
theorem selectedCells_trim (d : Design) (m : Module) :
    d.selectedPart.selectedCells (d.trim m) = d.selectedCells m := by
  change (m.cells.toList.filter _).filter _ = _
  rw [List.filter_filter]
  simp only [name_trim, selectedPart, Bool.and_self]
  rfl

/-- A selected cell instantiates what it did, trimmed. -/
theorem instantiated?_selectedPart (hm : m ∈ d.modules.toList) (selected : c ∈ d.selectedCells m) :
    d.selectedPart.instantiated? c = (d.instantiated? c).map d.trim := by
  rw [instantiated?, instantiated?, module?_selectedPart]
  cases found : d.module? c.type with
  | none => rfl
  | some i =>
    obtain ⟨-, named⟩ := d.module?_eq_some_iff.mp found
    rw [Option.filter_some, isKept_of_instantiated hm selected named.symm]
    rfl

/-- A selected cell is an instance in the selected part exactly when it is one in the design. -/
theorem isInstance_selectedPart (hm : m ∈ d.modules.toList) (selected : c ∈ d.selectedCells m) :
    d.selectedPart.isInstance c = d.isInstance c := by
  rw [isInstance, isInstance, instantiated?_selectedPart hm selected, Option.isSome_map]

theorem direction?_selectedPart (hm : m ∈ d.modules.toList) (selected : c ∈ d.selectedCells m)
    (port : String) : d.selectedPart.direction? c port = d.direction? c port := by
  rw [direction?, direction?, instantiated?_selectedPart hm selected]
  cases d.instantiated? c <;> rfl

theorem reads_selectedPart (hm : m ∈ d.modules.toList) (selected : c ∈ d.selectedCells m)
    (port : String) : d.selectedPart.reads c port = d.reads c port := by
  rw [reads, reads, direction?_selectedPart hm selected]

theorem drives_selectedPart (hm : m ∈ d.modules.toList) (selected : c ∈ d.selectedCells m)
    (port : String) : d.selectedPart.drives c port = d.drives c port := by
  rw [drives, drives, direction?_selectedPart hm selected]

/-! ## The index -/

/-- A module instantiates the same modules in the selected part. -/
theorem instantiatedIn_selectedPart (hm : m ∈ d.modules.toList) :
    d.selectedPart.instantiatedIn (d.trim m) = (d.instantiatedIn m).map d.trim := by
  rw [instantiatedIn, instantiatedIn, selectedCells_trim, List.map_filterMap]
  exact List.filterMap_congr fun c selected => instantiated?_selectedPart hm selected

/-- The modules selected of the selected part are those of the design, trimmed. -/
theorem selectedModules_selectedPart (d : Design) :
    d.selectedPart.selectedModules = d.selectedModules.map d.trim := by
  change ((d.modules.toList.filter d.isKept).map d.trim).filter _ = _
  rw [List.filter_map, List.filter_filter]
  refine congrArg _ (List.filter_congr fun m hm => ?_)
  change (d.selection.hasModule m.name && d.isKept m) = d.selection.hasModule m.name
  cases isSelected : d.selection.hasModule m.name with
  | false => rfl
  | true => exact isKept_of_selected (List.mem_filter.mpr ⟨hm, isSelected⟩)

/-- A module of a design beside the trimmed one. -/
abbrev Trimmed (d : Design) (m m' : Module) : Prop := m ∈ d.modules.toList ∧ m' = d.trim m

theorem forall₂_trimmed {row : List Module} (known : ∀ m ∈ row, m ∈ d.modules.toList) :
    List.Forall₂ d.Trimmed row (row.map d.trim) :=
  List.forall₂_map_right_iff.mpr (List.forall₂_same.mpr fun m hm => ⟨known m hm, rfl⟩)

/-- Design and selected part have one skeleton. -/
theorem sameSkeleton_selectedPart (d : Design) : d.SameSkeleton d.Trimmed d.selectedPart where
  name := by
    rintro m _ ⟨-, rfl⟩
    rfl
  inside := by
    rintro m _ ⟨hm, rfl⟩
    rw [instantiatedIn_selectedPart hm]
    exact forall₂_trimmed fun i hi => (mem_instantiatedIn.mp hi).1
  selected := by
    rw [selectedModules_selectedPart]
    exact forall₂_trimmed fun m hm => (List.mem_filter.mp hm).1

end Design

/-! ## Queries -/

namespace Query

variable {d : Design} {index : HierarchyIndex}

/-- The candidates are the same modules, trimmed. -/
theorem candidates_selectedPart (q : Query) (built : d.index = .ok index) :
    q.candidates d.selectedPart index = (q.candidates d index).map d.trim := by
  have inOrder : index.order.filterMap d.selectedPart.module? =
      (index.order.filterMap d.module?).map d.trim := by
    rw [List.map_filterMap]
    refine List.filterMap_congr fun name placed => ?_
    exact Design.module?_selectedPart_of_inHierarchy ((Design.mem_order_iff built).mp placed)
  rw [candidates, candidates, inOrder, List.filter_map]
  rfl

/-- A query finds the same places in the selected part. -/
theorem places_selectedPart (q : Query) (built : d.index = .ok index) :
    q.places d.selectedPart index =
      (q.places d index).map fun place => (d.trim place.1, place.2) := by
  rw [places, places, candidates_selectedPart q built, List.filterMap_map, List.map_filterMap]
  refine List.filterMap_congr fun m _ => ?_
  simp only [Function.comp_apply, Design.wire?_trim, Option.map_map, Function.comp_def]

/-- A query finds its wire in the same place, or fails to for the same reason. -/
theorem locate_selectedPart (q : Query) (built : d.index = .ok index) :
    q.locate d.selectedPart index =
      (q.locate d index).map fun place => (d.trim place.1, place.2) := by
  unfold locate
  rw [places_selectedPart q built, candidates_selectedPart q built, List.isEmpty_map]
  match q.places d index with
  | [] =>
    simp only [List.map_nil]
    split <;> rfl
  | [_] => rfl
  | _ :: _ :: _ => rfl

end Query

/-! ## The searches -/

namespace SearchSetting

variable {s : SearchSetting} {m parent : Module} {w : Wire}

/-- The setting over the selected part of its design. -/
def selectedPart (s : SearchSetting) : SearchSetting := { s with design := s.design.selectedPart }

@[simp] theorem design_selectedPart (s : SearchSetting) :
    s.selectedPart.design = s.design.selectedPart := rfl

@[simp] theorem rule_selectedPart (s : SearchSetting) : s.selectedPart.rule = s.rule := rfl

/-- The selected part binds a wire where the design does. -/
theorem bound_selectedPart {p p' : Cell → Bool}
    (keeps : ∀ c ∈ s.design.selectedCells m, p' c = p c) :
    s.selectedPart.bound (s.design.trim m) w p' = s.bound m w p := by
  rw [bound, bound, design_selectedPart, Design.selectedCells_trim, List.filter_congr keeps]

/-- The cells that read a wire are the same in the selected part. -/
theorem readers_selectedPart (hm : m ∈ s.design.modules.toList) {p p' : Cell → Bool}
    (keeps : ∀ c ∈ s.design.selectedCells m, p' c = p c) :
    s.selectedPart.readers (s.design.trim m) w p' = s.readers m w p := by
  rw [readers, readers, bound_selectedPart keeps]
  refine List.filter_congr fun q hq => ?_
  obtain ⟨⟨selected, -⟩, -⟩ := mem_bound.mp hq
  exact Design.reads_selectedPart hm selected q.2.port

theorem passMuxes_selectedPart (bindings : List (Cell × Binding)) :
    s.selectedPart.passMuxes (s.design.trim m) w bindings = s.passMuxes m w bindings := by
  induction bindings with
  | nil => rfl
  | cons p rest ih =>
    obtain ⟨c, b⟩ := p
    rw [passMuxes, passMuxes, ih]
    rfl

theorem throughCells_selectedPart (hm : m ∈ s.design.modules.toList) :
    s.selectedPart.throughCells (s.design.trim m) w = s.throughCells m w := by
  have keeps : ∀ c ∈ s.design.selectedCells m,
      (!s.selectedPart.design.isInstance c) = !s.design.isInstance c := fun c selected =>
    congrArg not (Design.isInstance_selectedPart hm selected)
  rw [throughCells, throughCells, readers_selectedPart hm keeps]
  refine List.flatMap_congr fun q hq => ?_
  obtain ⟨⟨⟨selected, -⟩, -⟩, -⟩ := mem_readers.mp hq
  simp only [outputPushes, Design.outputs, design_selectedPart, Design.name_trim,
    Design.drives_selectedPart hm selected]

theorem intoInstances_selectedPart (hm : m ∈ s.design.modules.toList) :
    s.selectedPart.intoInstances (s.design.trim m) w = s.intoInstances m w := by
  have keeps : ∀ c ∈ s.design.selectedCells m,
      s.selectedPart.design.isInstance c = s.design.isInstance c := fun c selected =>
    Design.isInstance_selectedPart hm selected
  have enters : ∀ q ∈ s.bound m w s.design.isInstance,
      (!s.design.selectedPart.drives q.1 q.2.port) = !s.design.drives q.1 q.2.port := by
    intro q hq
    obtain ⟨⟨selected, -⟩, -⟩ := mem_bound.mp hq
    exact congrArg not (Design.drives_selectedPart hm selected q.2.port)
  unfold intoInstances
  rw [bound_selectedPart keeps, design_selectedPart, List.filter_congr enters]
  refine List.filterMap_congr fun q hq => ?_
  obtain ⟨⟨selected, -⟩, -⟩ := mem_bound.mp (List.mem_filter.mp hq).1
  dsimp only
  rw [Design.instantiated?_selectedPart hm selected, Option.map_map]
  rfl

theorem outToParent_selectedPart (built : s.design.index = .ok s.index) :
    s.selectedPart.outToParent (s.design.trim m) w = s.outToParent m w := by
  have parents : s.selectedPart.parent? (s.design.trim m) =
      (s.parent? m).map s.design.trim := by
    rw [parent?, parent?, Option.map_bind]
    refine Option.bind_congr fun name isParent => ?_
    exact Design.module?_selectedPart_of_inHierarchy
      (Design.inHierarchy_of_parent? built isParent)
  unfold outToParent
  rw [parents, Design.wire?_trim]
  cases s.parent? m with
  | none => rfl
  | some parent =>
    simp only [Option.map_some, atInstances, design_selectedPart, Design.selectedCells_trim,
      Design.name_trim]

/-- A wire expands to the same events in the selected part. -/
theorem expandWire_selectedPart (built : s.design.index = .ok s.index)
    (hm : m ∈ s.design.modules.toList) (w : Wire) :
    s.selectedPart.expandWire (s.design.trim m) w = s.expandWire m w := by
  unfold expandWire
  rw [rule_selectedPart, readers_selectedPart hm fun _ _ => rfl, passMuxes_selectedPart,
    throughCells_selectedPart hm, intoInstances_selectedPart hm, outToParent_selectedPart built]
  rfl

theorem expandChunks_selectedPart (built : s.design.index = .ok s.index)
    (hm : m ∈ s.design.modules.toList) (chunks : List Chunk) :
    s.selectedPart.expandChunks (s.design.trim m) chunks = s.expandChunks m chunks := by
  induction chunks with
  | nil => rfl
  | cons c _ ih =>
    cases c with
    | const _ => rw [expandChunks, expandChunks, ih]
    | slice wire _ _ _ =>
      rw [expandChunks, expandChunks, ih, expandWire_selectedPart built hm]

/-- An item of the hierarchy is expanded as before. -/
theorem expand_selectedPart (built : s.design.index = .ok s.index) {i : Item}
    (belongs : s.design.InHierarchy i.module) : s.selectedPart.expand i = s.expand i := by
  obtain ⟨m, found, -⟩ := Design.isKept_of_inHierarchy belongs
  obtain ⟨hm, -⟩ := s.design.module?_eq_some_iff.mp found
  rw [expand, expand, design_selectedPart, Design.module?_selectedPart_of_inHierarchy belongs,
    found, Option.map_some]
  dsimp only
  rw [expandChunks_selectedPart built hm]
  rfl

/-- The same item on both sides, in a module of the hierarchy. -/
abbrev SameInHierarchy (s : SearchSetting) (i i' : Item) : Prop :=
  i = i' ∧ s.design.InHierarchy i.module

/-- The search and the search in the selected part go in lockstep. -/
theorem lockstep_selectedPart (built : s.design.index = .ok s.index) :
    s.Lockstep s.selectedPart s.SameInHierarchy Eq where
  keys := by
    rintro i _ j _ ⟨rfl, -⟩ ⟨rfl, -⟩
    exact Iff.rfl
  expand := by
    rintro i _ ⟨rfl, belongs⟩
    rw [expand_selectedPart built belongs]
    refine ⟨List.forall₂_same.mpr fun push pushed => ?_, ?_⟩
    · exact ⟨rfl, rfl, (leads_of_mem_pushes pushed).inHierarchy built belongs⟩
    · cases (s.expand i).verdict with
      | none => exact .none
      | some _ => exact .some rfl
  notFound := rfl

/-- **What is not selected is not seen.** Let a design lose every cell that is not selected and
every module that is neither selected nor the type of a selected cell of a selected module. Then it
has the same index, or none for the same reason: the same order, the same parents, the same shared
modules. With that index every query finds its wire in the same module, or fails to for the same
reason, whatever its filter. And a search from any signal of any module of the order has the same
outcome, be it an answer or a fault, and counts the same. -/
theorem search_selectedPart (d : Design) :
    d.selectedPart.index = d.index ∧
      ∀ index, d.index = .ok index →
        (∀ q : Query, q.locate d.selectedPart index =
          (q.locate d index).map fun place => (d.trim place.1, place.2)) ∧
        ∀ rule, ∀ name ∈ index.order, ∀ g,
          let s : SearchSetting := ⟨d, index, rule⟩
          let part : SearchSetting := ⟨d.selectedPart, index, rule⟩
          (part.search ⟨name, g⟩).outcome = (s.search ⟨name, g⟩).outcome ∧
            (part.search ⟨name, g⟩).stats = (s.search ⟨name, g⟩).stats := by
  refine ⟨d.sameSkeleton_selectedPart.index_eq.symm, fun index built => ⟨fun q => ?_, ?_⟩⟩
  · exact q.locate_selectedPart built
  · intro rule name placed g s part
    have lockstep : s.Lockstep part s.SameInHierarchy Eq := lockstep_selectedPart built
    have paired : s.SameInHierarchy ⟨name, g⟩ ⟨name, g⟩ :=
      ⟨rfl, (Design.mem_order_iff built).mp placed⟩
    obtain ⟨stats, outcome⟩ := lockstep.search paired
    exact ⟨outcome.symm, stats.symm⟩

/-- The design with the instance of the inverter, of which the multiplexer alone is selected. -/
def muxAlone : Design := { unmarked with selection := ⟨false, [], [("\\top", ["\\mux0"])]⟩ }

/-- The instance is taken away, and the inverter with it. -/
example : muxAlone.selectedPart.modules.toList.map (fun m => (m.name, m.cells.names)) =
    [("\\top", ["\\mux0"])] := by
  decide

theorem search_selectedPart_muxAlone : ∃ index, muxAlone.index = .ok index ∧
    muxAlone.selectedPart.index = .ok index ∧ "\\top" ∈ index.order ∧
    (Query.mk "sel" "").locate muxAlone.selectedPart index =
      ((Query.mk "sel" "").locate muxAlone index).map
        (fun place => (muxAlone.trim place.1, place.2)) ∧
    (SearchSetting.search ⟨muxAlone, index, .customary⟩
      ⟨"\\top", .ofWire (.bit "\\sel")⟩).outcome = .ok ⟨"\\sel", "\\top"⟩ ∧
    (SearchSetting.search ⟨muxAlone.selectedPart, index, .customary⟩
      ⟨"\\top", .ofWire (.bit "\\sel")⟩).outcome = .ok ⟨"\\sel", "\\top"⟩ := by
  have search : muxAlone.index.toOption.map (fun index =>
      (index.order, (SearchSetting.search ⟨muxAlone, index, .customary⟩
        ⟨"\\top", .ofWire (.bit "\\sel")⟩).outcome)) =
      some (["\\top"], .ok ⟨"\\sel", "\\top"⟩) := by
    decide +kernel
  obtain ⟨same, sees⟩ := search_selectedPart muxAlone
  cases built : muxAlone.index with
  | error fault =>
    rw [built] at search
    cases search
  | ok index =>
    rw [built] at search
    obtain ⟨order, answer⟩ := Prod.mk.inj (Option.some.inj search)
    have placed : "\\top" ∈ index.order := by
      rw [order]
      exact List.mem_singleton_self _
    obtain ⟨locates, searches⟩ := sees index built
    obtain ⟨outcome, -⟩ :=
      searches .customary "\\top" placed (.ofWire (.bit "\\sel"))
    exact ⟨index, rfl, same.trans built, placed, locates _, answer, outcome.trans answer⟩

end SearchSetting

end NearestMux
