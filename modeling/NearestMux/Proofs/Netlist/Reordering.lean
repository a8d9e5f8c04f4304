import Mathlib.Data.List.Perm.Basic
import NearestMux.Proofs.Netlist.Reading
import NearestMux.Proofs.Netlist.Rosters

/-!
# The order of declarations does not matter

A module may be written before or after those that it instantiates, and a wire before or after
another. Reordering the modules of a document, and in each the wires, changes neither whether it is
accepted nor what comes out: the same modules by name, each with the same wires by name, the same
cells, connections and processes (`Document.design_reordered`).

The order of cells, bindings, connections and processes does count and is left as it is. When no
design comes out, the fault that is told may well be another one: it is the first in the order of
the document.

What carries the proof is that reading is a relation (`Document.Reads`). A member answers to its
entry by what the entry says, by the wires of its module as they are found by name, and by which
names are names of modules; no order enters into any of the three.
-/

namespace NearestMux

variable {m m' : Module} {d d' : Design} {doc doc' asked v v' : Value}

/-! ## What is reordered -/

namespace Value

/-- Two mappings differ in what stands under one name alone, or do not differ at all. -/
inductive ChangedUnder (name : String)
    (changes : List (Value × Value) → List (Value × Value) → Prop) : Value → Value → Prop where
  | same (v : Value) : ChangedUnder name changes v v
  | map {before after entries entries' : List (Value × Value)}
      (changed : changes entries entries') :
      ChangedUnder name changes (.map (before ++ (.text name, .map entries) :: after))
        (.map (before ++ (.text name, .map entries') :: after))

namespace ChangedUnder

variable {name : String} {changes : List (Value × Value) → List (Value × Value) → Prop}

theorem symm (symmetric : ∀ entries entries', changes entries entries' → changes entries' entries)
    (change : ChangedUnder name changes v v') : ChangedUnder name changes v' v := by
  cases change with
  | same => exact .same v
  | map changed => exact .map (symmetric _ _ changed)

theorem isFields (change : ChangedUnder name changes v v') (fields : v.IsFields) : v'.IsFields := by
  cases change with
  | same => exact fields
  | map => exact fun _ => ⟨_, rfl⟩

/-- Under any other name stands what stood there. -/
theorem entry_eq (change : ChangedUnder name changes v v') (other : String)
    (differ : name ≠ other) : entry v'.entries other = entry v.entries other := by
  cases change with
  | same => rfl
  | map =>
    have otherKey : (Value.text name).sameKey (.text other) = false := by
      rw [sameKey, beq_eq_false_iff_ne]
      exact differ
    simp only [entries, entry, lookup?, List.find?_append, List.find?_cons, otherKey]

/-- Under the name stands what stood there, or what it was changed to. -/
theorem entry_changed (change : ChangedUnder name changes v v') :
    entry v'.entries name = entry v.entries name ∨
      ∃ before after, entry v.entries name = .map before ∧ entry v'.entries name = .map after ∧
        changes before after := by
  cases change with
  | same => exact .inl rfl
  | @map before after es es' changed =>
    have ownKey : (Value.text name).sameKey (.text name) = true := by
      rw [sameKey, beq_self_eq_true]
    simp only [entries, entry, lookup?, List.find?_append, List.find?_cons, ownKey]
    cases before.find? fun e => e.1.sameKey (.text name) with
    | none => exact .inr ⟨es, es', rfl, rfl, changed⟩
    | some e => exact .inl rfl

end ChangedUnder

end Value

namespace Document

/-- Two modules of a document that differ in the order of their wires. -/
abbrev WiresReordered : Value → Value → Prop := Value.ChangedUnder "wires" List.Perm

/-- Two rows of modules that differ in their order, and in each module in the order of the wires. -/
def ModulesReordered (modules modules' : List (Value × Value)) : Prop :=
  ∃ row, List.Forall₂ (fun e e' => e.1 = e'.1 ∧ WiresReordered e.2 e'.2) modules row ∧
    row.Perm modules'

/-- Two documents that differ in the order of their modules, and in each in the order of the wires.
-/
abbrev Reordered : Value → Value → Prop := Value.ChangedUnder "modules" ModulesReordered

theorem ModulesReordered.refl (modules : List (Value × Value)) : ModulesReordered modules modules :=
  ⟨modules, List.forall₂_same.mpr fun e _ => ⟨rfl, .same e.2⟩, .refl _⟩

theorem ModulesReordered.symm {modules modules' : List (Value × Value)}
    (same : ModulesReordered modules modules') : ModulesReordered modules' modules := by
  obtain ⟨row, each, perm⟩ := same
  have back : List.Forall₂ (fun e e' => e.1 = e'.1 ∧ WiresReordered e.2 e'.2) row modules :=
    (each.imp fun _ _ same => ⟨same.1.symm, same.2.symm fun _ _ => List.Perm.symm⟩).flip
  obtain ⟨row', each', perm'⟩ := List.perm_comp_forall₂ perm.symm back
  exact ⟨row', each', perm'⟩

end Document

/-! ## What stays the same -/

/-- Modules with the same wires by name and the same cells, connections and processes. -/
structure Module.SameByName (m m' : Module) : Prop where
  name : m.name = m'.name
  wires : ∀ name, m.wire? name = m'.wire? name
  cells : m.cells = m'.cells
  connections : m.connections = m'.connections
  processes : m.processes = m'.processes

/-- Designs with the same top and the same modules by name. -/
structure Design.SameByName (d d' : Design) : Prop where
  top : d.top = d'.top
  selection : d.selection = d'.selection
  modules : ∀ name, Option.Rel Module.SameByName (d.module? name) (d'.module? name)

theorem Module.SameByName.refl (m : Module) : m.SameByName m := ⟨rfl, fun _ => rfl, rfl, rfl, rfl⟩

namespace Document

/-! ## Modules -/

theorem wireEntries_reordered (same : WiresReordered v v')
    (given : (Value.entry v.entries "wires").IsFields) :
    (Value.entry v'.entries "wires").IsFields ∧ (wireEntries v').Perm (wireEntries v) := by
  unfold wireEntries
  rcases same.entry_changed with stays | ⟨before, after, was, is, perm⟩
  · rw [stays]
    exact ⟨given, .refl _⟩
  · rw [was, is]
    exact ⟨fun _ => ⟨after, rfl⟩, perm.symm⟩

/-- A module that is read from an entry is read, up to the order of its wires, from the entry with
its wires reordered. -/
theorem moduleRead_reordered {e e' : Value × Value} {isModule : String → Bool} (key : e.1 = e'.1)
    (same : WiresReordered e.2 e'.2) (asRead : ModuleRead (CellRead isModule) e m) :
    ∃ m', ModuleRead (CellRead isModule) e' m' ∧ m.SameByName m' := by
  obtain ⟨wiresGiven, reordered⟩ := wireEntries_reordered same asRead.wiresGiven
  obtain ⟨wires, eachWire, perm⟩ := List.perm_comp_forall₂ reordered asRead.wires
  have cells := same.entry_eq "cells" (by decide)
  have connections := same.entry_eq "connections" (by decide)
  have processes := same.entry_eq "processes" (by decide)
  -- the module with its wires in the order in which they now stand
  let m' : Module := { m with wires := ⟨wires, Roster.nodup_of_perm perm⟩ }
  have found : ∀ name, m.wire? name = m'.wire? name := Roster.find?_eq_of_perm perm.symm
  have signals : signal m = signal m' := signal_congr rfl found
  have outline : OutlineRead e' m' :=
    ⟨key ▸ asRead.writable, same.isFields asRead.described, key ▸ asRead.name, wiresGiven, eachWire⟩
  refine ⟨m', ⟨outline, ?_, ?_, ?_, ?_, ?_, ?_, ?_⟩, rfl, found, rfl, rfl, rfl⟩
  · exact cells ▸ asRead.cellsGiven
  · rw [cellEntries, cells, ← signals]
    exact asRead.cells
  · exact connections ▸ asRead.connectionsGiven
  · rw [connectionParts, connections, ← signals]
    exact asRead.connections
  · exact processes ▸ asRead.processesGiven
  · rw [processParts, processes]
    exact asRead.processesWritable
  · rw [processParts, processes]
    exact asRead.processes

theorem modulesRead_reordered {isModule : String → Bool} {modules row : List (Value × Value)}
    {ms : List Module}
    (same : List.Forall₂ (fun e e' => e.1 = e'.1 ∧ WiresReordered e.2 e'.2) modules row)
    (each : List.Forall₂ (ModuleRead (CellRead isModule)) modules ms) :
    ∃ ms', List.Forall₂ (ModuleRead (CellRead isModule)) row ms' ∧
      List.Forall₂ Module.SameByName ms ms' := by
  induction same generalizing ms with
  | nil =>
    cases each
    exact ⟨[], .nil, .nil⟩
  | cons first _ ih =>
    cases each with
    | cons asRead each =>
      obtain ⟨m', asRead', agree⟩ := moduleRead_reordered first.1 first.2 asRead
      obtain ⟨ms', each', agreeAll⟩ := ih each
      exact ⟨m' :: ms', .cons asRead' each', .cons agree agreeAll⟩

/-! ## Documents -/

/-- The names of the modules do not depend on where they stand. -/
theorem contains_filedNames {modules modules' : List (Value × Value)}
    (same : ModulesReordered modules modules') :
    (filedNames modules').contains = (filedNames modules).contains := by
  obtain ⟨row, each, perm⟩ := same
  have names : filedNames row = filedNames modules := by
    clear perm
    induction each with
    | nil => rfl
    | cons first _ ih =>
      rw [filedNames, filedNames, List.map_cons, List.map_cons, first.1]
      exact congrArg _ ih
  funext name
  rw [Bool.eq_iff_iff, List.contains_iff_mem, List.contains_iff_mem, ← names]
  exact (perm.map _).mem_iff.symm

theorem moduleEntries_reordered (same : Reordered doc doc')
    (mapping : ∃ entries modules, doc = .map entries ∧
      Value.entry entries "modules" = .map modules) :
    (∃ entries modules, doc' = .map entries ∧ Value.entry entries "modules" = .map modules) ∧
      ModulesReordered (moduleEntries doc) (moduleEntries doc') := by
  obtain ⟨entries, modules, rfl, isModules⟩ := mapping
  have changed := same.entry_changed
  cases same with
  | same => exact ⟨⟨entries, modules, rfl, isModules⟩, .refl _⟩
  | map =>
    unfold moduleEntries
    rcases changed with stays | ⟨before, after, was, is, reordered⟩
    · rw [stays]
      exact ⟨⟨_, modules, rfl, stays.trans isModules⟩, .refl _⟩
    · rw [was, is]
      exact ⟨⟨_, after, rfl, is⟩, reordered⟩

theorem topName_reordered (same : Reordered doc doc') :
    topName asked doc'.entries = topName asked doc.entries := by
  have top := same.entry_eq "top" (by decide)
  rw [topName, topName, top]

/-- The top of a design is there or missing by name. -/
theorem missingTop?_eq (same : d.SameByName d') : missingTop? d' = missingTop? d := by
  rw [missingTop?, missingTop?, same.top]
  refine congrArg (d'.top.filter ·) (funext fun name => ?_)
  generalize d.module? name = found, d'.module? name = found', same.modules name = agree
  cases agree <;> rfl

/-- What a document reads as, it reads as when it is reordered, up to the order of modules and of
wires. -/
theorem reads_reordered (same : Reordered doc doc') (reads : Reads doc asked d) :
    ∃ d', Reads doc' asked d' ∧ d.SameByName d' := by
  obtain ⟨mapping, reordered⟩ := moduleEntries_reordered same reads.mapping
  have isModule : declaresModule doc' = declaresModule doc := contains_filedNames reordered
  obtain ⟨row, each, perm⟩ := reordered
  obtain ⟨ms, eachRead, agree⟩ := modulesRead_reordered each reads.modules
  obtain ⟨ms', eachRead', perm'⟩ := List.perm_comp_forall₂ perm.symm eachRead
  have names : ms.map Named.name = d.modules.names :=
    Roster.map_name_of_forall₂ agree fun _ _ same => same.name.symm
  let modules : Roster Module := ⟨ms, names ▸ d.modules.nodup⟩
  let d' : Design := { d with modules := ⟨ms', modules.nodup_of_perm perm'⟩ }
  have sameByName : d.SameByName d' := by
    refine ⟨rfl, rfl, fun name => ?_⟩
    have found : Option.Rel Module.SameByName (d.modules.find? name) (modules.find? name) :=
      Roster.rel_find? agree (fun _ _ same => same.name) name
    have reordered : modules.find? name = d'.modules.find? name :=
      Roster.find?_eq_of_perm perm'.symm name
    rwa [reordered] at found
  refine ⟨d', ⟨mapping, ?_, reads.selection, ?_, ?_⟩, sameByName⟩
  · rw [topName_reordered same]
    exact reads.top
  · rw [isModule]
    exact eachRead'
  · rw [missingTop?_eq sameByName]
    exact reads.hasTop

theorem design_reordered_of_ok (same : Reordered doc doc') (accepted : design doc asked = .ok d) :
    ∃ d', design doc' asked = .ok d' ∧ d.SameByName d' := by
  obtain ⟨d', reads, agree⟩ := reads_reordered same (reads_of_design accepted)
  exact ⟨d', design_of_reads reads, agree⟩

/-- What a cell is an instance of does not depend on where its module stands. -/
theorem isInstance_eq (accepted : design doc asked = .ok d) (c : Cell) :
    d.isInstance c = declaresModule doc c.type := by
  have reads := reads_of_design accepted
  have names : d.modules.names = filedNames (moduleEntries doc) :=
    Roster.map_name_of_forall₂ reads.modules fun _ _ module => module.name
  have known := congrFun (module?_isSome_eq d) c.type
  rw [names] at known
  exact known

/-- Reordering the modules of a document, and the wires in each, changes neither whether it is
accepted nor what comes out, up to that order; and whether a cell is an instance depends on all
modules of the document alike, on those that come later as well. -/
theorem design_reordered (same : Reordered doc doc') :
    ((∃ d, design doc asked = .ok d) ↔ ∃ d', design doc' asked = .ok d') ∧
    (∀ d d', design doc asked = .ok d → design doc' asked = .ok d' → d.SameByName d') ∧
    ∀ d, design doc asked = .ok d → ∀ c, d.isInstance c = declaresModule doc c.type := by
  refine ⟨⟨?_, ?_⟩, ?_, fun d accepted => isInstance_eq accepted⟩
  · rintro ⟨d, accepted⟩
    obtain ⟨d', accepted', -⟩ := design_reordered_of_ok same accepted
    exact ⟨d', accepted'⟩
  · rintro ⟨d', accepted'⟩
    have back : Reordered doc' doc := same.symm fun _ _ => ModulesReordered.symm
    obtain ⟨d, accepted, -⟩ := design_reordered_of_ok back accepted'
    exact ⟨d, accepted⟩
  · intro d d' accepted accepted'
    obtain ⟨d'', accepted'', agree⟩ := design_reordered_of_ok same accepted
    rw [accepted'] at accepted''
    cases accepted''
    exact agree

/-- A module with an instance of `leaf`. -/
def topEntry (wires : List (Value × Value)) : Value × Value :=
  (.text "top", .map [(.text "wires", .map wires), (.text "cells", .map [(.text "u", .map [
    (.text "type", .text "leaf"), (.text "connections", .map [(.text "a", .text "x")])])])])

/-- A module with one wire, an input. -/
def leafEntry : Value × Value :=
  (.text "leaf", .map [
    (.text "wires", .map [(.text "a", .map [(.text "direction", .text "input")])])])

/-- A document in which `leaf` comes after its instance. -/
def topFirst : Value :=
  .map [(.text "modules", .map [topEntry [(.text "x", .null), (.text "y", .null)], leafEntry])]

/-- The same document with `leaf` in front, and the wires of the other module the other way round.
-/
def leafFirst : Value :=
  .map [(.text "modules", .map [leafEntry, topEntry [(.text "y", .null), (.text "x", .null)]])]

theorem reordered_leafFirst : Reordered topFirst leafFirst := by
  have wires : WiresReordered (topEntry [(.text "x", .null), (.text "y", .null)]).2
      (topEntry [(.text "y", .null), (.text "x", .null)]).2 :=
    show WiresReordered (.map ([] ++ _ :: _)) (.map ([] ++ _ :: _)) from .map (.swap _ _ [])
  have modules : ModulesReordered [topEntry [(.text "x", .null), (.text "y", .null)], leafEntry]
      [leafEntry, topEntry [(.text "y", .null), (.text "x", .null)]] :=
    ⟨[topEntry [(.text "y", .null), (.text "x", .null)], leafEntry],
      .cons ⟨rfl, wires⟩ (.cons ⟨rfl, .same _⟩ .nil), .swap _ _ []⟩
  exact show Reordered (.map ([] ++ _ :: [])) (.map ([] ++ _ :: [])) from .map modules

theorem design_reordered_leafFirst : Reordered topFirst leafFirst ∧
    ∃ d d', design topFirst .null = .ok d ∧ design leafFirst .null = .ok d' ∧
      d.modules.names = ["\\top", "\\leaf"] ∧ d'.modules.names = ["\\leaf", "\\top"] ∧
        d.SameByName d' := by
  have accepted : design topFirst .null = .ok _ := rfl
  have accepted' : design leafFirst .null = .ok _ := rfl
  exact ⟨reordered_leafFirst, _, _, accepted, accepted', rfl, rfl,
    (design_reordered reordered_leafFirst).2.1 _ _ accepted accepted'⟩

end Document

end NearestMux
