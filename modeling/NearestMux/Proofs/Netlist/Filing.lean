import Mathlib.Data.List.Forall2
import NearestMux.Proofs.Netlist.Steps

/-!
# Filing — the wires that a document declares, under marked names

A document is read in two passes, and only the first enters wires: what a module is called and which
wires it has is its `outline`, and cells, connections and processes leave it as it is
(`outlines_completeAll`). So the outlines of an accepted design are those of the first pass, one for
each module of the document, in its order, with one wire for each declaration
(`outlines_of_design`).

The first pass files every name in its marked form. Reading relies on it: a name without a mark is
looked up under the marked one, so a wire that stood under an unmarked name could not be named.
Declaring a wire is all that ever changes the wires of a module, and it files the name
(`Module.names_addWire`).
-/

namespace NearestMux

/-- A marked name has at least its mark. -/
theorem Identifier.ne_nil_of_isMarked {name : String} (marked : IsMarked name) :
    name.toList ≠ [] := by
  intro none
  rw [IsMarked, none] at marked
  rcases marked with h | h <;> cases h

/-! ## Rosters -/

namespace Roster

variable {α β : Type} [Named α] {r r' : Roster α} {a b : α}

/-- A member of a new name is added at the end. -/
theorem toList_add? (added : r.add? a = some r') :
    Named.name a ∉ r.names ∧ r'.toList = r.toList ++ [a] := by
  unfold add? at added
  split at added
  · cases added
  · next free =>
    cases added
    exact ⟨free, rfl⟩

/-- A member of a known name takes the place of its namesake. -/
theorem toList_put_of_mem (taken : Named.name a ∈ r.names) :
    (r.put a).toList = r.toList.map (stepIn a) := by
  rw [put, dif_pos taken]

/-- A member that is just added may step in for itself in a new form. -/
theorem toList_put_of_add? (added : r.add? b = some r') (same : Named.name a = Named.name b) :
    (r'.put a).toList = r.toList ++ [a] := by
  obtain ⟨free, list⟩ := toList_add? added
  have taken : Named.name a ∈ r'.names := by
    rw [names, list, same]
    exact List.mem_map_of_mem (List.mem_append_right _ (List.mem_singleton_self b))
  have others : r.toList.map (stepIn a) = r.toList := by
    refine (List.map_congr_left fun c hc => if_neg fun namesake => ?_).trans (List.map_id _)
    rw [same] at namesake
    exact free (namesake ▸ List.mem_map_of_mem hc)
  rw [toList_put_of_mem taken, list, List.map_append, others, List.map_singleton, stepIn,
    if_pos same.symm]

/-- What a member and its namesake agree on stays as it is when the one steps in for the other. -/
theorem map_toList_put {f : α → β} (found : r.find? (Named.name a) = some b) (same : f a = f b) :
    (r.put a).toList.map f = r.toList.map f := by
  obtain ⟨hb, named⟩ := r.find?_eq_some_iff.mp found
  have taken : Named.name a ∈ r.names := named ▸ List.mem_map_of_mem hb
  rw [toList_put_of_mem taken, List.map_map]
  refine List.map_congr_left fun c hc => ?_
  rw [Function.comp_apply, stepIn]
  split
  · next namesake =>
    have found' := r.find?_eq_some_iff.mpr ⟨hc, namesake⟩
    rw [found] at found'
    rw [same, Option.some.inj found']
  · rfl

end Roster

/-! ## Modules -/

namespace Module

variable {m m' : Module} {d d' : Declaration} {name : String}

/-- What is found under a name is the wire of that name. -/
theorem wire?_eq_some_iff : m.wire? name = some d ↔ d ∈ m.wires.toList ∧ d.name = name :=
  m.wires.find?_eq_some_iff

/-- No two wires of a module have one name. -/
theorem eq_of_wire? (found : m.wire? name = some d) (declared : d' ∈ m.wires.toList)
    (named : d'.name = name) : d' = d := by
  have found' := wire?_eq_some_iff.mpr ⟨declared, named⟩
  rw [found] at found'
  exact (Option.some.inj found').symm

/-- The wires of a module stand under marked names. -/
def Filed (m : Module) : Prop := ∀ name ∈ m.wires.names, Identifier.IsMarked name

/-- What a module is called and which wires it has. -/
def outline (m : Module) : String × Roster Declaration := (m.name, m.wires)

theorem names_addWire {r : WireRequest} (added : m.addWire r = .ok m') :
    m'.name = m.name ∧ m'.wires.names = m.wires.names ++ [Identifier.escape r.name] := by
  unfold addWire at added
  split at added
  · cases added
  · cases added
  · next wires entered _ =>
    cases added
    refine ⟨rfl, ?_⟩
    rw [Roster.names, (Roster.toList_add? entered).2, List.map_append]
    rfl

theorem outline_addCell {name type : String} {bindings : Roster Binding}
    {notes : Roster DirectionNote} (added : m.addCell name type bindings notes = .ok m') :
    m'.outline = m.outline := by
  unfold addCell at added
  split at added
  · cases added
  · cases added
    rfl

end Module

namespace Document

variable {d d' : Design} {m m' : Module} {key v : Value}

/-! ## The first pass -/

theorem names_addWire (added : addWire m key v = .ok m') :
    m'.name = m.name ∧ m'.wires.names = m.wires.names ++ [Identifier.escape key.name] := by
  obtain ⟨_, _, _, _, _, -, -, -, -, -, entered⟩ := addWire_eq_ok added
  have names := Module.names_addWire entered
  exact names

theorem names_addWires {wires : List (Value × Value)} (added : addWires m wires = .ok m') :
    m'.name = m.name ∧
      m'.wires.names = m.wires.names ++ wires.map fun w => Identifier.escape w.1.name := by
  induction wires generalizing m with
  | nil =>
    cases added
    exact ⟨rfl, (List.append_nil _).symm⟩
  | cons first rest ih =>
    obtain ⟨key, v⟩ := first
    obtain ⟨next, entered, added⟩ := bind_eq_ok added
    obtain ⟨name, names⟩ := names_addWire entered
    obtain ⟨name', names'⟩ := ih added
    refine ⟨name'.trans name, ?_⟩
    rw [names', names, List.append_assoc, List.map_cons, List.singleton_append]

/-- An entry of a document's modules, and the outline of the module that the first pass makes of
it. -/
def Enters (entry : Value × Value) (outline : String × Roster Declaration) : Prop :=
  ∃ entries wires m, fields entry.2 = .ok entries ∧
    fields (Value.entry entries "wires") = .ok wires ∧
    addWires (Module.new (Identifier.escape entry.1.name)) wires = .ok m ∧ outline = m.outline

/-- An entry is filed under its key, in marked form. -/
theorem Enters.name {entry : Value × Value} {outline : String × Roster Declaration}
    (enters : Enters entry outline) : outline.1 = Identifier.escape entry.1.name := by
  obtain ⟨_, _, m, -, -, filled, rfl⟩ := enters
  exact (names_addWires filled).1

/-- The wires of an entry are filed under theirs. -/
theorem Enters.wires {entry : Value × Value} {outline : String × Roster Declaration}
    (enters : Enters entry outline) : ∃ entries wires, fields entry.2 = .ok entries ∧
      fields (Value.entry entries "wires") = .ok wires ∧
      outline.2.names = wires.map fun w => Identifier.escape w.1.name := by
  obtain ⟨entries, wires, m, isModule, isWires, filled, rfl⟩ := enters
  exact ⟨entries, wires, isModule, isWires, (names_addWires filled).2⟩

/-- What the modules of a design are called and which wires they have. -/
def outlines (d : Design) : List (String × Roster Declaration) :=
  d.modules.toList.map Module.outline

/-- The names of a design are those of the outlines. -/
theorem names_eq_map_outlines (d : Design) : d.modules.names = (outlines d).map Prod.fst := by
  rw [outlines, List.map_map]
  rfl

/-- A module of the first pass brings one outline. -/
theorem enters_addModule (added : addModule d key v = .ok d') :
    ∃ o, outlines d' = outlines d ++ [o] ∧ Enters (key, v) o := by
  obtain ⟨d₁, entries, wires, m, -, entered, isModule, isWires, filled, rfl⟩ :=
    addModule_eq_ok added
  have named := (names_addWires filled).1
  refine ⟨m.outline, ?_, entries, wires, m, isModule, isWires, filled, rfl⟩
  unfold Design.addModule at entered
  split at entered
  · cases entered
  · next place =>
    cases entered
    rw [outlines, Design.put, Roster.toList_put_of_add? place named, List.map_append]
    rfl

/-- So the first pass brings an outline for every entry, in order. -/
theorem enters_addModules {modules : List (Value × Value)} (added : addModules d modules = .ok d') :
    ∃ os, outlines d' = outlines d ++ os ∧ List.Forall₂ Enters modules os := by
  induction modules generalizing d with
  | nil =>
    cases added
    exact ⟨[], (List.append_nil _).symm, .nil⟩
  | cons first rest ih =>
    obtain ⟨key, v⟩ := first
    obtain ⟨next, entered, added⟩ := bind_eq_ok added
    obtain ⟨o, grown, enters⟩ := enters_addModule entered
    obtain ⟨os, grown', each⟩ := ih added
    refine ⟨o :: os, ?_, .cons enters each⟩
    rw [grown', grown, List.append_assoc, List.singleton_append]

/-! ## The second pass -/

theorem outline_addCell (added : addCell d m key v = .ok m') : m'.outline = m.outline := by
  obtain ⟨_, _, _, _, _, -, -, -, -, -, -, -, -, -, placed⟩ := addCell_eq_ok added
  exact Module.outline_addCell placed

theorem outline_addCells {cells : List (Value × Value)} (added : addCells d m cells = .ok m') :
    m'.outline = m.outline :=
  addCells_invariant (P := fun other => other.outline = m.outline)
    (fun _ _ _ _ same placed => (outline_addCell placed).trans same) rfl added

theorem outline_connect {place : Nat} (made : connect m place v = .ok m') :
    m'.outline = m.outline := by
  obtain ⟨_, _, _, _, -, -, -, -, rfl⟩ := connect_eq_ok made
  rfl

theorem outline_connectAll {place : Nat} {connections : List Value}
    (made : connectAll m place connections = .ok m') : m'.outline = m.outline :=
  connectAll_invariant (P := fun other => other.outline = m.outline)
    (fun _ _ _ _ _ same one => (outline_connect one).trans same) rfl made

/-- The second pass leaves names and wires as the first one made them. -/
theorem outlines_complete (completed : complete d key v = .ok d') : outlines d' = outlines d := by
  rcases complete_eq_ok completed with
    ⟨-, rfl⟩ | ⟨m, _, _, m₁, _, m₂, _, _, found, -, -, placed, -, made, -, -, rfl⟩
  · rfl
  · have same : m₂.outline = m.outline := (outline_connectAll made).trans (outline_addCells placed)
    refine Roster.map_toList_put (b := m) ?_ same
    have named : m₂.name = m.name := congrArg Prod.fst same
    rw [← (d.module?_eq_some_iff.mp found).2, ← named] at found
    exact found

theorem outlines_completeAll {modules : List (Value × Value)}
    (completed : completeAll d modules = .ok d') : outlines d' = outlines d :=
  completeAll_invariant (P := fun other => outlines other = outlines d)
    (fun _ _ _ _ same one => (outlines_complete one).trans same) rfl completed

/-! ## Accepted documents -/

/-- The modules of an accepted design are those of its document, with the wires declared there. -/
theorem outlines_of_design {asked : Value} (accepted : design v asked = .ok d) :
    ∃ entries modules, v = .map entries ∧ Value.entry entries "modules" = .map modules ∧
      List.Forall₂ Enters modules (outlines d) := by
  obtain ⟨entries, modules, top, d₁, rfl, isModules, -, added, completed, -⟩ :=
    design_eq_ok accepted
  obtain ⟨os, grown, each⟩ := enters_addModules added
  refine ⟨entries, modules, rfl, isModules, ?_⟩
  rw [outlines_completeAll completed, grown]
  exact each

/-- Every entry has its outline. -/
theorem exists_enters {modules : List (Value × Value)} {os : List (String × Roster Declaration)}
    {entry : Value × Value} (each : List.Forall₂ Enters modules os) (h : entry ∈ modules) :
    ∃ o ∈ os, Enters entry o := by
  induction each with
  | nil => cases h
  | cons first _ ih =>
    rcases List.mem_cons.mp h with rfl | h
    · exact ⟨_, List.mem_cons_self, first⟩
    · obtain ⟨o, ho, enters⟩ := ih h
      exact ⟨o, List.mem_cons_of_mem _ ho, enters⟩

/-- The wires of an accepted design stand under marked names. -/
theorem filed_of_design {asked : Value} (accepted : design v asked = .ok d) :
    ∀ m ∈ d.modules.toList, m.Filed := by
  obtain ⟨entries, modules, -, -, each⟩ := outlines_of_design accepted
  have marked : ∀ o ∈ outlines d, ∀ name ∈ o.2.names, Identifier.IsMarked name := by
    generalize outlines d = os at each
    induction each with
    | nil => exact List.forall_mem_nil _
    | cons enters _ ih =>
      refine List.forall_mem_cons.mpr ⟨?_, ih⟩
      obtain ⟨_, wires, -, -, names⟩ := enters.wires
      rw [names]
      intro name h
      obtain ⟨w, -, rfl⟩ := List.mem_map.mp h
      exact Identifier.isMarked_escape _
  exact fun m hm => marked m.outline (List.mem_map_of_mem hm)

/-- A document declares a wire in a module, both under the names that it gives them. -/
inductive Declares : Value → String → String → Prop where
  | intro {entries modules fs wires : List (Value × Value)} {module v wire w : Value}
      (isModules : Value.entry entries "modules" = .map modules) (isModule : (module, v) ∈ modules)
      (hasFields : fields v = .ok fs) (hasWires : fields (Value.entry fs "wires") = .ok wires)
      (isWire : (wire, w) ∈ wires) : Declares (.map entries) module.name wire.name

/-- Every wire that an accepted document declares is found in its module, under its marked name. -/
theorem wire?_of_declares {asked : Value} {module wire : String}
    (accepted : design v asked = .ok d) (declares : Declares v module wire) :
    ∃ m w, d.module? (Identifier.escape module) = some m ∧
      m.wire? (Identifier.escape wire) = some w := by
  obtain ⟨entries, modules, isMap, isModules', each⟩ := outlines_of_design accepted
  cases declares with
  | @intro _ _ fs wires module v wire w isModules isModule hasFields hasWires isWire =>
    cases isMap
    rw [isModules] at isModules'
    cases isModules'
    obtain ⟨o, ho, enters⟩ := exists_enters each isModule
    obtain ⟨m, hm, rfl⟩ := List.mem_map.mp ho
    obtain ⟨fs', wires', hasFields', hasWires', names⟩ := enters.wires
    rw [hasFields] at hasFields'
    cases hasFields'
    rw [hasWires] at hasWires'
    cases hasWires'
    have named : Identifier.escape wire.name ∈ m.wires.names := by
      show Identifier.escape wire.name ∈ m.outline.2.names
      rw [names]
      exact List.mem_map.mpr ⟨_, isWire, rfl⟩
    obtain ⟨w, hw, same⟩ := List.mem_map.mp named
    exact ⟨m, w, d.module?_eq_some_iff.mpr ⟨hm, enters.name⟩,
      Module.wire?_eq_some_iff.mpr ⟨hw, same⟩⟩

end Document

end NearestMux
