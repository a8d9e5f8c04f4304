import NearestMux.Proofs.Lists
import NearestMux.Proofs.Netlist.Reading

/-!
# When a design mirrors its document

A design mirrors its document when nothing of the document is lost in it: every entry has a member
of its own, in its place (`Document.Mirrors`). For modules, wires, cells, connections and processes
this holds of every design that is accepted, because a name that is taken is refused
(`Document.namesApart_of_reads`).

It does not hold of the ports of a cell. They are set, not declared: a port that is set again takes
the later signal and keeps the earlier place, and nobody is told. The same goes for the directions
that a cell notes. So an accepted design mirrors its document just when no cell names a port twice,
where two names of an instance are one as soon as they are marked alike
(`Document.design_mirrors_iff`).
-/

namespace NearestMux

namespace Document

variable {d : Design} {m : Module} {c : Cell} {doc asked : Value} {e : Value × Value}
  {isModule : String → Bool} {read : Value → Except DocumentFault Signal}

/-- A cell mirrors its entry: so do its bindings and the directions that it notes, one to one and in
order. -/
structure CellMirrored (isModule : String → Bool) (read : Value → Except DocumentFault Signal)
    (e : Value × Value) (c : Cell) : Prop where
  name : c.name = Identifier.escape e.1.name
  type : c.type = cellType e.2
  bindings : List.Forall₂ (BindingRead read (isModule c.type)) (bindingEntries e.2)
    c.bindings.toList
  notes : c.notes.toList = (directionEntries e.2).map noteOf

/-- A design mirrors a document: modules, wires, cells, bindings, noted directions, connections and
processes answer to the entries of the document one to one and in order. -/
def Mirrors (doc : Value) (d : Design) : Prop :=
  List.Forall₂ (ModuleRead (CellMirrored (declaresModule doc))) (moduleEntries doc) d.modules.toList

/-- Modules, and in each module wires and cells, are filed under different names. -/
structure NamesApart (doc : Value) : Prop where
  modules : (filedNames (moduleEntries doc)).Nodup
  wires : ∀ m ∈ moduleEntries doc, (filedNames (wireEntries m.2)).Nodup
  cells : ∀ m ∈ moduleEntries doc, (filedNames (cellEntries m.2)).Nodup

/-- The ports of a cell are filed under different names, and no port has two directions. -/
structure CellApart (isModule : String → Bool) (cell : Value) : Prop where
  ports : ((bindingEntries cell).map fun b => portName (isModule (cellType cell)) b.1).Nodup
  directions : ((directionEntries cell).map fun note => note.1.name).Nodup

/-- No cell of the document names a port twice. -/
def PortsApart (doc : Value) : Prop :=
  ∀ m ∈ moduleEntries doc, ∀ c ∈ cellEntries m.2, CellApart (declaresModule doc) c.2

theorem cellMirrored_iff (asRead : CellRead isModule read e c) :
    CellMirrored isModule read e c ↔ CellApart isModule e.2 := by
  constructor
  · intro mirrored
    have ports := Roster.nodup_of_forall₂ mirrored.bindings fun _ _ binding => binding.port
    rw [asRead.type] at ports
    have directions := c.notes.nodup
    rw [mirrored.notes, List.map_map] at directions
    exact ⟨ports, directions⟩
  · intro apart
    obtain ⟨row, each, isRow⟩ := asRead.bindings
    have ports := Roster.map_name_of_forall₂ each fun _ _ binding => binding.port
    rw [asRead.type] at ports
    have bindings : c.bindings.toList = row := by
      rw [isRow]
      exact Roster.toList_ofList (ports ▸ apart.ports)
    refine ⟨asRead.name, asRead.type, bindings.symm ▸ each, ?_⟩
    rw [asRead.notes]
    refine Roster.toList_ofList ?_
    rw [List.map_map]
    exact apart.directions

theorem moduleMirrored_iff (asRead : ModuleRead (CellRead isModule) e m) :
    ModuleRead (CellMirrored isModule) e m ↔ ∀ c ∈ cellEntries e.2, CellApart isModule c.2 := by
  have cells : List.Forall₂ (CellMirrored isModule (signal m)) (cellEntries e.2) m.cells.toList ↔
      ∀ c ∈ cellEntries e.2, CellApart isModule c.2 :=
    forall₂_iff_forall asRead.cells fun _ _ cell => cellMirrored_iff cell
  constructor
  · intro mirrored
    exact cells.mp mirrored.cells
  · intro apart
    exact { asRead with cells := cells.mpr apart }

theorem mirrors_iff (reads : Reads doc asked d) : Mirrors doc d ↔ PortsApart doc :=
  forall₂_iff_forall reads.modules fun _ _ module => moduleMirrored_iff module

/-- What is declared under a name that is taken is refused, so in an accepted document all declared
names differ. -/
theorem namesApart_of_reads (reads : Reads doc asked d) : NamesApart doc where
  modules := Roster.nodup_of_forall₂ reads.modules fun _ _ module => module.name
  wires := by
    refine (forall₂_iff_forall reads.modules fun e m module => ?_).mp reads.modules
    exact iff_of_true module (Roster.nodup_of_forall₂ module.wires fun _ _ wire => wire.name)
  cells := by
    refine (forall₂_iff_forall reads.modules fun e m module => ?_).mp reads.modules
    exact iff_of_true module (Roster.nodup_of_forall₂ module.cells fun _ _ cell => cell.name)

/-- A design that is accepted is what its document reads as, all declared names of the document
differ, and the design mirrors the document just when no cell names a port twice. -/
theorem design_mirrors_iff (accepted : design doc asked = .ok d) :
    Reads doc asked d ∧ NamesApart doc ∧ (Mirrors doc d ↔ PortsApart doc) := by
  have reads := reads_of_design accepted
  exact ⟨reads, namesApart_of_reads reads, mirrors_iff reads⟩

theorem design_mirrors_iff_instance : ∃ d, design instanceDocument .null = .ok d ∧
    Reads instanceDocument .null d ∧ NamesApart instanceDocument ∧
      (Mirrors instanceDocument d ↔ PortsApart instanceDocument) := by
  have accepted : design instanceDocument .null = .ok _ := rfl
  exact ⟨_, accepted, design_mirrors_iff accepted⟩

/-- A document whose one instance binds a port under its name with and without the mark. -/
def collidingDocument : Value :=
  .map [(.text "modules", .map [
    (.text "top", .map [
      (.text "wires", .map [(.text "x", .null), (.text "y", .null)]),
      (.text "cells", .map [(.text "u", .map [(.text "type", .text "leaf"),
        (.text "connections", .map [(.text "a", .text "x"), (.text "\\a", .text "y")])])])]),
    (.text "leaf", .map [(.text "wires", .map [
      (.text "a", .map [(.text "direction", .text "input")])])])])]

/-- A document may be accepted and lose a binding: of the two signals that the instance of `leaf`
has for the port, only the later one is left. -/
theorem not_mirrors_colliding :
    ∃ d, design collidingDocument .null = .ok d ∧ ¬ Mirrors collidingDocument d := by
  have accepted : design collidingDocument .null = .ok _ := rfl
  refine ⟨_, accepted, fun mirrors => ?_⟩
  have apart := (mirrors_iff (reads_of_design accepted)).mp mirrors
  have ports := (apart _ List.mem_cons_self _ List.mem_cons_self).ports
  exact absurd ports (by decide)

end Document

end NearestMux
