import NearestMux.Proofs.Netlist.Filing
import NearestMux.Proofs.Signal.Meaning

/-!
# Accepted designs are well formed

What the search takes for granted of a design is written down once (`Design.WellFormed`): everything
stands under its own marked name, signals are cut from the wires of their own module, both sides of
a connection have as many bits, and the top is there. `Document.wellFormed_of_design` says that
every document that is accepted gives such a design.

Part of it holds of any value of the types: a width is no negative number, a role is one value, a
slice lies inside its wire. A wire that is asked for with a negative width or in both roles is
refused (`Module.addWire`), and one that is not refused is as it was asked for
(`WireRequest.declaration_of_fault?`).

Each way to change a module keeps it well formed (`Module.WellFormed.addWire` and those that follow
it), and the two passes use no other. Wires of a module only become more, so a signal stays among
them. Which ports are to be marked depends on the names of the modules alone, and the second pass
leaves them as they are, so it makes no difference whether the module of an instance comes before
the cell or after it.
-/

namespace NearestMux

/-! ## Signals -/

/-- A signal is cut from the wires of a roster, inside of each, and nothing is left to join. -/
structure Signal.Within (wires : Roster Declaration) (s : Signal) : Prop where
  declared : ∀ wire offset width inside, .slice wire offset width inside ∈ s.chunks →
    (∃ w ∈ wires.toList, w.toWire = wire) ∧ offset + width ≤ wire.width
  apart : s.chunks.IsChain fun low high => low.join? high = none

namespace Signal

variable {wires wires' : Roster Declaration} {s : Signal} {stock : Set Wire}
  {wire? : String → Option Wire}

/-- A signal that is cut from the wires of a roster lies within it: the type carries the rest. -/
theorem within_of_over (stocked : Chunk.Over {w | ∃ d ∈ wires.toList, d.toWire = w} s.chunks) :
    s.Within wires where
  declared := fun _ _ _ inside mem => ⟨stocked _ mem _ rfl, inside⟩
  apart := ((Chunk.isMerged_iff s.chunks).mp s.merged).2

/-- More wires leave a signal among them. -/
theorem Within.mono (within : s.Within wires) (sub : ∀ w ∈ wires.toList, w ∈ wires'.toList) :
    s.Within wires' where
  declared := fun wire offset width inside mem => by
    obtain ⟨⟨w, hw, same⟩, fits⟩ := within.declared wire offset width inside mem
    exact ⟨⟨w, sub w hw, same⟩, fits⟩
  apart := within.apart

/-- Constant bits are cut from no wire. -/
theorem over_const (bits : List Char) : Chunk.Over stock (ofChunks [.const bits]).chunks := by
  refine Chunk.Over.merged fun c hc w hw => ?_
  rw [List.mem_singleton.mp hc] at hw
  cases hw

/-- A slice is cut from its wire alone. -/
theorem over_slice {w : Wire} {offset width : Nat} (inside : offset + width ≤ w.width)
    (hw : w ∈ stock) : Chunk.Over stock (ofChunks [.slice w offset width inside]).chunks := by
  refine Chunk.Over.merged fun c hc u hu => ?_
  rw [List.mem_singleton.mp hc] at hu
  cases hu
  exact hw

/-- A constant is cut from no wire, whatever its digits. -/
theorem over_ofDigits {text : String} {width : Nat} {base : Base} {digits : List Char}
    (read : ofDigits text width base digits = .ok s) : Chunk.Over stock s.chunks := by
  unfold ofDigits at read
  split at read
  · split at read
    · cases read
      exact over_const _
    · cases read
  · cases read

/-- A wire, or a part of it, is cut from that wire alone. -/
theorem over_ofIndices {w : Wire} {range : Option (List Char × List Char)} (hw : w ∈ stock)
    (read : ofIndices w range = .ok s) : Chunk.Over stock s.chunks := by
  cases range with
  | none =>
    cases read
    exact over_slice _ hw
  | some range =>
    obtain ⟨high, -, read⟩ := bind_eq_ok read
    obtain ⟨low, -, read⟩ := bind_eq_ok read
    rw [ofRange] at read
    split at read
    · cases read
      exact over_slice _ hw
    · cases read

/-- Whatever a text is the shape of, it is cut from no wire but the one that it refers to. -/
theorem over_ofShape {text : String} {shape : SignalShape}
    (known : ∀ name w, wire? name = some w → w ∈ stock)
    (read : ofShape wire? text shape = .ok s) : Chunk.Over stock s.chunks := by
  cases shape with
  | constant width base digits =>
    obtain ⟨n, -, read⟩ := bind_eq_ok read
    exact over_ofDigits read
  | reference name range =>
    rw [ofShape] at read
    split at read
    · next wire found => exact over_ofIndices (known _ _ found) read
    · cases read

mutual

/-- A signal is cut from wires that its place knows. -/
theorem over_ofValue (known : ∀ name w, wire? name = some w → w ∈ stock) (v : Value) {s : Signal}
    (read : ofValue wire? v = .ok s) : Chunk.Over stock s.chunks := by
  cases v with
  | bool b =>
    cases read
    exact over_const _
  | int i =>
    cases read
    exact over_const _
  | text text =>
    rw [ofValue, ofText] at read
    split at read
    · exact over_ofShape known read
    · cases read
  | list parts =>
    rw [ofValue] at read
    split at read
    · next chunks readParts =>
      cases read
      exact (over_chunksOfParts known parts readParts).merged
    · cases read
  | null | float | moment | bytes | set | pair | map => cases read

/-- Signals side by side are cut from what each of them is cut from. -/
theorem over_chunksOfParts (known : ∀ name w, wire? name = some w → w ∈ stock)
    (parts : List Value) {chunks : List Chunk} (read : chunksOfParts wire? parts = .ok chunks) :
    Chunk.Over stock chunks := by
  cases parts with
  | nil =>
    cases read
    exact List.forall_mem_nil _
  | cons part rest =>
    rw [chunksOfParts] at read
    split at read
    · next low readRest =>
      split at read
      · next high readPart =>
        cases read
        exact List.forall_mem_append.mpr
          ⟨over_chunksOfParts known rest readRest, over_ofValue known part readPart⟩
      · cases read
    · cases read

end

end Signal

/-- The wires that a module declares. -/
def Module.stock (m : Module) : Set Wire := {w | ∃ d ∈ m.wires.toList, d.toWire = w}

/-- A signal that is read in a module is cut from the wires of the module. -/
theorem Document.over_of_signal {m : Module} {v : Value} {s : Signal} (read : signal m v = .ok s) :
    Chunk.Over m.stock s.chunks := by
  refine Signal.over_ofValue (fun name w found => ?_) v (ofValue_of_signal read)
  obtain ⟨d, declared, rfl⟩ := Option.map_eq_some_iff.mp found
  exact ⟨d, (Module.wire?_eq_some_iff.mp declared).1, rfl⟩

/-- A signal that is read in a module lies within the wires of the module. -/
theorem Document.within_of_signal {m : Module} {v : Value} {s : Signal}
    (read : signal m v = .ok s) : s.Within m.wires :=
  Signal.within_of_over (over_of_signal read)

/-! ## What is well formed -/

/-- A wire of a module: under a marked name, with bits from none on, and a port in one way at most.
-/
structure Declaration.WellFormed (module : String) (w : Declaration) : Prop where
  marked : Identifier.IsMarked w.name
  origin : w.origin = .declared module
  width : 0 ≤ (w.width : Int)
  oneRole : ¬ (w.isInput = true ∧ w.isOutput = true)

/-- A cell of a module with these wires, in a design with modules of these names. -/
structure Cell.WellFormed (modules : List String) (wires : Roster Declaration) (c : Cell) :
    Prop where
  marked : Identifier.IsMarked c.name
  type : Identifier.IsMarked c.type
  ports : c.type ∈ modules → ∀ b ∈ c.bindings.toList, Identifier.IsMarked b.port
  signals : ∀ b ∈ c.bindings.toList, b.signal.Within wires
  notes : ∀ note ∈ c.notes.toList, note.word ∈ ["input", "output", "inout"]

/-- A direct connection of a module with these wires. -/
structure Connection.WellFormed (wires : Roster Declaration) (k : Connection) : Prop where
  target : k.target.Within wires
  source : k.source.Within wires
  size : k.target.size = k.source.size

/-- A module in a design with modules of these names. -/
structure Module.WellFormed (modules : List String) (m : Module) : Prop where
  marked : Identifier.IsMarked m.name
  wires : ∀ w ∈ m.wires.toList, w.WellFormed m.name
  cells : ∀ c ∈ m.cells.toList, c.WellFormed modules m.wires
  connections : ∀ k ∈ m.connections, k.WellFormed m.wires

/-- A design: everything is found under its own name, and nothing under another. -/
structure Design.WellFormed (d : Design) : Prop where
  module? : ∀ name m, d.module? name = some m ↔ m ∈ d.modules.toList ∧ m.name = name
  wire? : ∀ m ∈ d.modules.toList, ∀ name w,
    m.wire? name = some w ↔ w ∈ m.wires.toList ∧ w.name = name
  cell? : ∀ m ∈ d.modules.toList, ∀ name c,
    m.cell? name = some c ↔ c ∈ m.cells.toList ∧ c.name = name
  modules : ∀ m ∈ d.modules.toList, m.WellFormed d.modules.names
  top : ∀ name, d.top = some name → ∃ m, d.module? name = some m

/-! ## Changes that keep a module well formed -/

/-- More wires leave a cell well formed. -/
theorem Cell.WellFormed.mono {modules : List String} {wires wires' : Roster Declaration} {c : Cell}
    (formed : c.WellFormed modules wires) (sub : ∀ w ∈ wires.toList, w ∈ wires'.toList) :
    c.WellFormed modules wires' where
  marked := formed.marked
  type := formed.type
  ports := formed.ports
  signals := fun b hb => (formed.signals b hb).mono sub
  notes := formed.notes

/-- More wires leave a connection well formed. -/
theorem Connection.WellFormed.mono {wires wires' : Roster Declaration} {k : Connection}
    (formed : k.WellFormed wires) (sub : ∀ w ∈ wires.toList, w ∈ wires'.toList) :
    k.WellFormed wires' where
  target := formed.target.mono sub
  source := formed.source.mono sub
  size := formed.size

/-- A request in order is answered as it stands. -/
theorem WireRequest.declaration_of_fault? {r : WireRequest} (inOrder : r.fault? = none)
    (module : String) : ((r.declaration module).width : Int) = r.width ∧
      (r.declaration module).isInput = r.input ∧ (r.declaration module).isOutput = r.output := by
  unfold fault? at inOrder
  split at inOrder
  · cases inOrder
  · next width =>
    split at inOrder
    · cases inOrder
    · next roles =>
      refine ⟨Int.toNat_of_nonneg (not_lt.mp width), ?_, ?_⟩
      · rw [declaration, Declaration.isInput, role?]
        cases r.input <;> cases r.output <;> rfl
      · rw [declaration, Declaration.isOutput, role?]
        revert roles
        cases r.input <;> cases r.output <;> simp

/-- No wire is an input and an output. -/
theorem Declaration.not_both (w : Declaration) : ¬ (w.isInput = true ∧ w.isOutput = true) := by
  rw [isInput, isOutput]
  rcases w.role with _ | _ | _ <;> simp

/-- Whatever is asked for, the declaration that answers it is well formed. -/
theorem WireRequest.wellFormed_declaration (r : WireRequest) (module : String) :
    (r.declaration module).WellFormed module where
  marked := Identifier.isMarked_escape r.name
  origin := rfl
  width := Int.natCast_nonneg _
  oneRole := Declaration.not_both _

namespace Module

variable {modules : List String} {m m' : Module}

/-- A module with nothing in it is well formed. -/
theorem wellFormed_new {name : String} (marked : Identifier.IsMarked name) :
    (new name).WellFormed modules where
  marked := marked
  wires := List.forall_mem_nil _
  cells := List.forall_mem_nil _
  connections := List.forall_mem_nil _

/-- Declaring a wire keeps a module well formed. -/
theorem WellFormed.addWire {r : WireRequest} (formed : m.WellFormed modules)
    (added : m.addWire r = .ok m') : m'.WellFormed modules := by
  unfold Module.addWire at added
  split at added
  · cases added
  · cases added
  · next wires entered _ =>
    cases added
    obtain ⟨-, list⟩ := Roster.toList_add? entered
    have sub : ∀ w ∈ m.wires.toList, w ∈ wires.toList := fun w hw => by
      rw [list]
      exact List.mem_append_left _ hw
    refine ⟨formed.marked, ?_, fun c hc => (formed.cells c hc).mono sub,
      fun k hk => (formed.connections k hk).mono sub⟩
    intro w hw
    rw [list] at hw
    rcases List.mem_append.mp hw with old | new
    · exact formed.wires w old
    · rw [List.mem_singleton.mp new]
      exact WireRequest.wellFormed_declaration r m.name

/-- Placing a cell keeps a module well formed, if its signals are among the wires, the words that it
notes are directions, and its ports are marked where it is an instance. -/
theorem WellFormed.addCell {name type : String} {bindings : Roster Binding}
    {notes : Roster DirectionNote} (formed : m.WellFormed modules)
    (ports : Identifier.escape type ∈ modules → ∀ b ∈ bindings.toList, Identifier.IsMarked b.port)
    (signals : ∀ b ∈ bindings.toList, b.signal.Within m.wires)
    (words : ∀ note ∈ notes.toList, note.word ∈ ["input", "output", "inout"])
    (added : m.addCell name type bindings notes = .ok m') : m'.WellFormed modules := by
  unfold Module.addCell at added
  split at added
  · cases added
  · next cells entered =>
    cases added
    refine ⟨formed.marked, formed.wires, fun c hc => ?_, formed.connections⟩
    rw [(Roster.toList_add? entered).2] at hc
    rcases List.mem_append.mp hc with old | new
    · exact formed.cells c old
    · rw [List.mem_singleton.mp new]
      exact ⟨Identifier.isMarked_escape name, Identifier.isMarked_escape type, ports, signals,
        words⟩

/-- Making a well-formed connection keeps a module well formed. -/
theorem WellFormed.connect {target source : Signal} (formed : m.WellFormed modules)
    (made : Connection.WellFormed m.wires ⟨target, source⟩) :
    (m.connect target source).WellFormed modules where
  marked := formed.marked
  wires := formed.wires
  cells := formed.cells
  connections := List.forall_mem_append.mpr ⟨formed.connections, List.forall_mem_singleton.mpr made⟩

/-- Processes have nothing to do with it. -/
theorem WellFormed.addProcesses (formed : m.WellFormed modules) (texts : List String) :
    (m.addProcesses texts).WellFormed modules where
  marked := formed.marked
  wires := formed.wires
  cells := formed.cells
  connections := formed.connections

end Module

/-- What stands in a roster after a member is set is that member or stood there before. -/
theorem Roster.mem_put {α : Type} [Named α] {r : Roster α} {a b : α} (h : b ∈ (r.put a).toList) :
    b ∈ r.toList ∨ b = a := by
  unfold put at h
  split at h
  · obtain ⟨c, hc, rfl⟩ := List.mem_map.mp h
    unfold stepIn
    split
    · exact .inr rfl
    · exact .inl hc
  · exact (List.mem_append.mp h).imp_right List.mem_singleton.mp

namespace Document

variable {modules : List String} {d d' : Design} {m m' : Module} {name : String} {key v : Value}

/-! ## The first pass -/

/-- Declaring the wires of a document keeps a module well formed. -/
theorem wellFormed_addWires {wires : List (Value × Value)} (formed : m.WellFormed modules)
    (added : addWires m wires = .ok m') : m'.WellFormed modules := by
  refine addWires_invariant (fun w _ m m' formed added => ?_) formed added
  obtain ⟨_, _, _, _, _, -, -, -, -, -, entered⟩ := addWire_eq_ok added
  exact formed.addWire entered

/-- All modules of a design are well formed among modules of these names. -/
def AllFormed (modules : List String) (d : Design) : Prop :=
  ∀ m ∈ d.modules.toList, m.WellFormed modules

/-- A well-formed module may step in for another. -/
theorem allFormed_put (formed : AllFormed modules d) (changed : m.WellFormed modules) :
    AllFormed modules (d.put m) := by
  intro other h
  rcases Roster.mem_put h with old | rfl
  · exact formed other old
  · exact changed

/-- A module is entered well formed. -/
theorem allFormed_addModule (formed : AllFormed modules d) (added : addModule d key v = .ok d') :
    AllFormed modules d' := by
  obtain ⟨d₁, _, _, m, -, entered, -, -, filled, rfl⟩ := addModule_eq_ok added
  have isNew : (Module.new (Identifier.escape key.name)).WellFormed modules :=
    Module.wellFormed_new (Identifier.isMarked_escape key.name)
  refine allFormed_put ?_ (wellFormed_addWires isNew filled)
  unfold Design.addModule at entered
  split at entered
  · cases entered
  · next place =>
    cases entered
    intro other h
    rw [(Roster.toList_add? place).2] at h
    rcases List.mem_append.mp h with old | new
    · exact formed other old
    · rw [List.mem_singleton.mp new]
      exact isNew

/-- After the first pass all modules are well formed. -/
theorem allFormed_addModules {entries : List (Value × Value)} (formed : AllFormed modules d)
    (added : addModules d entries = .ok d') : AllFormed modules d' :=
  addModules_invariant (fun _ _ _ _ formed entered => allFormed_addModule formed entered) formed
    added

/-! ## The second pass -/

/-- The bindings of a cell are signals of its module, under ports in marked form where that is asked
for. -/
theorem bindings_wellFormed {marked : Bool} {done bound : Roster Binding}
    {entries : List (Value × Value)}
    (formed : ∀ b ∈ done.toList, (marked = true → Identifier.IsMarked b.port) ∧
      b.signal.Within m.wires)
    (read : bindings m marked done entries = .ok bound) :
    ∀ b ∈ bound.toList, (marked = true → Identifier.IsMarked b.port) ∧
      b.signal.Within m.wires := by
  induction entries generalizing done with
  | nil =>
    cases read
    exact formed
  | cons first rest ih =>
    obtain ⟨port, isPort, read⟩ := bind_eq_ok read
    obtain ⟨s, readSignal, read⟩ := bind_eq_ok read
    refine ih (fun b hb => ?_) read
    rcases Roster.mem_put hb with old | rfl
    · exact formed b old
    · refine ⟨fun isMarked => ?_, within_of_signal readSignal⟩
      rw [isMarked]
      exact Identifier.isMarked_escape _

/-- The words for a direction are three. -/
theorem mem_words_of_ofWord? {word : String} (known : (Direction.ofWord? word).isSome = true) :
    word ∈ ["input", "output", "inout"] := by
  unfold Direction.ofWord? at known
  split at known
  · simp [*]
  · split at known
    · simp [*]
    · split at known
      · simp [*]
      · cases known

/-- A module is found under just the names of the modules. -/
theorem module?_isSome_iff : (d.module? name).isSome = true ↔ name ∈ d.modules.names := by
  constructor
  · intro found
    obtain ⟨m, found⟩ := Option.isSome_iff_exists.mp found
    obtain ⟨hm, rfl⟩ := d.module?_eq_some_iff.mp found
    exact List.mem_map_of_mem hm
  · intro h
    obtain ⟨m, hm, rfl⟩ := List.mem_map.mp h
    rw [Option.isSome_iff_exists]
    exact ⟨m, d.module?_eq_some_iff.mpr ⟨hm, rfl⟩⟩

/-- A cell of a document is placed well formed. Whether it is an instance is asked of the same
modules here and in the finished design. -/
theorem wellFormed_addCell (names : d.modules.names = modules) (formed : m.WellFormed modules)
    (added : addCell d m key v = .ok m') : m'.WellFormed modules := by
  obtain ⟨_, _, bindings, _, notes, -, -, -, -, -, read, -, -, words, placed⟩ := addCell_eq_ok added
  have each := bindings_wellFormed (List.forall_mem_nil _) read
  refine formed.addCell (fun isModule b hb => (each b hb).1 ?_) (fun b hb => (each b hb).2)
    (fun note hn => mem_words_of_ofWord? (words note hn)) placed
  rw [Identifier.escape_escape, ← names] at isModule
  exact module?_isSome_iff.mpr isModule

/-- A connection of a document is made well formed. -/
theorem wellFormed_connect {place : Nat} (formed : m.WellFormed modules)
    (made : connect m place v = .ok m') : m'.WellFormed modules := by
  obtain ⟨_, _, target, source, -, readTarget, readSource, size, rfl⟩ := connect_eq_ok made
  exact formed.connect ⟨within_of_signal readTarget, within_of_signal readSource, size⟩

/-- Completing a module keeps all modules well formed. -/
theorem allFormed_complete (names : d.modules.names = modules) (formed : AllFormed modules d)
    (completed : complete d key v = .ok d') : AllFormed modules d' := by
  rcases complete_eq_ok completed with
    ⟨-, rfl⟩ | ⟨m, _, _, m₁, _, m₂, _, _, found, -, -, placed, -, made, -, -, rfl⟩
  · exact formed
  · have isModule := formed m (d.module?_eq_some_iff.mp found).1
    have withCells : m₁.WellFormed modules := addCells_invariant
      (fun _ _ _ _ formed placed => wellFormed_addCell names formed placed) isModule placed
    have withConnections : m₂.WellFormed modules := connectAll_invariant
      (fun _ _ _ _ _ formed made => wellFormed_connect formed made) withCells made
    exact allFormed_put formed (withConnections.addProcesses _)

/-- The second pass leaves the names of the modules as they are, so what it asks of them is what the
finished design answers. -/
theorem allFormed_completeAll {entries : List (Value × Value)} (names : d.modules.names = modules)
    (formed : AllFormed modules d) (completed : completeAll d entries = .ok d') :
    AllFormed modules d' := by
  refine (completeAll_invariant (P := fun d => d.modules.names = modules ∧ AllFormed modules d)
    (fun _ _ d d' before one => ⟨?_, ?_⟩) ⟨names, formed⟩ completed).2
  · rw [names_eq_map_outlines, outlines_complete one, ← names_eq_map_outlines]
    exact before.1
  · exact allFormed_complete before.1 before.2 one

/-! ## Accepted documents -/

/-- A top that is not missing is one of the modules. -/
theorem exists_module_of_missingTop? (notMissing : missingTop? d = none)
    (isTop : d.top = some name) : ∃ m, d.module? name = some m := by
  rw [missingTop?, isTop, Option.filter_eq_none_iff] at notMissing
  have found := notMissing name rfl
  rwa [Option.isNone_iff_eq_none, ← ne_eq, Option.ne_none_iff_exists'] at found

/-- The modules of an accepted design are well formed among themselves. -/
theorem allFormed_of_design {asked : Value} (accepted : design v asked = .ok d) :
    AllFormed d.modules.names d := by
  obtain ⟨_, _, _, d₁, -, -, -, added, completed, -⟩ := design_eq_ok accepted
  have names : d₁.modules.names = d.modules.names := by
    rw [names_eq_map_outlines d, outlines_completeAll completed, ← names_eq_map_outlines]
  have formed : AllFormed d.modules.names d₁ :=
    allFormed_addModules (fun _ hm => absurd hm List.not_mem_nil) added
  exact allFormed_completeAll names formed completed

/-- **Well-formedness.** Every design that a document gives is well formed. -/
theorem wellFormed_of_design {asked : Value} (accepted : design v asked = .ok d) :
    d.WellFormed := by
  obtain ⟨_, _, _, _, -, -, -, -, -, hasTop⟩ := design_eq_ok accepted
  exact {
    module? := fun name m => d.module?_eq_some_iff
    wire? := fun m _ name w => Module.wire?_eq_some_iff
    cell? := fun m _ name c => m.cells.find?_eq_some_iff
    modules := allFormed_of_design accepted
    top := fun name isTop => exists_module_of_missingTop? hasTop isTop }

/-- A document in which `top` has an instance of `leaf`, which comes later, and a direct connection
from a constant bit and a bit of its bus to two other bits of it. -/
def instanceDocument : Value :=
  .map [(.text "top", .text "top"), (.text "modules", .map [
    (.text "top", .map [
      (.text "wires", .map [(.text "bus", .map [(.text "width", .int 4)])]),
      (.text "cells", .map [(.text "u", .map [(.text "type", .text "leaf"),
        (.text "connections", .map [(.text "a", .text "bus")]),
        (.text "directions", .map [(.text "a", .text "input")])])]),
      (.text "connections", .list [.list [.text "bus[1:0]", .list [.text "1'b0", .text "bus[3]"]]])]),
    (.text "leaf", .map [(.text "wires", .map [
      (.text "a", .map [(.text "width", .int 4), (.text "direction", .text "input")])])])])]

theorem wellFormed_of_design_instance : ∃ d, design instanceDocument .null = .ok d ∧
    d.modules.names = ["\\top", "\\leaf"] ∧ d.WellFormed := by
  have accepted : design instanceDocument .null = .ok _ := rfl
  exact ⟨_, accepted, rfl, wellFormed_of_design accepted⟩

end Document

end NearestMux
