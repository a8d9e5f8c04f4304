import NearestMux.Proofs.Netlist.Building
import NearestMux.Proofs.Netlist.WellFormed

/-!
# Workbench — a design built by calls stays consistent

A design laid out on a workbench (`Design.layOut`) has an object for each of its parts: the modules
at their places, in order of arrival, each with the number of the design, and each cell with the
place of its module. `agrees_perform` says that a call does the same to a design and to the design
laid out, and fails for the same fault; so a workbench on which calls were made is the design after
the calls, laid out (`after_layOut`).

Much of what a workbench is to keep (`Consistent`) is then what the types of a design say: a name
stands once, a width is no negative number, a role is one value. What they do not say is read off
the calls (`BuiltBy`): a thing is filed under the marked form of the name that was given.

`consistent_after` puts this together for every run of calls. It says nothing of signals: a call
takes a signal as it comes and does not ask whether its wires are those of the module.
-/

namespace NearestMux

/-- A member that steps in for its namesake takes the namesake's place. -/
theorem Roster.toList_put_of_getElem? {α : Type} [Named α] {r : Roster α} {a b : α} {place : Nat}
    (there : r.toList[place]? = some b) (same : Named.name a = Named.name b) :
    (r.put a).toList = r.toList.set place a := by
  have taken : Named.name a ∈ r.names := same ▸ List.mem_map_of_mem (List.mem_of_getElem? there)
  rw [toList_put_of_mem taken]
  refine List.ext_getElem? fun i => ?_
  rw [List.getElem?_map, List.getElem?_set]
  split
  · next here =>
    subst here
    rw [there, if_pos (List.getElem?_eq_some_iff.mp there).1, Option.map_some, stepIn,
      if_pos same.symm]
  · next elsewhere =>
    cases other : r.toList[i]? with
    | none => rfl
    | some c =>
      have differ : Named.name c ≠ Named.name a := by
        intro namesake
        have inside : place < r.names.length := by
          rw [names, List.length_map]
          exact (List.getElem?_eq_some_iff.mp there).1
        have named : r.names[place]? = r.names[i]? := by
          rw [names, List.getElem?_map, List.getElem?_map, there, other, Option.map_some,
            Option.map_some, ← same, namesake]
        exact elsewhere ((List.getElem?_inj inside r.nodup).mp named)
      rw [Option.map_some, stepIn, if_neg differ]

/-! ## Laying out -/

/-- A declared wire as an object. -/
def Declaration.object (w : Declaration) : WireObject :=
  ⟨w.name, w.width, w.isInput, w.isOutput, w.attributes⟩

/-- A cell as an object of the module at a place. -/
def Cell.object (c : Cell) (place : Nat) : CellObject :=
  ⟨c.name, c.type, c.bindings, c.notes, some place⟩

/-- A module as an object at a place, of the design of a number. -/
def Module.object (m : Module) (design place : Nat) : ModuleObject where
  name := m.name
  wires := m.wires.toList.map fun w => (w.name, w.object)
  cells := m.cells.toList.map fun c => (c.name, c.object place)
  connections := m.connections
  processes := m.processes
  design := some design

/-- A design laid out on a workbench, as the design of a number. -/
def Design.layOut (d : Design) (number : Nat) : Workbench where
  design := number
  top := d.top
  selection := d.selection
  modules := d.modules.names.zipIdx
  objects := d.modules.toList.mapIdx fun place m => m.object number place

/-- A wire in order, declared and laid out, is the object that was asked for. -/
theorem WireRequest.object_declaration {r : WireRequest} (inOrder : r.fault? = none)
    (module : String) : (r.declaration module).object = r.object := by
  obtain ⟨width, input, output⟩ := declaration_of_fault? inOrder module
  rw [Declaration.object, width, input, output]
  rfl

namespace Workbench

variable {d : Design} {m : Module} {call : BuildCall} {place number : Nat}

theorem names_modules_layOut (d : Design) (number : Nat) :
    names (d.layOut number).modules = d.modules.names := List.zipIdx_map_fst 0 d.modules.names

theorem length_objects_layOut (d : Design) (number : Nat) :
    (d.layOut number).objects.length = d.modules.toList.length := List.length_mapIdx

theorem getElem?_objects_layOut (d : Design) (number place : Nat) :
    (d.layOut number).objects[place]? =
      d.modules.toList[place]?.map fun m => m.object number place := List.getElem?_mapIdx

/-- The module at a place of the design is laid out at that place. -/
theorem there_layOut (there : d.modules.toList[place]? = some m) (number : Nat) :
    (d.layOut number).objects[place]? = some (m.object number place) := by
  rw [getElem?_objects_layOut, there, Option.map_some]

/-- The modules laid out keep their names. -/
theorem map_name_objects_layOut (d : Design) (number : Nat) :
    (d.layOut number).objects.map ModuleObject.name = d.modules.names := by
  refine List.ext_getElem? fun i => ?_
  rw [List.getElem?_map, getElem?_objects_layOut, Option.map_map, Roster.names, List.getElem?_map]
  rfl

theorem names_wires_object (m : Module) (design place : Nat) :
    names (m.object design place).wires = m.wires.names := by
  rw [names, Module.object, List.map_map]
  rfl

theorem names_cells_object (m : Module) (design place : Nat) :
    names (m.object design place).cells = m.cells.names := by
  rw [names, Module.object, List.map_map]
  rfl

/-! ## One call on both sides -/

/-- What a call does to a design is what it does to the design laid out. -/
def Agrees (d : Design) (number : Nat) (call : BuildCall) : Except BuildFault Design → Prop
  | .ok next =>
    (d.layOut number).fault? call = none ∧ next.layOut number = (d.layOut number).next call
  | .error fault => (d.layOut number).fault? call = some fault

/-- What a call does to a module is what it does to the object at the place of the module. -/
def AgreesAt (d : Design) (number : Nat) (call : BuildCall) (place : Nat) (m : Module) :
    Except DeclareFault Module → Prop
  | .ok next => (d.layOut number).fault? call = none ∧ next.name = m.name ∧
      next.object number place = (m.object number place).grow place call
  | .error fault => (d.layOut number).fault? call = some (.refused fault)

/-- A module added to a design is a module added to the design laid out, fault for fault. -/
theorem agrees_addModule (d : Design) (number : Nat) (name : String) :
    Agrees d number (.addModule name) (d.perform (.addModule name)) := by
  rw [Design.perform, Design.addModule]
  cases entered : d.modules.add? (Module.new (Identifier.escape name)) with
  | none =>
    have taken := (d.modules.add?_eq_none_iff _).mp entered
    rw [← names_modules_layOut d number] at taken
    exact if_pos taken
  | some modules =>
    obtain ⟨free, list⟩ := Roster.toList_add? entered
    rw [← names_modules_layOut d number] at free
    refine ⟨if_neg free, ?_⟩
    rw [next, mapIdx_grow_of_place?_eq_none _ rfl, length_objects_layOut, Design.layOut,
      Roster.names, list, List.map_append, List.zipIdx_append, List.mapIdx_concat, List.length_map,
      Nat.zero_add]
    rfl

/-- The module that was changed keeps its name, so it comes back to its own place. -/
theorem agrees_change {f : Module → Except DeclareFault Module} (called : call.place? = some place)
    (agrees : ∀ m, d.modules.toList[place]? = some m → AgreesAt d number call place m (f m)) :
    Agrees d number call (d.change place f) := by
  rw [Design.change]
  cases there : d.modules.toList[place]? with
  | none =>
    have nothing : (d.layOut number).objects[place]? = none := by
      rw [getElem?_objects_layOut, there, Option.map_none]
    exact fault?_of_nothing called nothing
  | some m =>
    have agrees := agrees m there
    cases changed : f m with
    | error fault =>
      rw [changed] at agrees
      simp only [changed]
      exact agrees
    | ok m' =>
      rw [changed] at agrees
      obtain ⟨fits, same, grown⟩ := agrees
      have same : Named.name m' = Named.name m := same
      have taken : Named.name m' ∈ d.modules.names :=
        same ▸ List.mem_map_of_mem (List.mem_of_getElem? there)
      simp only [changed]
      refine ⟨fits, ?_⟩
      show (d.put m').layOut number = _
      rw [next_of_called (there_layOut there number) called, ← grown, Design.layOut, Design.put,
        d.modules.names_put_of_mem m' taken, Roster.toList_put_of_getElem? there same,
        List.mapIdx_set]
      rfl

/-- A wire added to a module is a wire added to the module laid out, fault for fault. -/
theorem agreesAt_addWire (number : Nat) (r : WireRequest)
    (there : d.modules.toList[place]? = some m) :
    AgreesAt d number (.addWire place r) place m (m.addWire r) := by
  have asked : (d.layOut number).fault? (.addWire place r) =
      if Identifier.escape r.name ∈ m.wires.names then
        some (.refused (.duplicateWire m.name (Identifier.escape r.name)))
      else r.fault?.map .refused := by
    simp only [fault?, there_layOut there, names_wires_object]
    rfl
  rw [Module.addWire]
  cases entered : m.wires.add? (r.declaration m.name) with
  | none => exact asked.trans (if_pos ((m.wires.add?_eq_none_iff _).mp entered))
  | some wires =>
    obtain ⟨free, list⟩ := Roster.toList_add? entered
    have asked := asked.trans (if_neg free)
    cases wrong : r.fault? with
    | some fault => rwa [wrong] at asked
    | none =>
      rw [wrong] at asked
      refine ⟨asked, rfl, ?_⟩
      rw [ModuleObject.grow_addWire, Module.object, list, List.map_append, List.map_singleton,
        WireRequest.object_declaration wrong]
      rfl

/-- A cell added to a module is a cell added to the module laid out, fault for fault. -/
theorem agreesAt_addCell (number : Nat) (name type : String) (bindings : Roster Binding)
    (notes : Roster DirectionNote) (there : d.modules.toList[place]? = some m) :
    AgreesAt d number (.addCell place name type bindings notes) place m
      (m.addCell name type bindings notes) := by
  have asked : (d.layOut number).fault? (.addCell place name type bindings notes) =
      if Identifier.escape name ∈ m.cells.names then
        some (.refused (.duplicateCell m.name (Identifier.escape name)))
      else none := by
    simp only [fault?, there_layOut there, names_cells_object]
    rfl
  rw [Module.addCell]
  cases entered : m.cells.add? _ with
  | none => exact asked.trans (if_pos ((m.cells.add?_eq_none_iff _).mp entered))
  | some cells =>
    obtain ⟨free, list⟩ := Roster.toList_add? entered
    refine ⟨asked.trans (if_neg free), rfl, ?_⟩
    rw [ModuleObject.grow_addCell, Module.object, list, List.map_append, List.map_singleton]
    rfl

theorem agreesAt_connect (number : Nat) (target source : Signal)
    (there : d.modules.toList[place]? = some m) :
    AgreesAt d number (.connect place target source) place m (.ok (m.connect target source)) := by
  refine ⟨?_, rfl, ?_⟩
  · rw [fault?, there_layOut there]
  · rw [ModuleObject.grow_connect]
    rfl

/-- A call on a design is the same call on the design laid out, fault for fault. -/
theorem agrees_perform (d : Design) (number : Nat) (call : BuildCall) :
    Agrees d number call (d.perform call) := by
  cases call with
  | addModule name => exact agrees_addModule d number name
  | addWire place r => exact agrees_change rfl fun _ there => agreesAt_addWire number r there
  | addCell place name type bindings notes =>
    exact agrees_change rfl fun _ there => agreesAt_addCell number name type bindings notes there
  | connect place target source =>
    exact agrees_change rfl fun _ there => agreesAt_connect number target source there

/-- Calls on a design laid out leave the design after the calls, laid out. -/
theorem after_layOut (d : Design) (number : Nat) (calls : List BuildCall) :
    (d.layOut number).after calls = (d.after calls).layOut number := by
  induction calls generalizing d with
  | nil => rfl
  | cons call rest ih =>
    rw [after_cons, Design.after]
    have agrees := agrees_perform d number call
    cases performed : d.perform call with
    | ok next =>
      rw [performed] at agrees
      rw [if_pos agrees.1, ← agrees.2, ih]
    | error fault =>
      rw [performed] at agrees
      have fails : (d.layOut number).fault? call ≠ none := by rw [agrees]; nofun
      rw [if_neg fails, ih]

end Workbench

/-! ## Consistency -/

/-- What a module at a place is to be, as an object. Its wires and cells are filed under marked
names of their own, no name twice; it holds the design and its cells hold it; a wire has no less
than no bits, and is not an input and an output. -/
structure ModuleObject.Consistent (m : ModuleObject) (design place : Nat) : Prop where
  marked : Identifier.IsMarked m.name
  design : m.design = some design
  wireNames : (Workbench.names m.wires).Nodup
  wires : ∀ name wire, (name, wire) ∈ m.wires → (wire.name = name ∧ Identifier.IsMarked name) ∧
    0 ≤ wire.width ∧ ¬ (wire.input = true ∧ wire.output = true)
  cellNames : (Workbench.names m.cells).Nodup
  cells : ∀ name cell, (name, cell) ∈ m.cells → (cell.name = name ∧ Identifier.IsMarked name) ∧
    cell.module = some place

namespace BuildCall

variable {call : BuildCall} {place : Nat} {name : String} {wire : WireObject} {cell : CellObject}

/-- The name that a call enters among the modules is marked. -/
theorem isMarked_of_module? (enters : call.module? = some name) : Identifier.IsMarked name := by
  cases call with
  | addModule given =>
    cases enters
    exact Identifier.isMarked_escape given
  | _ => cases enters

/-- A wire is entered under its own name, which is marked. -/
theorem named_of_wire? (enters : call.wire? place = some (name, wire)) :
    wire.name = name ∧ Identifier.IsMarked name := by
  cases call with
  | addWire called r =>
    rw [wire?] at enters
    split at enters
    · cases enters
      exact ⟨rfl, Identifier.isMarked_escape r.name⟩
    · cases enters
  | _ => cases enters

/-- A cell is entered under its own name, which is marked, and knows its module. -/
theorem named_of_cell? (enters : call.cell? place = some (name, cell)) :
    (cell.name = name ∧ Identifier.IsMarked name) ∧ cell.module = some place := by
  cases call with
  | addCell called given type bindings notes =>
    rw [cell?] at enters
    split at enters
    · next here =>
      cases enters
      exact ⟨⟨rfl, Identifier.isMarked_escape given⟩, congrArg some here⟩
    · cases enters
  | _ => cases enters

end BuildCall

namespace Workbench

variable {d : Design} {m : Module} {number place : Nat} {calls : List BuildCall}

/-- What a design as an object is to be: the modules made for it are filed under their names, no
name twice, in the order in which they were made, and each is as it should be. -/
structure Consistent (w : Workbench) : Prop where
  moduleNames : (names w.modules).Nodup
  filed : w.modules = (w.objects.map ModuleObject.name).zipIdx
  modules : ∀ place (m : ModuleObject), w.objects[place]? = some m → m.Consistent w.design place

/-- A module of the types of a design is consistent when its parts and its name come from calls. -/
theorem consistent_object (marked : Identifier.IsMarked m.name)
    (parts : (m.object number place).BuiltBy place calls) :
    (m.object number place).Consistent number place where
  marked := marked
  design := rfl
  wireNames := by
    rw [names_wires_object]
    exact m.wires.nodup
  wires := by
    intro name wire mem
    obtain ⟨w, -, isObject⟩ := List.mem_map.mp mem
    cases isObject
    rw [parts.wires] at mem
    obtain ⟨call, -, enters⟩ := List.mem_filterMap.mp mem
    exact ⟨BuildCall.named_of_wire? enters, Int.natCast_nonneg w.width, w.not_both⟩
  cellNames := by
    rw [names_cells_object]
    exact m.cells.nodup
  cells := by
    intro name cell mem
    rw [parts.cells] at mem
    obtain ⟨call, -, enters⟩ := List.mem_filterMap.mp mem
    exact BuildCall.named_of_cell? enters

theorem consistent_layOut (built : (d.layOut number).BuiltBy calls) :
    (d.layOut number).Consistent where
  moduleNames := by
    rw [names_modules_layOut]
    exact d.modules.nodup
  filed := by
    rw [map_name_objects_layOut]
    rfl
  modules := by
    intro place object there
    have parts := built.parts place object there
    -- the name is in the table, and the table has the names that calls entered
    have named : object.name ∈ names (d.layOut number).modules := by
      rw [names_modules_layOut, ← map_name_objects_layOut d number]
      exact List.mem_map_of_mem (List.mem_of_getElem? there)
    rw [built.modules] at named
    obtain ⟨call, -, enters⟩ := List.mem_filterMap.mp named
    rw [getElem?_objects_layOut] at there
    obtain ⟨m, -, rfl⟩ := Option.map_eq_some_iff.mp there
    exact consistent_object (BuildCall.isMarked_of_module? enters) parts

/-- How a workbench answers a call: it refuses exactly what is to be refused, it misses a module
exactly where there is none, and a call that fails leaves it as it was. -/
structure Answers (w : Workbench) (call : BuildCall) : Prop where
  refused : (∃ fault left, (perform call).run w = .error (.refused fault) left) ↔ w.Refuses call
  noModule : ∀ place, (∃ left, (perform call).run w = .error (.noModule place) left) ↔
    call.place? = some place ∧ w.objects[place]? = none
  unchanged : ∀ fault left, (perform call).run w = .error fault left → left = w

/-- Every call is refused for what speaks against it, misses only modules that are not there, and
fails without a trace. -/
theorem answers (w : Workbench) (call : BuildCall) : w.Answers call where
  refused := by
    simp only [run_perform_eq_error_iff, exists_and_left, exists_eq, and_true]
    exact w.exists_fault?_refused_iff call
  noModule place := by
    simp only [run_perform_eq_error_iff, exists_and_left, exists_eq, and_true]
    exact w.fault?_eq_noModule_iff call place
  unchanged _ _ failed := (run_perform_eq_error_iff.mp failed).2

/-- **Building.** After any calls on an empty design, whether they went through or failed, the
design is consistent; its parts are what the calls that went through put in, in their order; the
next call, whatever it is, is refused exactly when its name is taken or its wire is none, and leaves
everything as it was when it fails; and all of it is the design as a value after the same calls. -/
theorem consistent_after (number : Nat) (top : Option String) (calls : List BuildCall) :
    let w := (empty number top).after calls
    w.Consistent ∧ w.BuiltBy ((empty number top).accepted calls) ∧ (∀ call, w.Answers call) ∧
      w = ((Design.new top).after calls).layOut number := by
  have built : ((empty number top).after calls).BuiltBy ((empty number top).accepted calls) :=
    (builtBy_empty number top).after
  have laidOut : (empty number top).after calls = ((Design.new top).after calls).layOut number :=
    after_layOut (Design.new top) number calls
  refine ⟨?_, built, answers _, laidOut⟩
  rw [laidOut] at built ⊢
  exact consistent_layOut built

/-- Calls of which every other one or so fails: names that were given before, in either spelling, a
wire of less than no bits, one that is an input and an output, and a module that is not there. -/
def mixedCalls : List BuildCall :=
  [.addModule "top", .addModule "\\top", .addWire 0 ⟨"bus", 4, true, false, []⟩,
    .addWire 0 ⟨"\\bus", 1, false, false, []⟩, .addWire 0 ⟨"low", -1, false, false, []⟩,
    .addWire 0 ⟨"$both", 1, true, true, []⟩, .addCell 0 "u" "leaf" ∅ ∅, .addModule "leaf",
    .addCell 0 "\\u" "$add" ∅ ∅, .addWire 1 ⟨"bus", 0, false, true, []⟩,
    .connect 2 .empty .empty, .connect 0 .empty .empty]

theorem consistent_after_mixed :
    let w := (empty 7 none).after mixedCalls
    names w.modules = ["\\top", "\\leaf"] ∧
      (w.objects.map fun m => (names m.wires, names m.cells, m.connections.length)) =
        [(["\\bus"], ["\\u"], 1), (["\\bus"], [], 0)] ∧
      w.Consistent ∧
      ∃ fault left,
        (perform (.addWire 1 ⟨"w", -2, false, false, []⟩)).run w = .error (.refused fault) left :=
  have after := consistent_after 7 none mixedCalls
  ⟨rfl, rfl, after.1, (after.2.2.1 _).refused.mpr ⟨_, rfl, .inr (.inl (by decide))⟩⟩

end Workbench

end NearestMux
