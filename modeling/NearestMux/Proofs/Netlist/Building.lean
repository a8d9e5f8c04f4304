import Mathlib.Data.List.Basic
import NearestMux.Netlist.Workbench

/-!
# Building — what one call does to a workbench

The calls of a workbench are programs that ask, make, write and answer in turn. Here each of them is
run once, and what it does is said in two parts: what it fails for (`fault?`), and how the workbench
looks when it does not (`next`). `run_perform` says that this is all. A call that fails has written
nothing (`run_perform_eq_error_iff`), because every question comes before the first write, also the
two questions that come up while a wire is made.

What a call puts in does not depend on the workbench, only on the call: a name among the modules, an
entry among the wires or the cells of one place, a connection. So the parts of a workbench are those
of the calls that went through, in their order (`BuiltBy.next` for one call, `BuiltBy.after` for a
run). Nothing was put in at a place before the module of the place was made, which is what
`BuiltBy.placed` keeps.
-/

namespace NearestMux

/-- The wire that answers the request, as an object. -/
def WireRequest.object (r : WireRequest) : WireObject :=
  ⟨Identifier.escape r.name, r.width, r.input, r.output, r.attributes⟩

/-- A request is out of order when its width is negative or when it asks for both directions. -/
theorem WireRequest.exists_fault?_iff (r : WireRequest) :
    (∃ fault, r.fault? = some fault) ↔ r.width < 0 ∨ (r.input = true ∧ r.output = true) := by
  unfold fault?
  split
  · next negative => exact ⟨fun _ => .inl negative, fun _ => ⟨_, rfl⟩⟩
  · next notNegative =>
    simp only [Bool.and_eq_true]
    split
    · next both => exact ⟨fun _ => .inr both, fun _ => ⟨_, rfl⟩⟩
    · next notBoth => exact ⟨nofun, fun wrong => (wrong.elim notNegative notBoth).elim⟩

namespace BuildCall

/-- The place of the module that is called. -/
def place? : BuildCall → Option Nat
  | .addModule _ => none
  | .addWire place _ | .addCell place _ _ _ _ | .connect place _ _ => some place

/-- The name that a call enters among the modules. -/
def module? : BuildCall → Option String
  | .addModule name => some (Identifier.escape name)
  | _ => none

/-- What a call enters among the wires at a place. -/
def wire? (place : Nat) : BuildCall → Option (String × WireObject)
  | .addWire called r => if called = place then some (Identifier.escape r.name, r.object) else none
  | _ => none

/-- What a call enters among the cells at a place. -/
def cell? (place : Nat) : BuildCall → Option (String × CellObject)
  | .addCell called name type bindings notes =>
    if called = place then
      some (Identifier.escape name,
        ⟨Identifier.escape name, Identifier.escape type, bindings, notes, some called⟩)
    else none
  | _ => none

/-- The connection that a call makes at a place. -/
def connection? (place : Nat) : BuildCall → Option Connection
  | .connect called target source => if called = place then some ⟨target, source⟩ else none
  | _ => none

variable {call : BuildCall} {place : Nat}

/-- A call that does not call a place puts nothing there. -/
theorem nothing_at (elsewhere : call.place? ≠ some place) :
    call.wire? place = none ∧ call.cell? place = none ∧ call.connection? place = none := by
  cases call <;> simp_all [place?, wire?, cell?, connection?]

theorem filterMap_concat {α : Type} (f : BuildCall → Option α) (calls : List BuildCall)
    (call : BuildCall) : (calls ++ [call]).filterMap f = calls.filterMap f ++ (f call).toList := by
  rw [List.filterMap_append, List.filterMap_cons]
  cases f call <;> rfl

end BuildCall

/-- A module with what a call puts in at its place. -/
def ModuleObject.grow (m : ModuleObject) (place : Nat) (call : BuildCall) : ModuleObject :=
  { m with
    wires := m.wires ++ (call.wire? place).toList
    cells := m.cells ++ (call.cell? place).toList
    connections := m.connections ++ (call.connection? place).toList }

namespace ModuleObject

variable {m : ModuleObject} {place : Nat} {call : BuildCall} {calls : List BuildCall}

/-- A call on another place puts nothing into the module. -/
theorem grow_of_elsewhere (elsewhere : call.place? ≠ some place) : m.grow place call = m := by
  obtain ⟨wire, cell, connection⟩ := BuildCall.nothing_at elsewhere
  rw [grow, wire, cell, connection]
  simp only [Option.toList_none, List.append_nil]

theorem grow_addWire (m : ModuleObject) (place : Nat) (r : WireRequest) :
    m.grow place (.addWire place r) =
      { m with wires := m.wires ++ [(Identifier.escape r.name, r.object)] } := by
  simp [grow, BuildCall.wire?, BuildCall.cell?, BuildCall.connection?]

theorem grow_addCell (m : ModuleObject) (place : Nat) (name type : String)
    (bindings : Roster Binding) (notes : Roster DirectionNote) :
    m.grow place (.addCell place name type bindings notes) =
      { m with cells := m.cells ++ [(Identifier.escape name,
        ⟨Identifier.escape name, Identifier.escape type, bindings, notes, some place⟩)] } := by
  simp [grow, BuildCall.wire?, BuildCall.cell?, BuildCall.connection?]

theorem grow_connect (m : ModuleObject) (place : Nat) (target source : Signal) :
    m.grow place (.connect place target source) =
      { m with connections := m.connections ++ [⟨target, source⟩] } := by
  simp [grow, BuildCall.wire?, BuildCall.cell?, BuildCall.connection?]

/-- A module at a place whose parts are those that calls put in there, in the order of the calls. -/
structure BuiltBy (m : ModuleObject) (place : Nat) (calls : List BuildCall) : Prop where
  wires : m.wires = calls.filterMap (BuildCall.wire? place)
  cells : m.cells = calls.filterMap (BuildCall.cell? place)
  connections : m.connections = calls.filterMap (BuildCall.connection? place)

/-- A module that calls have built and that grows by one more is built by all of them. -/
theorem BuiltBy.grow (built : m.BuiltBy place calls) (call : BuildCall) :
    (m.grow place call).BuiltBy place (calls ++ [call]) where
  wires := by
    rw [BuildCall.filterMap_concat, ← built.wires]
    rfl
  cells := by
    rw [BuildCall.filterMap_concat, ← built.cells]
    rfl
  connections := by
    rw [BuildCall.filterMap_concat, ← built.connections]
    rfl

/-- A module in which nothing is yet, when nothing was put in at its place. -/
theorem builtBy_of_elsewhere (name : String) (design : Option Nat)
    (elsewhere : ∀ call ∈ calls, call.place? ≠ some place) :
    BuiltBy { new name with design := design } place calls := by
  have nothing (call : BuildCall) (h : call ∈ calls) := BuildCall.nothing_at (elsewhere call h)
  constructor
  · exact (List.filterMap_eq_nil_iff.mpr fun call h => (nothing call h).1).symm
  · exact (List.filterMap_eq_nil_iff.mpr fun call h => (nothing call h).2.1).symm
  · exact (List.filterMap_eq_nil_iff.mpr fun call h => (nothing call h).2.2).symm

end ModuleObject

namespace Workbench

/-- What a call fails for. -/
def fault? (w : Workbench) : BuildCall → Option BuildFault
  | .addModule name =>
    if Identifier.escape name ∈ names w.modules then
      some (.refused (.duplicateModule (Identifier.escape name)))
    else none
  | .addWire place r => match w.objects[place]? with
    | none => some (.noModule place)
    | some m =>
      if Identifier.escape r.name ∈ names m.wires then
        some (.refused (.duplicateWire m.name (Identifier.escape r.name)))
      else r.fault?.map .refused
  | .addCell place name _ _ _ => match w.objects[place]? with
    | none => some (.noModule place)
    | some m =>
      if Identifier.escape name ∈ names m.cells then
        some (.refused (.duplicateCell m.name (Identifier.escape name)))
      else none
  | .connect place _ _ => match w.objects[place]? with
    | none => some (.noModule place)
    | some _ => none

/-- The workbench with what a call puts in. -/
def next (w : Workbench) (call : BuildCall) : Workbench :=
  { w with
    modules := w.modules ++ (call.module?.map fun name => (name, w.objects.length)).toList
    objects := w.objects.mapIdx (fun place m => m.grow place call) ++
      (call.module?.map fun name => { ModuleObject.new name with design := some w.design }).toList }

/-- How a program ends that fails for what a call fails for, and else puts in what it does. -/
def answer {α : Type} (w : Workbench) (call : BuildCall) (a : α) :
    EStateM.Result BuildFault Workbench α :=
  match w.fault? call with
  | some fault => .error fault w
  | none => .ok a (w.next call)

variable {α : Type} {w w' : Workbench} {call : BuildCall} {calls : List BuildCall} {place : Nat}
  {m : ModuleObject} {name : String} {table : List (String × α)} {a : α}

/-! ## Running the steps -/

theorem file_of_not_mem (free : name ∉ names table) : file name a table = table ++ [(name, a)] :=
  if_neg free

/-- A program that asks first fails with the answer to its question, or goes on. -/
theorem run_refuseIf_bind (p : Prop) [Decidable p] (fault : DeclareFault) (x : Unit → Build α)
    (w : Workbench) : (refuseIf p fault >>= x).run w =
      if p then .error (.refused fault) w else (x ()).run w := by
  unfold refuseIf
  split <;> rfl

/-- A program that takes a module by its place fails where no module is, or goes on with it. -/
theorem run_moduleAt_bind (place : Nat) (x : ModuleObject → Build α) (w : Workbench) :
    (moduleAt place >>= x).run w = match w.objects[place]? with
      | some m => (x m).run w
      | none => .error (.noModule place) w := by
  unfold moduleAt
  simp only [EStateM.run_bind, EStateM.run_get]
  cases w.objects[place]? <;> rfl

theorem run_makeWire (w : Workbench) (r : WireRequest) :
    (makeWire (Identifier.escape r.name) r.width r.input r.output r.attributes).run w =
      match r.fault? with
      | some fault => .error (.refused fault) w
      | none => .ok r.object w := by
  unfold makeWire WireRequest.fault?
  simp only [run_refuseIf_bind]
  split
  · rfl
  · split <;> rfl

/-- Only the module that is called grows. -/
theorem mapIdx_grow (there : w.objects[place]? = some m) (called : call.place? = some place) :
    w.objects.mapIdx (fun place m => m.grow place call) =
      w.objects.set place (m.grow place call) := by
  refine List.ext_getElem? fun i => ?_
  rw [List.getElem?_mapIdx, List.getElem?_set]
  split
  · next same =>
    subst same
    rw [there, if_pos (List.getElem?_eq_some_iff.mp there).1]
    rfl
  · next other =>
    have elsewhere : call.place? ≠ some i := fun same => other (Option.some.inj (called ▸ same))
    simp only [ModuleObject.grow_of_elsewhere elsewhere, Option.map_id']

/-- A call on no place leaves every module as it is. -/
theorem mapIdx_grow_of_place?_eq_none (w : Workbench) (nowhere : call.place? = none) :
    w.objects.mapIdx (fun place m => m.grow place call) = w.objects := by
  refine List.ext_getElem? fun i => ?_
  have elsewhere : call.place? ≠ some i := by rw [nowhere]; nofun
  simp only [List.getElem?_mapIdx, ModuleObject.grow_of_elsewhere elsewhere, Option.map_id']

/-- A call on a module makes the module grow, and nothing else. -/
theorem next_of_called (there : w.objects[place]? = some m) (called : call.place? = some place) :
    w.next call = { w with objects := w.objects.set place (m.grow place call) } := by
  have noModule : call.module? = none := by cases call <;> first | rfl | cases called
  rw [next, noModule, mapIdx_grow there called]
  simp

/-- So a program that makes the module grow does what the call does. -/
theorem alter_eq_next {f : ModuleObject → ModuleObject} (there : w.objects[place]? = some m)
    (called : call.place? = some place) (grows : f m = m.grow place call) :
    { w with objects := w.objects.modify place f } = w.next call := by
  rw [next_of_called there called, ← grows, List.modify_eq_set_getElem?, there]
  rfl

/-! ## Running the calls -/

/-- Adding a module answers its place, which is the next one free. -/
theorem run_addModule (w : Workbench) (name : String) :
    (addModule name).run w = w.answer (.addModule name) w.objects.length := by
  rw [addModule, EStateM.run_bind, answer, fault?]
  simp only [EStateM.run_get, run_refuseIf_bind]
  by_cases taken : Identifier.escape name ∈ names w.modules
  · simp only [if_pos taken]
  · simp only [if_neg taken]
    refine congrArg (EStateM.Result.ok w.objects.length) ?_
    -- the design is handed to the module that stands last, which is the one just made
    dsimp only
    rw [next, mapIdx_grow_of_place?_eq_none w rfl, file_of_not_mem taken,
      List.modify_eq_set_getElem?, List.getElem?_concat_length]
    simp [BuildCall.module?]

/-- Adding a wire answers the wire asked for. -/
theorem run_addWire (w : Workbench) (place : Nat) (r : WireRequest) :
    (addWire place r).run w = w.answer (.addWire place r) r.object := by
  simp only [addWire, run_moduleAt_bind, run_refuseIf_bind, answer, fault?]
  cases there : w.objects[place]? with
  | none => rfl
  | some m =>
    by_cases taken : Identifier.escape r.name ∈ names m.wires
    · simp only [if_pos taken]
    · simp only [if_neg taken, EStateM.run_bind, run_makeWire]
      cases r.fault? with
      | some fault => rfl
      | none =>
        refine congrArg (EStateM.Result.ok r.object) (alter_eq_next there rfl ?_)
        rw [file_of_not_mem taken, ModuleObject.grow_addWire]

/-- Adding a cell answers the cell, in the module at its place. -/
theorem run_addCell (w : Workbench) (place : Nat) (name type : String) (bindings : Roster Binding)
    (notes : Roster DirectionNote) : (addCell place name type bindings notes).run w =
      w.answer (.addCell place name type bindings notes)
        ⟨Identifier.escape name, Identifier.escape type, bindings, notes, some place⟩ := by
  simp only [addCell, run_moduleAt_bind, run_refuseIf_bind, answer, fault?]
  cases there : w.objects[place]? with
  | none => rfl
  | some m =>
    by_cases taken : Identifier.escape name ∈ names m.cells
    · simp only [if_pos taken]
    · simp only [if_neg taken]
      refine congrArg (EStateM.Result.ok _) (alter_eq_next there rfl ?_)
      rw [file_of_not_mem taken, ModuleObject.grow_addCell]

theorem run_connect (w : Workbench) (place : Nat) (target source : Signal) :
    (connect place target source).run w = w.answer (.connect place target source) () := by
  simp only [connect, run_moduleAt_bind, answer, fault?]
  cases there : w.objects[place]? with
  | none => rfl
  | some m =>
    refine congrArg (EStateM.Result.ok ()) (alter_eq_next there rfl ?_)
    rw [ModuleObject.grow_connect]

/-- A program whose result is dropped does what it did. -/
theorem run_discard {x : Build α} (ran : x.run w = w.answer call a) :
    (discard x).run w = w.answer call () := by
  show EStateM.map (fun _ => ()) x w = _
  rw [EStateM.map, show x w = w.answer call a from ran, answer, answer]
  cases w.fault? call <;> rfl

/-- A call fails and has written nothing, or it puts in its part. -/
theorem run_perform (w : Workbench) (call : BuildCall) :
    (perform call).run w = w.answer call () := by
  cases call with
  | addModule name => exact run_discard (run_addModule w name)
  | addWire place r => exact run_discard (run_addWire w place r)
  | addCell place name type bindings notes =>
    exact run_discard (run_addCell w place name type bindings notes)
  | connect place target source => exact run_connect w place target source

/-! ## Refusals -/

/-- What speaks against a call: the name it files is taken, or the wire it asks for is none. -/
def Refuses (w : Workbench) : BuildCall → Prop
  | .addModule name => Identifier.escape name ∈ names w.modules
  | .addWire place r => ∃ m, w.objects[place]? = some m ∧
      (Identifier.escape r.name ∈ names m.wires ∨ r.width < 0 ∨ (r.input = true ∧ r.output = true))
  | .addCell place name _ _ _ => ∃ m, w.objects[place]? = some m ∧
      Identifier.escape name ∈ names m.cells
  | .connect _ _ _ => False

/-- A call is refused exactly for what speaks against it. -/
theorem exists_fault?_refused_iff (w : Workbench) (call : BuildCall) :
    (∃ fault, w.fault? call = some (.refused fault)) ↔ w.Refuses call := by
  cases call with
  | addModule name => simp [fault?, Refuses]
  | addWire place r =>
    simp only [fault?, Refuses, ← WireRequest.exists_fault?_iff]
    cases w.objects[place]? with
    | none => simp
    | some m =>
      by_cases taken : Identifier.escape r.name ∈ names m.wires
      · simp [taken]
      · simp [taken]
  | addCell place name _ _ _ =>
    rw [fault?, Refuses]
    cases w.objects[place]? <;> simp
  | connect place _ _ =>
    rw [fault?, Refuses]
    cases w.objects[place]? <;> simp

theorem fault?_of_nothing (called : call.place? = some place) (nothing : w.objects[place]? = none) :
    w.fault? call = some (.noModule place) := by
  cases call <;> cases called <;> simp only [fault?, nothing]

theorem fault?_of_there (called : call.place? = some place) (there : w.objects[place]? = some m)
    (other : Nat) : w.fault? call ≠ some (.noModule other) := by
  cases call with
  | addModule name => cases called
  | addWire _ r =>
    cases called
    simp only [fault?, there]
    split <;> simp
  | addCell _ name _ _ _ =>
    cases called
    simp only [fault?, there]
    split <;> simp
  | connect _ _ _ =>
    cases called
    simp [fault?, there]

/-- A call finds no module exactly when it calls a place where none is. -/
theorem fault?_eq_noModule_iff (w : Workbench) (call : BuildCall) (place : Nat) :
    w.fault? call = some (.noModule place) ↔
      call.place? = some place ∧ w.objects[place]? = none := by
  refine ⟨fun failed => ?_, fun ⟨called, nothing⟩ => fault?_of_nothing called nothing⟩
  cases called : call.place? with
  | none =>
    cases call with
    | addModule name => simp [fault?] at failed
    | _ => cases called
  | some calledPlace =>
    cases there : w.objects[calledPlace]? with
    | none =>
      rw [fault?_of_nothing called there, Option.some.injEq, BuildFault.noModule.injEq] at failed
      rw [← failed]
      exact ⟨rfl, there⟩
    | some m => exact absurd failed (fault?_of_there called there place)

/-- A call that fails leaves the workbench as it was. -/
theorem run_perform_eq_error_iff {fault : BuildFault} :
    (perform call).run w = .error fault w' ↔ w.fault? call = some fault ∧ w' = w := by
  rw [run_perform, answer]
  cases w.fault? call <;> simp [eq_comm]

/-! ## Runs -/

/-- A run of calls takes up the first, if it goes through, and then the rest. -/
theorem after_cons (w : Workbench) (call : BuildCall) (rest : List BuildCall) :
    w.after (call :: rest) = (if w.fault? call = none then w.next call else w).after rest := by
  rw [after, run_perform, answer]
  cases w.fault? call <;> rfl

theorem accepted_cons (w : Workbench) (call : BuildCall) (rest : List BuildCall) :
    w.accepted (call :: rest) = if w.fault? call = none then call :: (w.next call).accepted rest
      else w.accepted rest := by
  rw [accepted, run_perform, answer]
  cases w.fault? call <;> rfl

/-- A workbench whose parts are those that calls put in, in the order of the calls. -/
structure BuiltBy (w : Workbench) (calls : List BuildCall) : Prop where
  modules : names w.modules = calls.filterMap BuildCall.module?
  parts : ∀ place (m : ModuleObject), w.objects[place]? = some m → m.BuiltBy place calls
  placed : ∀ call ∈ calls, ∀ place, call.place? = some place → place < w.objects.length

/-- The empty workbench is built by no calls. -/
theorem builtBy_empty (design : Nat) (top : Option String) : (empty design top).BuiltBy [] where
  modules := rfl
  parts := nofun
  placed := nofun

/-- A place holds the module that was there, grown by the call, or the module just made. -/
theorem eq_of_there_next (there : (w.next call).objects[place]? = some m) :
    (∃ before, w.objects[place]? = some before ∧ m = before.grow place call) ∨
      ∃ name, place = w.objects.length ∧ call = .addModule name ∧
        m = { ModuleObject.new (Identifier.escape name) with design := some w.design } := by
  rw [next, List.getElem?_append, List.length_mapIdx, List.getElem?_mapIdx] at there
  split at there
  · obtain ⟨before, was, rfl⟩ := Option.map_eq_some_iff.mp there
    exact .inl ⟨before, was, rfl⟩
  · next beyond =>
    cases call with
    | addModule name =>
      obtain ⟨first, isNew⟩ := List.getElem?_eq_some_iff.mp there
      have single : place - w.objects.length < 1 := first
      have first : place = w.objects.length := by omega
      subst first
      simp only [Nat.sub_self] at isNew
      exact .inr ⟨name, rfl, rfl, isNew.symm⟩
    | _ => cases there

/-- No call takes a module away. -/
theorem length_le_next (w : Workbench) (call : BuildCall) :
    w.objects.length ≤ (w.next call).objects.length := by
  rw [next, List.length_append, List.length_mapIdx]
  exact Nat.le_add_right _ _

/-- A call that goes through is the last of the calls that a workbench is built by. -/
theorem BuiltBy.next (built : w.BuiltBy calls) (fits : w.fault? call = none) :
    (w.next call).BuiltBy (calls ++ [call]) where
  modules := by
    rw [Workbench.next, names, List.map_append, BuildCall.filterMap_concat, ← built.modules, names]
    cases call.module? <;> rfl
  parts := by
    intro place m there
    rcases eq_of_there_next there with ⟨before, was, rfl⟩ | ⟨name, rfl, rfl, rfl⟩
    · exact (built.parts place before was).grow call
    · -- a module starts empty, and no call so far was one on its place
      have elsewhere : ∀ call ∈ calls ++ [.addModule name],
          call.place? ≠ some w.objects.length := by
        refine List.forall_mem_append.mpr ⟨fun other h called => ?_, ?_⟩
        · exact Nat.lt_irrefl _ (built.placed other h _ called)
        · exact List.forall_mem_singleton.mpr nofun
      exact ModuleObject.builtBy_of_elsewhere _ _ elsewhere
  placed := by
    intro other h place called
    rcases List.mem_append.mp h with old | new
    · exact Nat.lt_of_lt_of_le (built.placed other old place called) (length_le_next w call)
    · rw [List.mem_singleton.mp new] at called
      refine Nat.lt_of_lt_of_le (Nat.lt_of_not_le fun beyond => ?_) (length_le_next w call)
      rw [fault?_of_nothing called (List.getElem?_eq_none beyond)] at fits
      cases fits

/-- A run adds the calls that go through, and the calls that fail add nothing. -/
theorem BuiltBy.after {more : List BuildCall} (built : w.BuiltBy calls) :
    (w.after more).BuiltBy (calls ++ w.accepted more) := by
  induction more generalizing w calls with
  | nil => exact (List.append_nil calls).symm ▸ built
  | cons call rest ih =>
    rw [after_cons, accepted_cons]
    split
    · next fits =>
      have more := ih (built.next fits)
      rwa [List.append_assoc] at more
    · exact ih built

end Workbench

end NearestMux
