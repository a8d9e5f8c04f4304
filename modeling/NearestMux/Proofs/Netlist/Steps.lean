import NearestMux.Netlist.Document

/-!
# The steps of reading a document, taken apart

Every step of the two passes is a chain of smaller ones, each of which may fail. What a step did
when it succeeded is said here once, with all that it checked on the way (`addWire_eq_ok` and those
that follow it), so that a property of accepted documents need not open the chain again. What serves
as a name was written out on the way, so each step says that it can be written (`Value.isWritable`).

The loops of the passes do nothing but their step over and over. What the step keeps, for the
entries that the loop has, the loop keeps (`addWires_invariant` and those that follow it).
-/

namespace NearestMux

/-- A chain succeeds only if its first step does, and the next one on the answer. -/
theorem bind_eq_ok {ε α β : Type} {x : Except ε α} {f : α → Except ε β} {b : β}
    (h : (x >>= f) = .ok b) : ∃ a, x = .ok a ∧ f a = .ok b := by
  cases x with
  | error fault => cases h
  | ok a => exact ⟨a, rfl, h⟩

namespace Document

variable {m m' : Module} {d d' : Design} {key v asked : Value}

/-- A fault inside a module is one, whether it can be told or not. -/
theorem failIn_ne_ok {α : Type} {fault : ModuleFault} {a : α} : failIn m fault ≠ .ok a := by
  unfold failIn
  split <;> exact nofun

/-! ## Names -/

/-- A value gives its name just when it can be written. -/
theorem nameOf_eq_ok_iff {name : String} :
    nameOf v = .ok name ↔ v.isWritable = true ∧ v.name = name := by
  rw [nameOf, ← Value.name?_eq_some_iff]
  cases v.name? with
  | none => exact ⟨nofun, nofun⟩
  | some found =>
    exact ⟨fun same => congrArg _ (Except.ok.inj same), fun same => by cases same; rfl⟩

theorem nameOf_of_isWritable (writable : v.isWritable = true) : nameOf v = .ok v.name :=
  nameOf_eq_ok_iff.mpr ⟨writable, rfl⟩

/-- Values give their names one by one. -/
theorem namesOf_eq_ok_iff {values : List Value} {names : List String} :
    namesOf values = .ok names ↔
      (∀ v ∈ values, v.isWritable = true) ∧ names = values.map Value.name := by
  induction values generalizing names with
  | nil => exact ⟨fun read => ⟨List.forall_mem_nil _, (Except.ok.inj read).symm⟩,
      fun same => congrArg Except.ok same.2.symm⟩
  | cons v rest ih =>
    constructor
    · intro read
      obtain ⟨name, first, read⟩ := bind_eq_ok read
      obtain ⟨others, restRead, read⟩ := bind_eq_ok read
      cases read
      obtain ⟨writable, rfl⟩ := nameOf_eq_ok_iff.mp first
      obtain ⟨areWritable, rfl⟩ := ih.mp restRead
      exact ⟨List.forall_mem_cons.mpr ⟨writable, areWritable⟩, rfl⟩
    · rintro ⟨areWritable, rfl⟩
      obtain ⟨writable, areWritable⟩ := List.forall_mem_cons.mp areWritable
      rw [namesOf, nameOf_of_isWritable writable, ih.mpr ⟨areWritable, rfl⟩]
      rfl

/-- The direction that an entry notes. -/
def noteOf (e : Value × Value) : DirectionNote := ⟨e.1.name, e.2.name⟩

/-- The ports and the words of noted directions are taken by their names. -/
theorem noted_eq_ok_iff {entries : List (Value × Value)} {notes : List DirectionNote} :
    noted entries = .ok notes ↔
      (∀ e ∈ entries, e.1.isWritable = true ∧ e.2.isWritable = true) ∧
        notes = entries.map noteOf := by
  induction entries generalizing notes with
  | nil => exact ⟨fun read => ⟨List.forall_mem_nil _, (Except.ok.inj read).symm⟩,
      fun same => congrArg Except.ok same.2.symm⟩
  | cons e rest ih =>
    obtain ⟨port, word⟩ := e
    constructor
    · intro read
      obtain ⟨portName, readPort, read⟩ := bind_eq_ok read
      obtain ⟨wordName, readWord, read⟩ := bind_eq_ok read
      obtain ⟨others, restRead, read⟩ := bind_eq_ok read
      cases read
      obtain ⟨portWritable, rfl⟩ := nameOf_eq_ok_iff.mp readPort
      obtain ⟨wordWritable, rfl⟩ := nameOf_eq_ok_iff.mp readWord
      obtain ⟨areWritable, rfl⟩ := ih.mp restRead
      exact ⟨List.forall_mem_cons.mpr ⟨⟨portWritable, wordWritable⟩, areWritable⟩, rfl⟩
    · rintro ⟨areWritable, rfl⟩
      obtain ⟨⟨portWritable, wordWritable⟩, areWritable⟩ := List.forall_mem_cons.mp areWritable
      rw [noted, nameOf_of_isWritable portWritable, nameOf_of_isWritable wordWritable,
        ih.mpr ⟨areWritable, rfl⟩]
      rfl

/-! ## The first pass -/

/-- A wire is described by a mapping, and asked for under the name of its key with what the mapping
gives. -/
theorem addWire_eq_ok (added : addWire m key v = .ok m') :
    ∃ entries input output width attributes, key.isWritable = true ∧
      description? v = some entries ∧
      wireDirection? (Value.entry entries "direction") = some (input, output) ∧
      wireWidth m entries = .ok width ∧ wireAttributes m entries = .ok attributes ∧
      m.addWire ⟨key.name, width, input, output, attributes⟩ = .ok m' := by
  obtain ⟨name, named, added⟩ := bind_eq_ok added
  obtain ⟨writable, rfl⟩ := nameOf_eq_ok_iff.mp named
  split at added
  · exact absurd added failIn_ne_ok
  · next entries isWire =>
    dsimp only at added
    split at added
    · exact absurd added failIn_ne_ok
    · next input output direction =>
      obtain ⟨width, isWidth, added⟩ := bind_eq_ok added
      obtain ⟨attributes, areAttributes, added⟩ := bind_eq_ok added
      split at added
      · next entered =>
        cases added
        exact ⟨entries, input, output, width, attributes, writable, isWire, direction, isWidth,
          areAttributes, entered⟩
      · exact absurd added failIn_ne_ok

/-- A module is entered under the name of its key, and then filled with its wires. -/
theorem addModule_eq_ok (added : addModule d key v = .ok d') :
    ∃ d₁ entries wires m, key.isWritable = true ∧ d.addModule key.name = .ok d₁ ∧
      fields v = .ok entries ∧ fields (Value.entry entries "wires") = .ok wires ∧
      addWires (Module.new (Identifier.escape key.name)) wires = .ok m ∧ d' = d₁.put m := by
  obtain ⟨name, named, added⟩ := bind_eq_ok added
  obtain ⟨writable, rfl⟩ := nameOf_eq_ok_iff.mp named
  split at added
  · cases added
  · next d₁ entered =>
    obtain ⟨entries, isModule, added⟩ := bind_eq_ok added
    obtain ⟨wires, isWires, added⟩ := bind_eq_ok added
    obtain ⟨m, filled, added⟩ := bind_eq_ok added
    cases added
    exact ⟨d₁, entries, wires, m, writable, entered, isModule, isWires, filled, rfl⟩

/-- What declaring one wire keeps, declaring all of them keeps. -/
theorem addWires_invariant {P : Module → Prop} {wires : List (Value × Value)}
    (step : ∀ w ∈ wires, ∀ m m', P m → addWire m w.1 w.2 = .ok m' → P m')
    (start : P m) (added : addWires m wires = .ok m') : P m' := by
  induction wires generalizing m with
  | nil =>
    cases added
    exact start
  | cons w rest ih =>
    obtain ⟨first, step⟩ := List.forall_mem_cons.mp step
    obtain ⟨next, entered, added⟩ := bind_eq_ok added
    exact ih step (first m next start entered) added

/-- What entering one module keeps, entering all of them keeps. -/
theorem addModules_invariant {P : Design → Prop} {modules : List (Value × Value)}
    (step : ∀ e ∈ modules, ∀ d d', P d → addModule d e.1 e.2 = .ok d' → P d')
    (start : P d) (added : addModules d modules = .ok d') : P d' := by
  induction modules generalizing d with
  | nil =>
    cases added
    exact start
  | cons e rest ih =>
    obtain ⟨first, step⟩ := List.forall_mem_cons.mp step
    obtain ⟨next, entered, added⟩ := bind_eq_ok added
    exact ih step (first d next start entered) added

/-! ## The second pass -/

/-- A cell is described by a mapping with a type in it. Its ports are bound, the directions that it
notes are words for one, and it is placed under the name of its key. -/
theorem addCell_eq_ok (added : addCell d m key v = .ok m') :
    ∃ entries bound bindings directions notes, key.isWritable = true ∧
      description? v = some entries ∧ (Value.entry entries "type").isTruthy = true ∧
      (Value.entry entries "type").isWritable = true ∧
      fields (Value.entry entries "connections") = .ok bound ∧
      Document.bindings m
        (d.module? (Identifier.escape (Value.entry entries "type").name)).isSome ∅ bound =
          .ok bindings ∧
      fields (Value.entry entries "directions") = .ok directions ∧
      noted directions = .ok notes ∧
      (∀ note ∈ (Roster.ofList notes).toList, (Direction.ofWord? note.word).isSome = true) ∧
      m.addCell key.name (Identifier.escape (Value.entry entries "type").name) bindings
        (Roster.ofList notes) = .ok m' := by
  obtain ⟨name, named, added⟩ := bind_eq_ok added
  obtain ⟨writable, rfl⟩ := nameOf_eq_ok_iff.mp named
  split at added
  · exact absurd added failIn_ne_ok
  · next entries isCell =>
    dsimp only at added
    split at added
    · exact absurd added failIn_ne_ok
    · next typed =>
      obtain ⟨type, isType, added⟩ := bind_eq_ok added
      obtain ⟨typeWritable, rfl⟩ := nameOf_eq_ok_iff.mp isType
      obtain ⟨bound, isBound, added⟩ := bind_eq_ok added
      obtain ⟨bindings, read, added⟩ := bind_eq_ok added
      obtain ⟨directions, areDirections, added⟩ := bind_eq_ok added
      obtain ⟨notes, areNoted, added⟩ := bind_eq_ok added
      split at added
      · exact absurd added failIn_ne_ok
      · next allWords =>
        split at added
        · next placed =>
          cases added
          refine ⟨entries, bound, bindings, directions, notes, writable, isCell,
            by simpa using typed, typeWritable, isBound, read, areDirections, areNoted,
            fun note hn => ?_, placed⟩
          simpa [Option.isSome_iff_ne_none] using List.find?_eq_none.mp allWords note hn
        · exact absurd added failIn_ne_ok

/-- A connection has two sides, and both are signals with as many bits. -/
theorem connect_eq_ok {place : Nat} (made : connect m place v = .ok m') :
    ∃ left right target source, sides? v = some (left, right) ∧ signal m left = .ok target ∧
      signal m right = .ok source ∧ target.size = source.size ∧ m' = m.connect target source := by
  unfold connect at made
  split at made
  · next left right areSides =>
    obtain ⟨target, readTarget, made⟩ := bind_eq_ok made
    obtain ⟨source, readSource, made⟩ := bind_eq_ok made
    split at made
    · next size =>
      cases made
      exact ⟨left, right, target, source, areSides, readTarget, readSource, size, rfl⟩
    · exact absurd made failIn_ne_ok
  · exact absurd made failIn_ne_ok

/-- What placing one cell keeps, placing all of them keeps. -/
theorem addCells_invariant {P : Module → Prop} {cells : List (Value × Value)}
    (step : ∀ c ∈ cells, ∀ m m', P m → addCell d m c.1 c.2 = .ok m' → P m')
    (start : P m) (added : addCells d m cells = .ok m') : P m' := by
  induction cells generalizing m with
  | nil =>
    cases added
    exact start
  | cons c rest ih =>
    obtain ⟨first, step⟩ := List.forall_mem_cons.mp step
    obtain ⟨next, placed, added⟩ := bind_eq_ok added
    exact ih step (first m next start placed) added

/-- What making one connection keeps, making all of them keeps. -/
theorem connectAll_invariant {P : Module → Prop} {place : Nat} {connections : List Value}
    (step : ∀ k ∈ connections, ∀ place m m', P m → connect m place k = .ok m' → P m')
    (start : P m) (made : connectAll m place connections = .ok m') : P m' := by
  induction connections generalizing m place with
  | nil =>
    cases made
    exact start
  | cons k rest ih =>
    obtain ⟨first, step⟩ := List.forall_mem_cons.mp step
    obtain ⟨next, one, made⟩ := bind_eq_ok made
    exact ih step (first place m next start one) made

/-- A module that was entered is completed with its cells, connections and processes. -/
theorem complete_eq_ok (completed : complete d key v = .ok d') :
    d.module? (Identifier.escape key.name) = none ∧ d' = d ∨
    ∃ m entries cells m₁ connections m₂ processes texts,
      d.module? (Identifier.escape key.name) = some m ∧ fields v = .ok entries ∧
      fields (Value.entry entries "cells") = .ok cells ∧ addCells d m cells = .ok m₁ ∧
      items (Value.entry entries "connections") = .ok connections ∧
      connectAll m₁ 0 connections = .ok m₂ ∧
      items (Value.entry entries "processes") = .ok processes ∧
      namesOf processes = .ok texts ∧ d' = d.put (m₂.addProcesses texts) := by
  unfold complete at completed
  split at completed
  · next missing =>
    cases completed
    exact .inl ⟨missing, rfl⟩
  · next m found =>
    obtain ⟨entries, isModule, completed⟩ := bind_eq_ok completed
    obtain ⟨cells, areCells, completed⟩ := bind_eq_ok completed
    obtain ⟨m₁, placed, completed⟩ := bind_eq_ok completed
    obtain ⟨connections, areConnections, completed⟩ := bind_eq_ok completed
    obtain ⟨m₂, made, completed⟩ := bind_eq_ok completed
    obtain ⟨processes, areProcesses, completed⟩ := bind_eq_ok completed
    obtain ⟨texts, areTexts, completed⟩ := bind_eq_ok completed
    cases completed
    exact .inr ⟨m, entries, cells, m₁, connections, m₂, processes, texts, found, isModule, areCells,
      placed, areConnections, made, areProcesses, areTexts, rfl⟩

/-- What completing one module keeps, completing all of them keeps. -/
theorem completeAll_invariant {P : Design → Prop} {modules : List (Value × Value)}
    (step : ∀ e ∈ modules, ∀ d d', P d → complete d e.1 e.2 = .ok d' → P d')
    (start : P d) (completed : completeAll d modules = .ok d') : P d' := by
  induction modules generalizing d with
  | nil =>
    cases completed
    exact start
  | cons e rest ih =>
    obtain ⟨first, step⟩ := List.forall_mem_cons.mp step
    obtain ⟨next, one, completed⟩ := bind_eq_ok completed
    exact ih step (first d next start one) completed

/-! ## Both passes -/

/-- A document is a mapping with modules in it, which are entered in the first pass and completed in
the second; its top is one of them. -/
theorem design_eq_ok (accepted : design v asked = .ok d) :
    ∃ entries modules top d₁, v = .map entries ∧ Value.entry entries "modules" = .map modules ∧
      topName asked entries = .ok top ∧ addModules (Design.new top) modules = .ok d₁ ∧
      completeAll d₁ modules = .ok d ∧ missingTop? d = none := by
  unfold design at accepted
  split at accepted
  · split at accepted
    · next entries _ modules isModules =>
      obtain ⟨top, isTop, accepted⟩ := bind_eq_ok accepted
      obtain ⟨d₁, added, accepted⟩ := bind_eq_ok accepted
      obtain ⟨d₂, completed, accepted⟩ := bind_eq_ok accepted
      split at accepted
      · cases accepted
      · next hasTop =>
        cases accepted
        exact ⟨entries, modules, top, d₁, rfl, isModules, isTop, added, completed, hasTop⟩
    · cases accepted
  · cases accepted

end Document

end NearestMux
