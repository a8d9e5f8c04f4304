import NearestMux.Proofs.Netlist.Malformed
import NearestMux.Proofs.Netlist.WellFormed

/-!
# What a document is read as

Two passes of loops read a document. Here is what they come to, as a relation between the entries of
the document and the members of the design (`Document.Reads`): modules, wires, cells, connections
and processes answer to the entries one to one and in order. The relation knows no pass and no first
fault, and it is exact: a document gives a design just when it reads as it (`design_eq_ok_iff`).

What serves as a name in a document has to be written, so of each entry it is also said that its
names can be (`Value.isWritable`).

One clause of it is not one to one. The ports of a cell, and the directions that it notes, are set
one after the other, so of two entries under one name the later one takes the place of the earlier
(`CellRead.bindings`, `CellRead.notes`). Modules, wires and cells in that place are refused.

Every loop is taken apart in the same way, as a row of steps of which each enters one member. Two of
the steps need the rest of the module: a signal is read among the wires of the module, and a port is
filed by what the type of its cell is. Both are settled when the second pass begins.
-/

namespace NearestMux

/-! ## Rosters -/

namespace Roster

variable {α : Type} [Named α] {r r' : Roster α} {a b : α}

theorem ext_toList (same : r.toList = r'.toList) : r = r' := by
  cases r
  cases r'
  cases same
  rfl

theorem add?_eq_some_iff : r.add? a = some r' ↔ r'.toList = r.toList ++ [a] := by
  refine ⟨fun added => (toList_add? added).2, fun list => ?_⟩
  have free : Named.name a ∉ r.names := by
    have nodup := r'.nodup
    rw [list, List.map_append, List.nodup_append'] at nodup
    intro taken
    exact nodup.2.2 taken (by simp)
  rw [add?, dif_neg free]
  exact congrArg some (ext_toList list.symm)

theorem map_stepIn_of_notMem {xs : List α} (free : Named.name a ∉ xs.map Named.name) :
    xs.map (stepIn a) = xs := by
  have stays : ∀ c ∈ xs, stepIn a c = c := by
    intro c hc
    refine if_neg fun namesake => ?_
    exact free (namesake ▸ List.mem_map_of_mem hc)
  exact (List.map_congr_left stays).trans (List.map_id _)

/-- A member steps in for its namesake where that one stands. -/
theorem toList_put_of_split {before after : List α} (list : r.toList = before ++ b :: after)
    (same : Named.name a = Named.name b) : (r.put a).toList = before ++ a :: after := by
  have nodup := r.nodup
  rw [list, List.map_append, List.map_cons, List.nodup_middle, List.nodup_cons, List.mem_append,
    not_or, ← same] at nodup
  have taken : Named.name a ∈ r.names := by
    rw [names, list, same]
    exact List.mem_map_of_mem (by simp)
  rw [toList_put_of_mem taken, list, List.map_append, List.map_cons,
    map_stepIn_of_notMem nodup.1.1, map_stepIn_of_notMem nodup.1.2, stepIn, if_pos same.symm]

/-- What comes first in a roster is a roster. -/
theorem exists_of_append {xs ys : List α} (list : r.toList = xs ++ ys) :
    ∃ r' : Roster α, r'.toList = xs := by
  have nodup := r.nodup
  rw [list, List.map_append, List.nodup_append'] at nodup
  exact ⟨⟨xs, nodup.1⟩, rfl⟩

/-- Members of different names are entered as they stand. -/
theorem toList_foldl_put {xs : List α} (apart : (r.names ++ xs.map Named.name).Nodup) :
    (xs.foldl put r).toList = r.toList ++ xs := by
  induction xs generalizing r with
  | nil => simp
  | cons a rest ih =>
    have free : Named.name a ∉ r.names := by
      rw [List.map_cons, List.nodup_middle, List.nodup_cons, List.mem_append, not_or] at apart
      exact apart.1.1
    have names := names_put_of_not_mem r a free
    have list : (r.put a).toList = r.toList ++ [a] := by
      rw [put, dif_neg free]
    rw [List.foldl_cons, ih, list, List.append_assoc, List.singleton_append]
    rwa [names, List.append_assoc, List.singleton_append, ← List.map_cons]

theorem toList_ofList {xs : List α} (apart : (xs.map Named.name).Nodup) :
    (ofList xs).toList = xs := by
  rw [ofList, toList_foldl_put]
  · rfl
  · exact apart

theorem mem_of_mem_foldl_put {xs : List α} (h : a ∈ (xs.foldl put r).toList) :
    a ∈ r.toList ∨ a ∈ xs := by
  induction xs generalizing r with
  | nil => exact .inl h
  | cons b rest ih =>
    rcases ih h with entered | later
    · rcases mem_put entered with old | rfl
      · exact .inl old
      · exact .inr List.mem_cons_self
    · exact .inr (List.mem_cons_of_mem _ later)

/-- Nothing comes into a roster but what is entered. -/
theorem mem_of_mem_ofList {xs : List α} (h : a ∈ (ofList xs).toList) : a ∈ xs :=
  (mem_of_mem_foldl_put h).resolve_left List.not_mem_nil

/-- The names of members that answer to other things one to one are read off those. -/
theorem map_name_of_forall₂ {β : Type} {R : β → α → Prop} {name : β → String} {bs : List β}
    {as : List α} (each : List.Forall₂ R bs as) (named : ∀ b a, R b a → Named.name a = name b) :
    as.map Named.name = bs.map name := by
  induction each with
  | nil => rfl
  | cons first _ ih => rw [List.map_cons, List.map_cons, named _ _ first, ih]

/-- So those names differ when the members stand in a roster. -/
theorem nodup_of_forall₂ {β : Type} {R : β → α → Prop} {name : β → String} {bs : List β}
    (each : List.Forall₂ R bs r.toList) (named : ∀ b a, R b a → Named.name a = name b) :
    (bs.map name).Nodup := by
  rw [← map_name_of_forall₂ each named]
  exact r.nodup

end Roster

/-! ## What stands in a document -/

namespace Value

variable {v : Value}

/-- A mapping, or an empty value of any kind. -/
def IsFields (v : Value) : Prop := v.isTruthy = true → ∃ entries, v = .map entries

/-- A value that can be taken apart, or an empty one. -/
def IsRow (v : Value) : Prop := v.isTruthy = true → (Attributes.parts? v).isSome = true

/-- The parts of a value that stands for a row; an empty one has none. -/
def parts (v : Value) : List Value :=
  if v.isTruthy then (Attributes.parts? v).getD [] else []

theorem entries_of_not_isTruthy (empty : ¬ v.isTruthy = true) : v.entries = [] := by
  cases v with
  | map entries =>
    cases entries with
    | nil => rfl
    | cons => exact absurd rfl empty
  | _ => rfl

end Value

/-- A module as the first pass leaves it. -/
def Module.bare (m : Module) : Module := { Module.new m.name with wires := m.wires }

namespace Document

variable {m m' : Module} {d d' : Design} {v doc asked : Value} {e : Value × Value}

theorem fields_eq_ok_iff {entries : List (Value × Value)} :
    fields v = .ok entries ↔ v.IsFields ∧ entries = v.entries := by
  unfold fields
  split
  · next given =>
    cases v with
    | map found =>
      exact ⟨fun read => ⟨fun _ => ⟨found, rfl⟩, (Except.ok.inj read).symm⟩,
        fun same => congrArg Except.ok same.2.symm⟩
    | _ => exact ⟨nofun, fun same => nomatch same.1 given⟩
  · next empty =>
    rw [Value.entries_of_not_isTruthy empty]
    exact ⟨fun read => ⟨fun given => absurd given empty, (Except.ok.inj read).symm⟩,
      fun same => congrArg Except.ok same.2.symm⟩

theorem description?_eq_some_iff {entries : List (Value × Value)} :
    description? v = some entries ↔ v.IsFields ∧ entries = v.entries := by
  rw [← fields_eq_ok_iff]
  unfold description? fields
  split
  · cases v <;> simp
  · simp

theorem items_eq_ok_iff {row : List Value} :
    items v = .ok row ↔ v.IsRow ∧ row = v.parts := by
  unfold items Value.parts
  split
  · next given =>
    cases apart : Attributes.parts? v with
    | none => exact ⟨nofun, fun same => nomatch apart ▸ same.1 given⟩
    | some parts =>
      exact ⟨fun read => ⟨fun _ => apart ▸ rfl, (Except.ok.inj read).symm⟩,
        fun same => congrArg Except.ok same.2.symm⟩
  · next empty =>
    exact ⟨fun read => ⟨fun given => absurd given empty, (Except.ok.inj read).symm⟩,
      fun same => congrArg Except.ok same.2.symm⟩

/-- What a document notes about the directions of a cell's ports. -/
def directionEntries (cell : Value) : List (Value × Value) :=
  (Value.entry cell.entries "directions").entries

/-- The direct connections that a document gives a module, as they are read. -/
def connectionParts (module : Value) : List Value :=
  (Value.entry module.entries "connections").parts

/-- The processes that a document gives a module. -/
def processParts (module : Value) : List Value :=
  (Value.entry module.entries "processes").parts

/-- The type of a cell of a document, as it is filed. -/
def cellType (cell : Value) : String :=
  Identifier.escape (Value.entry cell.entries "type").name

/-- Whether a document files a module under a name, wherever it stands. -/
def declaresModule (doc : Value) (name : String) : Bool :=
  (filedNames (moduleEntries doc)).contains name

/-- The name under which a port is bound: in marked form when the cell is an instance. -/
def portName (isInstance : Bool) (port : Value) : String :=
  if isInstance then Identifier.escape port.name else port.name

/-- The attributes that a value gives a wire; an empty one gives none. -/
def givenAttributes (v : Value) : Except AttributesFault (List (String × Value)) :=
  if v.isTruthy then Attributes.ofValue v else .ok []

/-! ## What the members of a design are read from -/

/-- A wire of a module answers to an entry of the document. -/
structure WireRead (module : String) (e : Value × Value) (w : Declaration) : Prop where
  writable : e.1.isWritable = true
  described : e.2.IsFields
  name : w.name = Identifier.escape e.1.name
  width : ((Value.lookup? e.2.entries "width").getD (.int 1)).integer = .ok (w.width : Int)
  direction : wireDirection? (Value.entry e.2.entries "direction") = some (w.isInput, w.isOutput)
  attributes : givenAttributes (Value.entry e.2.entries "attributes") = .ok w.attributes
  origin : w.origin = .declared module

/-- A binding of a cell answers to an entry: under its port, with the signal as it is read. -/
structure BindingRead (read : Value → Except DocumentFault Signal) (isInstance : Bool)
    (e : Value × Value) (b : Binding) : Prop where
  writable : e.1.isWritable = true
  port : b.port = portName isInstance e.1
  signal : read e.2 = .ok b.signal

/-- A cell of a module answers to an entry. Its ports are set one after the other, and so are the
directions that it notes. -/
structure CellRead (isModule : String → Bool) (read : Value → Except DocumentFault Signal)
    (e : Value × Value) (c : Cell) : Prop where
  writable : e.1.isWritable = true
  described : e.2.IsFields
  name : c.name = Identifier.escape e.1.name
  typed : (Value.entry e.2.entries "type").isTruthy = true
  typeWritable : (Value.entry e.2.entries "type").isWritable = true
  type : c.type = cellType e.2
  bound : (Value.entry e.2.entries "connections").IsFields
  bindings : ∃ row, List.Forall₂ (BindingRead read (isModule c.type)) (bindingEntries e.2) row ∧
    c.bindings = Roster.ofList row
  noted : (Value.entry e.2.entries "directions").IsFields
  notesWritable : ∀ n ∈ directionEntries e.2, n.1.isWritable = true ∧ n.2.isWritable = true
  notes : c.notes = Roster.ofList ((directionEntries e.2).map noteOf)
  words : ∀ note ∈ c.notes.toList, (Direction.ofWord? note.word).isSome = true

/-- A direct connection answers to a part of the list: each side to one of a pair. -/
structure ConnectionRead (read : Value → Except DocumentFault Signal) (v : Value) (k : Connection) :
    Prop where
  sides : ∃ left right, sides? v = some (left, right) ∧ read left = .ok k.target ∧
    read right = .ok k.source
  size : k.target.size = k.source.size

/-- A module answers to an entry as far as its name and its wires go. -/
structure OutlineRead (e : Value × Value) (m : Module) : Prop where
  writable : e.1.isWritable = true
  described : e.2.IsFields
  name : m.name = Identifier.escape e.1.name
  wiresGiven : (Value.entry e.2.entries "wires").IsFields
  wires : List.Forall₂ (WireRead m.name) (wireEntries e.2) m.wires.toList

/-- A module answers to an entry, and its members to what stands in it, one to one and in order.
What it takes for a cell to answer to its entry is left open. -/
structure ModuleRead
    (cell : (Value → Except DocumentFault Signal) → Value × Value → Cell → Prop)
    (e : Value × Value) (m : Module) : Prop extends OutlineRead e m where
  cellsGiven : (Value.entry e.2.entries "cells").IsFields
  cells : List.Forall₂ (cell (signal m)) (cellEntries e.2) m.cells.toList
  connectionsGiven : (Value.entry e.2.entries "connections").IsRow
  connections : List.Forall₂ (ConnectionRead (signal m)) (connectionParts e.2) m.connections
  processesGiven : (Value.entry e.2.entries "processes").IsRow
  processesWritable : ∀ v ∈ processParts e.2, v.isWritable = true
  processes : m.processes = (processParts e.2).map Value.name

/-- A design is what a document is read as: its modules answer to the entries one to one and in
order, and its top is the one that is asked for or named, and is there. -/
structure Reads (doc asked : Value) (d : Design) : Prop where
  mapping : ∃ entries modules, doc = .map entries ∧ Value.entry entries "modules" = .map modules
  top : ∃ top, topName asked doc.entries = .ok top ∧ d.top = (Design.new top).top
  selection : d.selection = .everything
  modules : List.Forall₂ (ModuleRead (CellRead (declaresModule doc))) (moduleEntries doc)
    d.modules.toList
  hasTop : missingTop? d = none

/-! ## Loops -/

theorem bind_ok {α β : Type} {x : Except DocumentFault α} {f : α → Except DocumentFault β} {a : α}
    {b : β} (first : x = .ok a) (next : f a = .ok b) : (x >>= f) = .ok b := by
  rw [first]
  exact next

/-- A loop fills a roster: each of its steps enters one member, and nothing else is in its state. -/
structure Fills {σ α β : Type} [Named α] (loop : σ → List β → Except DocumentFault σ)
    (step : σ → β → Except DocumentFault σ) (state : Roster α → σ) (enters : β → α → Prop) :
    Prop where
  nil : ∀ s, loop s [] = .ok s
  cons : ∀ s b rest, loop s (b :: rest) = step s b >>= fun s => loop s rest
  step : ∀ r b s', step (state r) b = .ok s' ↔
    ∃ a r', enters b a ∧ r'.toList = r.toList ++ [a] ∧ s' = state r'

/-- What a loop has entered answers to its entries one to one and in order, and any row that does so
is entered. -/
theorem Fills.eq_ok_iff {σ α β : Type} [Named α] {loop : σ → List β → Except DocumentFault σ}
    {step : σ → β → Except DocumentFault σ} {state : Roster α → σ} {enters : β → α → Prop}
    (fills : Fills loop step state enters) {r : Roster α} {s' : σ} {bs : List β} :
    loop (state r) bs = .ok s' ↔ ∃ row r', List.Forall₂ enters bs row ∧
      r'.toList = r.toList ++ row ∧ s' = state r' := by
  induction bs generalizing r with
  | nil =>
    rw [fills.nil]
    constructor
    · intro same
      cases same
      exact ⟨[], r, .nil, (List.append_nil _).symm, rfl⟩
    · rintro ⟨row, r', each, list, rfl⟩
      cases each
      rw [List.append_nil] at list
      rw [Roster.ext_toList list]
  | cons b rest ih =>
    rw [fills.cons]
    constructor
    · intro ran
      obtain ⟨s₁, first, ran⟩ := bind_eq_ok ran
      obtain ⟨a, r₁, entered, list, rfl⟩ := (fills.step r b s₁).mp first
      obtain ⟨row, r', each, list', rfl⟩ := ih.mp ran
      rw [list, List.append_assoc] at list'
      exact ⟨a :: row, r', .cons entered each, list', rfl⟩
    · rintro ⟨_, r', each, list, rfl⟩
      cases each with
      | @cons _ a _ row entered each =>
        rw [← List.singleton_append, ← List.append_assoc] at list
        obtain ⟨r₁, list₁⟩ := Roster.exists_of_append list
        rw [← list₁] at list
        exact bind_ok ((fills.step r b _).mpr ⟨a, r₁, entered, list₁, rfl⟩)
          (ih.mpr ⟨row, r', each, list, rfl⟩)

theorem Fills.eq_ok_iff_of_empty {σ α β : Type} [Named α]
    {loop : σ → List β → Except DocumentFault σ} {step : σ → β → Except DocumentFault σ}
    {state : Roster α → σ} {enters : β → α → Prop} (fills : Fills loop step state enters) {s' : σ}
    {bs : List β} :
    loop (state ∅) bs = .ok s' ↔ ∃ r, List.Forall₂ enters bs r.toList ∧ s' = state r := by
  rw [fills.eq_ok_iff]
  constructor
  · rintro ⟨row, r, each, list, rfl⟩
    rw [← show r.toList = row from list] at each
    exact ⟨r, each, rfl⟩
  · rintro ⟨r, each, rfl⟩
    exact ⟨r.toList, r, each, rfl, rfl⟩

/-! ## The first pass -/

theorem wireWidth_eq_ok_iff {entries : List (Value × Value)} {width : Int} :
    wireWidth m entries = .ok width ↔
      ((Value.lookup? entries "width").getD (.int 1)).integer = .ok width := by
  unfold wireWidth
  split
  · next given =>
    rw [given]
    exact ⟨fun same => congrArg _ (Except.ok.inj same), fun same => congrArg _ (Except.ok.inj same)⟩
  all_goals
    next given =>
      rw [given]
      exact ⟨nofun, nofun⟩

theorem wireAttributes_eq_ok_iff {entries : List (Value × Value)}
    {attributes : List (String × Value)} :
    wireAttributes m entries = .ok attributes ↔
      givenAttributes (Value.entry entries "attributes") = .ok attributes := by
  unfold wireAttributes givenAttributes
  dsimp only
  split
  · split
    · next read =>
      rw [read]
      exact ⟨fun same => congrArg _ (Except.ok.inj same),
        fun same => congrArg _ (Except.ok.inj same)⟩
    all_goals
      next read =>
        rw [read]
        exact ⟨nofun, nofun⟩
  · exact ⟨fun same => congrArg _ (Except.ok.inj same),
      fun same => congrArg _ (Except.ok.inj same)⟩

/-- What is to be asked for, for a wire to come out as it is. -/
def requestOf (key : Value) (w : Declaration) : WireRequest :=
  ⟨key.name, w.width, w.isInput, w.isOutput, w.attributes⟩

theorem declaration_requestOf {module : String} {w : Declaration} (read : WireRead module e w) :
    (requestOf e.1 w).declaration module = w := by
  obtain ⟨-, -, named, -, -, -, origin⟩ := read
  obtain ⟨⟨name, width, origin⟩, role, attributes⟩ := w
  cases named
  cases origin
  rcases role with _ | _ | _ <;> rfl

theorem fault?_requestOf (key : Value) (w : Declaration) : (requestOf key w).fault? = none := by
  have width : ¬ (w.width : Int) < 0 := not_lt.mpr (Int.natCast_nonneg _)
  obtain ⟨wire, role, attributes⟩ := w
  rcases role with _ | _ | _ <;> exact (if_neg width).trans (if_neg nofun)

/-- A step of the loop over the wires enters one wire. -/
theorem addWire_eq_ok_iff : addWire m e.1 e.2 = .ok m' ↔
    ∃ w wires, WireRead m.name e w ∧ wires.toList = m.wires.toList ++ [w] ∧
      m' = { m with wires := wires } := by
  constructor
  · intro added
    obtain ⟨entries, input, output, width, attributes, writable, isWire, direction, isWidth,
      areAttributes, entered⟩ := addWire_eq_ok added
    obtain ⟨described, rfl⟩ := description?_eq_some_iff.mp isWire
    unfold Module.addWire at entered
    split at entered
    · cases entered
    · cases entered
    · next wires place inOrder =>
      cases entered
      obtain ⟨exact_width, isInput, isOutput⟩ :=
        WireRequest.declaration_of_fault? inOrder m.name
      refine ⟨_, wires, ⟨writable, described, rfl, ?_, ?_,
        wireAttributes_eq_ok_iff.mp areAttributes, rfl⟩, Roster.add?_eq_some_iff.mp place, rfl⟩
      · rw [exact_width]
        exact wireWidth_eq_ok_iff.mp isWidth
      · rw [isInput, isOutput]
        exact direction
  · rintro ⟨w, wires, read, list, rfl⟩
    have place : m.wires.add? ((requestOf e.1 w).declaration m.name) = some wires := by
      rw [declaration_requestOf read]
      exact Roster.add?_eq_some_iff.mpr list
    have entered : m.addWire (requestOf e.1 w) = .ok { m with wires := wires } := by
      rw [Module.addWire, place, fault?_requestOf]
    have isWire := description?_eq_some_iff.mpr ⟨read.described, rfl⟩
    have isWidth : wireWidth m e.2.entries = .ok (w.width : Int) :=
      wireWidth_eq_ok_iff.mpr read.width
    have areAttributes : wireAttributes m e.2.entries = .ok w.attributes :=
      wireAttributes_eq_ok_iff.mpr read.attributes
    rw [requestOf] at entered
    refine bind_ok (nameOf_of_isWritable read.writable) ?_
    simp only [isWire, read.direction]
    refine bind_ok isWidth (bind_ok areAttributes ?_)
    rw [entered]
    rfl

theorem fills_addWires (m : Module) :
    Fills addWires (fun m e => addWire m e.1 e.2) (fun wires => { m with wires := wires })
      (WireRead m.name) where
  nil := fun _ => rfl
  cons := fun _ _ _ => rfl
  step := fun _ _ _ => addWire_eq_ok_iff

theorem addWires_new_eq_ok_iff {name : String} {wires : List (Value × Value)} :
    addWires (Module.new name) wires = .ok m ↔
      m.bare = m ∧ m.name = name ∧ List.Forall₂ (WireRead name) wires m.wires.toList := by
  refine (fills_addWires (Module.new name)).eq_ok_iff_of_empty.trans ⟨?_, ?_⟩
  · rintro ⟨roster, each, rfl⟩
    exact ⟨rfl, rfl, each⟩
  · rintro ⟨bare, rfl, each⟩
    exact ⟨m.wires, each, bare.symm⟩

/-- A step of the loop over the modules enters one module, with nothing but its wires. -/
theorem addModule_eq_ok_iff : addModule d e.1 e.2 = .ok d' ↔
    ∃ m modules, (OutlineRead e m ∧ m.bare = m) ∧ modules.toList = d.modules.toList ++ [m] ∧
      d' = { d with modules := modules } := by
  constructor
  · intro added
    obtain ⟨d₁, entries, wires, m, writable, entered, isModule, isWires, filled, rfl⟩ :=
      addModule_eq_ok added
    obtain ⟨described, rfl⟩ := fields_eq_ok_iff.mp isModule
    obtain ⟨wiresGiven, rfl⟩ := fields_eq_ok_iff.mp isWires
    obtain ⟨bare, named, each⟩ := addWires_new_eq_ok_iff.mp filled
    unfold Design.addModule at entered
    split at entered
    · cases entered
    · next place =>
      cases entered
      exact ⟨m, _, ⟨⟨writable, described, named, wiresGiven, named.symm ▸ each⟩, bare⟩,
        Roster.toList_put_of_add? place named, rfl⟩
  · rintro ⟨m, modules, ⟨outline, bare⟩, list, rfl⟩
    have isModule := fields_eq_ok_iff.mpr ⟨outline.described, rfl⟩
    have isWires := fields_eq_ok_iff.mpr ⟨outline.wiresGiven, rfl⟩
    have filled := addWires_new_eq_ok_iff.mpr ⟨bare, outline.name, outline.name ▸ outline.wires⟩
    obtain ⟨free, -⟩ := Roster.toList_add? (Roster.add?_eq_some_iff.mpr list)
    rw [show Named.name m = _ from outline.name] at free
    obtain ⟨place, isPlace⟩ : ∃ place,
        d.modules.add? (Module.new (Identifier.escape e.1.name)) = some place := ⟨_, dif_neg free⟩
    have entered : d.addModule e.1.name = .ok { d with modules := place } := by
      rw [Design.addModule, isPlace]
    have placed : place.put m = modules :=
      Roster.ext_toList ((Roster.toList_put_of_add? isPlace outline.name).trans list.symm)
    refine bind_ok (nameOf_of_isWritable outline.writable) ?_
    simp only [entered]
    refine bind_ok isModule (bind_ok isWires (bind_ok filled ?_))
    rw [Design.put, placed]
    rfl

theorem fills_addModules (d : Design) :
    Fills addModules (fun d e => addModule d e.1 e.2)
      (fun modules => { d with modules := modules }) (fun e m => OutlineRead e m ∧ m.bare = m) where
  nil := fun _ => rfl
  cons := fun _ _ _ => rfl
  step := fun _ _ _ => addModule_eq_ok_iff

/-! ## The second pass -/

theorem bindings_eq_ok_iff {isInstance : Bool} {done bound : Roster Binding}
    {entries : List (Value × Value)} :
    bindings m isInstance done entries = .ok bound ↔
      ∃ row, List.Forall₂ (BindingRead (signal m) isInstance) entries row ∧
        bound = row.foldl Roster.put done := by
  induction entries generalizing done with
  | nil =>
    constructor
    · intro read
      cases read
      exact ⟨[], .nil, rfl⟩
    · rintro ⟨row, each, rfl⟩
      cases each
      rfl
  | cons first rest ih =>
    constructor
    · intro read
      obtain ⟨port, isPort, read⟩ := bind_eq_ok read
      obtain ⟨writable, rfl⟩ := nameOf_eq_ok_iff.mp isPort
      obtain ⟨s, readSignal, read⟩ := bind_eq_ok read
      obtain ⟨row, each, rfl⟩ := ih.mp read
      exact ⟨⟨_, s⟩ :: row, .cons ⟨writable, rfl, readSignal⟩ each, rfl⟩
    · rintro ⟨_, each, rfl⟩
      cases each with
      | @cons _ b _ row entered each =>
        obtain ⟨port, s⟩ := b
        obtain ⟨writable, rfl, readSignal⟩ := entered
        refine bind_ok (nameOf_of_isWritable writable) (bind_ok readSignal ?_)
        exact ih.mpr ⟨row, each, rfl⟩

theorem addCell_of_steps {key : Value} {entries bound directions : List (Value × Value)}
    {bindings : Roster Binding} {notes : List DirectionNote} (writable : key.isWritable = true)
    (isCell : description? v = some entries)
    (typed : (Value.entry entries "type").isTruthy = true)
    (typeWritable : (Value.entry entries "type").isWritable = true)
    (isBound : fields (Value.entry entries "connections") = .ok bound)
    (read : Document.bindings m
      (d.module? (Identifier.escape (Value.entry entries "type").name)).isSome ∅ bound =
        .ok bindings)
    (areDirections : fields (Value.entry entries "directions") = .ok directions)
    (areNoted : noted directions = .ok notes)
    (words : ∀ note ∈ (Roster.ofList notes).toList, (Direction.ofWord? note.word).isSome = true)
    (placed : m.addCell key.name (Identifier.escape (Value.entry entries "type").name) bindings
      (Roster.ofList notes) = .ok m') : addCell d m key v = .ok m' := by
  have allWords : (Roster.ofList notes).toList.find?
      (fun note => (Direction.ofWord? note.word).isNone) = none := by
    refine List.find?_eq_none.mpr fun note hn => ?_
    simpa [Option.isSome_iff_ne_none] using words note hn
  refine bind_ok (nameOf_of_isWritable writable) ?_
  simp only [isCell, typed, Bool.not_true, Bool.false_eq_true, if_false]
  refine bind_ok (nameOf_of_isWritable typeWritable) (bind_ok isBound (bind_ok read ?_))
  refine bind_ok areDirections (bind_ok areNoted ?_)
  rw [allWords]
  dsimp only
  rw [placed]
  rfl

/-- A step of the loop over the cells enters one cell. -/
theorem addCell_eq_ok_iff : addCell d m e.1 e.2 = .ok m' ↔
    ∃ c cells, CellRead (fun type => (d.module? type).isSome) (signal m) e c ∧
      cells.toList = m.cells.toList ++ [c] ∧ m' = { m with cells := cells } := by
  constructor
  · intro added
    obtain ⟨entries, bound, bindings, directions, notes, writable, isCell, typed, typeWritable,
      isBound, read, areDirections, areNoted, words, placed⟩ := addCell_eq_ok added
    obtain ⟨described, rfl⟩ := description?_eq_some_iff.mp isCell
    obtain ⟨boundGiven, rfl⟩ := fields_eq_ok_iff.mp isBound
    obtain ⟨notedGiven, rfl⟩ := fields_eq_ok_iff.mp areDirections
    obtain ⟨notesWritable, rfl⟩ := noted_eq_ok_iff.mp areNoted
    obtain ⟨row, each, rfl⟩ := bindings_eq_ok_iff.mp read
    unfold Module.addCell at placed
    split at placed
    · cases placed
    · next cells place =>
      cases placed
      rw [Identifier.escape_escape] at place
      exact ⟨_, cells, ⟨writable, described, rfl, typed, typeWritable, rfl, boundGiven,
        ⟨row, each, rfl⟩, notedGiven, notesWritable, rfl, words⟩,
        Roster.add?_eq_some_iff.mp place, rfl⟩
  · rintro ⟨c, cells, read, list, rfl⟩
    obtain ⟨name, type, bindings, notes⟩ := c
    obtain ⟨writable, described, rfl, typed, typeWritable, rfl, boundGiven, ⟨row, each, rfl⟩,
      notedGiven, notesWritable, rfl, words⟩ := read
    have isCell := description?_eq_some_iff.mpr ⟨described, rfl⟩
    have isBound := fields_eq_ok_iff.mpr ⟨boundGiven, rfl⟩
    have areDirections := fields_eq_ok_iff.mpr ⟨notedGiven, rfl⟩
    refine addCell_of_steps writable isCell typed typeWritable isBound
      (bindings_eq_ok_iff.mpr ⟨row, each, rfl⟩) areDirections
      (noted_eq_ok_iff.mpr ⟨notesWritable, rfl⟩) words ?_
    have place : m.cells.add? ⟨Identifier.escape e.1.name, cellType e.2, row.foldl Roster.put ∅,
        Roster.ofList ((Value.entry e.2.entries "directions").entries.map noteOf)⟩ = some cells :=
      Roster.add?_eq_some_iff.mpr list
    rw [Module.addCell, Identifier.escape_escape, ← cellType, place]

theorem fills_addCells (d : Design) (m : Module) :
    Fills (addCells d) (fun m e => addCell d m e.1 e.2)
      (fun cells => { m with cells := cells })
      (CellRead (fun type => (d.module? type).isSome) (signal m)) where
  nil := fun _ => rfl
  cons := fun _ _ _ => rfl
  step := fun _ _ _ => addCell_eq_ok_iff

theorem connect_eq_ok_iff {place : Nat} : connect m place v = .ok m' ↔
    ∃ k, ConnectionRead (signal m) v k ∧ m' = { m with connections := m.connections ++ [k] } := by
  constructor
  · intro made
    obtain ⟨left, right, target, source, areSides, readTarget, readSource, size, rfl⟩ :=
      connect_eq_ok made
    exact ⟨⟨target, source⟩, ⟨⟨left, right, areSides, readTarget, readSource⟩, size⟩, rfl⟩
  · rintro ⟨⟨target, source⟩, ⟨⟨left, right, areSides, readTarget, readSource⟩, size⟩, rfl⟩
    rw [connect, areSides]
    refine bind_ok readTarget (bind_ok readSource ?_)
    exact if_pos size

theorem connectAll_eq_ok_iff {place : Nat} {parts : List Value} :
    connectAll m place parts = .ok m' ↔ ∃ row, List.Forall₂ (ConnectionRead (signal m)) parts row ∧
      m' = { m with connections := m.connections ++ row } := by
  induction parts generalizing m place with
  | nil =>
    constructor
    · intro made
      cases made
      exact ⟨[], .nil, by rw [List.append_nil]⟩
    · rintro ⟨row, each, rfl⟩
      cases each
      rw [List.append_nil]
      rfl
  | cons v rest ih =>
    constructor
    · intro made
      obtain ⟨m₁, one, made⟩ := bind_eq_ok made
      obtain ⟨k, read, rfl⟩ := connect_eq_ok_iff.mp one
      obtain ⟨row, each, rfl⟩ := ih.mp made
      exact ⟨k :: row, .cons read each, by rw [List.append_assoc, List.singleton_append]⟩
    · rintro ⟨_, each, rfl⟩
      cases each with
      | @cons _ k _ row read each =>
        refine bind_ok (connect_eq_ok_iff.mpr ⟨k, read, rfl⟩) (ih.mpr ⟨row, each, ?_⟩)
        rw [List.append_assoc, List.singleton_append]

/-- The second pass completes a module that the first one left bare. -/
theorem complete_eq_ok_iff {b : Module} (found : d.module? b.name = some b) (bare : b.bare = b)
    (outline : OutlineRead e b) : complete d e.1 e.2 = .ok d' ↔
      ∃ m, ModuleRead (CellRead fun type => (d.module? type).isSome) e m ∧ m.bare = b ∧
        d' = d.put m := by
  rw [outline.name] at found
  constructor
  · intro completed
    rcases complete_eq_ok completed with ⟨missing, -⟩ |
      ⟨m, entries, cells, m₁, parts, m₂, processes, texts, found', isModule, areCells, placed,
        areParts, made, areProcesses, areTexts, rfl⟩
    · rw [found] at missing
      cases missing
    · rw [found] at found'
      cases found'
      obtain ⟨-, rfl⟩ := fields_eq_ok_iff.mp isModule
      obtain ⟨cellsGiven, rfl⟩ := fields_eq_ok_iff.mp areCells
      obtain ⟨partsGiven, rfl⟩ := items_eq_ok_iff.mp areParts
      obtain ⟨textsGiven, rfl⟩ := items_eq_ok_iff.mp areProcesses
      obtain ⟨textsWritable, rfl⟩ := namesOf_eq_ok_iff.mp areTexts
      rw [← bare] at placed
      obtain ⟨cells, eachCell, rfl⟩ := (fills_addCells d b.bare).eq_ok_iff_of_empty.mp placed
      obtain ⟨row, eachPart, rfl⟩ := connectAll_eq_ok_iff.mp made
      refine ⟨⟨b.name, b.wires, cells, row, (processParts e.2).map Value.name⟩, ?_, bare, rfl⟩
      exact ⟨⟨outline.writable, outline.described, outline.name, outline.wiresGiven, outline.wires⟩,
        cellsGiven, eachCell, partsGiven, eachPart, textsGiven, textsWritable, rfl⟩
  · rintro ⟨m, read, rfl, rfl⟩
    have isModule := fields_eq_ok_iff.mpr ⟨read.described, rfl⟩
    have areCells := fields_eq_ok_iff.mpr ⟨read.cellsGiven, rfl⟩
    have areParts := items_eq_ok_iff.mpr ⟨read.connectionsGiven, rfl⟩
    have areProcesses := items_eq_ok_iff.mpr ⟨read.processesGiven, rfl⟩
    have areTexts := namesOf_eq_ok_iff.mpr ⟨read.processesWritable, rfl⟩
    have placed := (fills_addCells d m.bare).eq_ok_iff_of_empty.mpr ⟨m.cells, read.cells, rfl⟩
    have made : connectAll { m.bare with cells := m.cells } 0 (connectionParts e.2) =
        .ok { m.bare with cells := m.cells, connections := m.connections } :=
      connectAll_eq_ok_iff.mpr ⟨m.connections, read.connections, rfl⟩
    unfold complete
    rw [found]
    refine bind_ok isModule (bind_ok areCells (bind_ok placed (bind_ok areParts ?_)))
    refine bind_ok made (bind_ok areProcesses (bind_ok areTexts ?_))
    rw [← read.processes]
    rfl

theorem module?_isSome_eq (d : Design) :
    (fun type => (d.module? type).isSome) = d.modules.names.contains := by
  funext type
  rw [Bool.eq_iff_iff, List.contains_iff_mem]
  exact module?_isSome_iff

/-- A completed module stands where the bare one stood. -/
theorem put_of_bare {names : List String} {done pending : List Module}
    (known : d.modules.names = names) (modules : d.modules.toList = done ++ m.bare :: pending) :
    (d.put m).modules.names = names ∧ (d.put m).modules.toList = done ++ [m] ++ pending := by
  have taken : Named.name m ∈ d.modules.names := by
    rw [Roster.names, modules]
    exact List.mem_map.mpr ⟨m.bare, by simp, rfl⟩
  refine ⟨(Roster.names_put_of_mem _ _ taken).trans known, ?_⟩
  rw [List.append_assoc]
  exact Roster.toList_put_of_split modules rfl

/-- The second pass takes the bare modules one by one, in the order in which they stand. The names
stay, so what an instance is does not change on the way. -/
theorem completeAll_eq_ok_iff {entries : List (Value × Value)} {done pending : List Module}
    {names : List String} (known : d.modules.names = names)
    (modules : d.modules.toList = done ++ pending)
    (outlines : List.Forall₂ (fun e b => OutlineRead e b ∧ b.bare = b) entries pending) :
    completeAll d entries = .ok d' ↔
      ∃ row roster, List.Forall₂ (ModuleRead (CellRead names.contains)) entries row ∧
        row.map Module.bare = pending ∧ roster.toList = done ++ row ∧
        d' = { d with modules := roster } := by
  induction outlines generalizing d done with
  | nil =>
    constructor
    · intro same
      cases same
      exact ⟨[], _, .nil, rfl, modules, rfl⟩
    · rintro ⟨row, roster, each, -, list, rfl⟩
      cases each
      rw [Roster.ext_toList (list.trans modules.symm)]
      rfl
  | @cons e b rest pending outline outlines ih =>
    have found : d.module? b.name = some b :=
      d.module?_eq_some_iff.mpr ⟨by rw [modules]; simp, rfl⟩
    have step : ∀ d', complete d e.1 e.2 = .ok d' ↔
        ∃ m, ModuleRead (CellRead names.contains) e m ∧ m.bare = b ∧ d' = d.put m := by
      intro d'
      rw [complete_eq_ok_iff found outline.2 outline.1, module?_isSome_eq, known]
    constructor
    · intro completed
      obtain ⟨d₁, one, completed⟩ := bind_eq_ok completed
      obtain ⟨m, read, rfl, rfl⟩ := (step d₁).mp one
      obtain ⟨known, modules⟩ := put_of_bare known modules
      obtain ⟨row, roster, each, rfl, list, rfl⟩ := (ih known modules).mp completed
      rw [List.append_assoc] at list
      exact ⟨m :: row, roster, .cons read each, rfl, list, rfl⟩
    · rintro ⟨_, roster, each, same, list, rfl⟩
      cases each with
      | @cons _ m _ row read each =>
        obtain ⟨rfl, rfl⟩ := List.cons.inj same
        obtain ⟨known, modules⟩ := put_of_bare known modules
        rw [← List.singleton_append, ← List.append_assoc] at list
        exact bind_ok ((step _).mpr ⟨m, read, rfl, rfl⟩)
          ((ih known modules).mpr ⟨row, roster, each, rfl, list, rfl⟩)

/-! ## Both passes -/

theorem moduleEntries_map {entries modules : List (Value × Value)}
    (isModules : Value.entry entries "modules" = .map modules) :
    moduleEntries (.map entries) = modules := by
  rw [moduleEntries, Value.entries, isModules, Value.entries]

theorem reads_of_design (accepted : design doc asked = .ok d) : Reads doc asked d := by
  obtain ⟨entries, modules, top, d₁, rfl, isModules, isTop, added, completed, hasTop⟩ :=
    design_eq_ok accepted
  obtain ⟨roster, outlines, rfl⟩ := (fills_addModules (Design.new top)).eq_ok_iff_of_empty.mp added
  have known : roster.names = filedNames modules :=
    Roster.map_name_of_forall₂ outlines fun _ _ outline => outline.1.name
  obtain ⟨row, roster', each, -, list, rfl⟩ :=
    (completeAll_eq_ok_iff known (List.nil_append _).symm outlines).mp completed
  rw [List.nil_append] at list
  refine ⟨⟨entries, modules, rfl, isModules⟩, ⟨top, isTop, rfl⟩, rfl, ?_, hasTop⟩
  unfold declaresModule
  rw [moduleEntries_map isModules, list]
  exact each

theorem design_of_reads (reads : Reads doc asked d) : design doc asked = .ok d := by
  obtain ⟨entries, modules, rfl, isModules⟩ := reads.mapping
  obtain ⟨top, isTop, isNamed⟩ := reads.top
  have each := reads.modules
  unfold declaresModule at each
  rw [moduleEntries_map isModules] at each
  have nodup : ((d.modules.toList.map Module.bare).map Named.name).Nodup := by
    rw [List.map_map]
    exact d.modules.nodup
  -- what the first pass leaves to the second
  let bare : Design := { Design.new top with modules := ⟨_, nodup⟩ }
  have outlines : List.Forall₂ (fun e b => OutlineRead e b ∧ b.bare = b) modules
      bare.modules.toList := by
    refine List.forall₂_map_right_iff.mpr (each.imp fun e m read => ⟨?_, rfl⟩)
    exact ⟨read.writable, read.described, read.name, read.wiresGiven, read.wires⟩
  have known : bare.modules.names = filedNames modules :=
    Roster.map_name_of_forall₂ outlines fun _ _ outline => outline.1.name
  have added : addModules (Design.new top) modules = .ok bare :=
    (fills_addModules (Design.new top)).eq_ok_iff_of_empty.mpr ⟨bare.modules, outlines, rfl⟩
  have whole : ({ bare with modules := d.modules } : Design) = d :=
    congrArg₂ (Design.mk d.modules) isNamed.symm reads.selection.symm
  have completed : completeAll bare modules = .ok d :=
    (completeAll_eq_ok_iff known (List.nil_append _).symm outlines).mpr
      ⟨d.modules.toList, d.modules, each, rfl, rfl, whole.symm⟩
  simp only [design, isModules]
  refine bind_ok isTop (bind_ok added (bind_ok completed ?_))
  rw [reads.hasTop]
  rfl

/-- A document gives a design just when it reads as it. -/
theorem design_eq_ok_iff : design doc asked = .ok d ↔ Reads doc asked d :=
  ⟨reads_of_design, design_of_reads⟩

end Document

end NearestMux
