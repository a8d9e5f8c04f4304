import Mathlib.Data.List.Nodup
import NearestMux.Proofs.Netlist.WellFormed

/-!
# What a document of the right shape can fail with

A document has the right shape when a mapping, a list or a text stands wherever one is wanted, or
nothing stands there (`Document.Shape`). Names, signals and whatever else a document writes are
free. Of such a document every fault should be a fault of the format.

Four kinds are not (`Document.Fails`). A module whose name is taken is refused as a declaration,
while a wire or a cell in that place is a fault of the format; two names are taken for one as soon
as they are marked alike. An attribute that is called like one of the words that describe a wire is
a value of a wrong kind. And two kinds come of sizes that nothing can have: a constant that would be
filled up too far, and a number of too many digits, read in a signal or written in a name or in the
text of a fault (`Document.Overlong`).

`Document.design_fails` says that nothing else escapes, and that a document without what leads to
the four (`Document.Plain`) gives a design or a fault of the format.

Which fault is the one that is told follows from the order of the two passes and is not said here.
Of the passes one thing is needed: what the second one finds under the name of an entry is what the
first one made of it (`Document.Made`), for the sizes of signals depend on the wires of the module.
-/

namespace NearestMux

/-! ## Shapes -/

namespace Value

/-- The entries of a mapping; any other value has none. -/
def entries : Value → List (Value × Value)
  | .map entries => entries
  | _ => []

/-- The items of a list; any other value has none. -/
def items : Value → List Value
  | .list items => items
  | _ => []

/-- A mapping or the absent value. -/
inductive IsMapping : Value → Prop where
  | null : IsMapping .null
  | map (entries : List (Value × Value)) : IsMapping (.map entries)

/-- A list or the absent value. -/
inductive IsList : Value → Prop where
  | null : IsList .null
  | list (items : List Value) : IsList (.list items)

/-- A text or the absent value. -/
inductive IsText : Value → Prop where
  | null : IsText .null
  | text (s : String) : IsText (.text s)

/-! ### What can be written -/

theorem areWritable_iff {items : List Value} :
    areWritable items = true ↔ ∀ v ∈ items, v.isWritable = true := by
  induction items with
  | nil => simp [areWritable]
  | cons v rest ih => rw [areWritable, Bool.and_eq_true, ih, List.forall_mem_cons]

theorem entriesAreWritable_iff {entries : List (Value × Value)} :
    entriesAreWritable entries = true ↔
      ∀ e ∈ entries, e.1.isWritable = true ∧ e.2.isWritable = true := by
  induction entries with
  | nil => simp [entriesAreWritable]
  | cons e rest ih =>
    obtain ⟨key, value⟩ := e
    rw [entriesAreWritable, Bool.and_eq_true, Bool.and_eq_true, ih, List.forall_mem_cons]

variable {v : Value}

/-- What stands in a mapping that can be written can be written. -/
theorem isWritable_of_mem_entries (writable : v.isWritable = true) :
    ∀ e ∈ v.entries, e.1.isWritable = true ∧ e.2.isWritable = true := by
  cases v with
  | map entries => exact entriesAreWritable_iff.mp (by rwa [isWritable] at writable)
  | _ => exact List.forall_mem_nil _

/-- What stands in a value that can be written can be written. -/
theorem isWritable_of_mem_items (writable : v.isWritable = true) :
    ∀ part ∈ v.items, part.isWritable = true := by
  cases v with
  | list items => exact areWritable_iff.mp (by rwa [isWritable] at writable)
  | _ => exact List.forall_mem_nil _

/-- What is found in a value that can be written can be written. -/
theorem isWritable_of_lookup? {name : String} {found : Value} (writable : v.isWritable = true)
    (read : lookup? v.entries name = some found) : found.isWritable = true := by
  obtain ⟨e, isEntry, rfl⟩ := Option.map_eq_some_iff.mp read
  exact (isWritable_of_mem_entries writable e (List.mem_of_find?_eq_some isEntry)).2

theorem isWritable_entry (writable : v.isWritable = true) (name : String) :
    (entry v.entries name).isWritable = true := by
  unfold entry
  cases read : lookup? v.entries name with
  | none => rfl
  | some found => exact isWritable_of_lookup? writable read

end Value

namespace Document

variable {m m' : Module} {d d' : Design} {key v doc asked : Value} {fault : DocumentFault}

/-- The modules of a document. -/
def moduleEntries (doc : Value) : List (Value × Value) :=
  (Value.entry doc.entries "modules").entries

/-- The wires that a document gives a module. -/
def wireEntries (module : Value) : List (Value × Value) :=
  (Value.entry module.entries "wires").entries

/-- The cells that a document gives a module. -/
def cellEntries (module : Value) : List (Value × Value) :=
  (Value.entry module.entries "cells").entries

/-- The attributes that a document gives a wire. -/
def attributeEntries (wire : Value) : List (Value × Value) :=
  (Value.entry wire.entries "attributes").entries

/-- What a document binds to the ports of a cell. -/
def bindingEntries (cell : Value) : List (Value × Value) :=
  (Value.entry cell.entries "connections").entries

/-- The direct connections that a document gives a module. -/
def connectionItems (module : Value) : List Value :=
  (Value.entry module.entries "connections").items

/-- The two sides of a connection of a document, when it has two. -/
def connectionSides (v : Value) : List Value :=
  (sides? v).elim [] fun (target, source) => [target, source]

/-- The values that are read as signals in a module: what is bound to the ports of its cells, and
the sides of its connections. -/
def signalValues (module : Value) : List Value :=
  ((cellEntries module).flatMap fun c => (bindingEntries c.2).map Prod.snd) ++
    (connectionItems module).flatMap connectionSides

/-- A wire: a mapping with a mapping of named attributes in it and a width that is a number or a
text, as far as they are given. -/
structure WireShape (v : Value) : Prop where
  mapping : v.IsMapping
  attributes : (Value.entry v.entries "attributes").IsMapping
  named : ∀ a ∈ attributeEntries v, ∃ name, a.1 = .text name
  width : Value.lookup? v.entries "width" = none ∨
    (∃ i, Value.lookup? v.entries "width" = some (.int i)) ∨
    ∃ s, Value.lookup? v.entries "width" = some (.text s)

/-- A cell: a mapping with mappings of connections and directions in it. -/
structure CellShape (v : Value) : Prop where
  mapping : v.IsMapping
  connections : (Value.entry v.entries "connections").IsMapping
  directions : (Value.entry v.entries "directions").IsMapping

/-- A module: a mapping with mappings of wires and cells and lists of connections and processes. -/
structure ModuleShape (v : Value) : Prop where
  mapping : v.IsMapping
  wires : (Value.entry v.entries "wires").IsMapping
  wire : ∀ w ∈ wireEntries v, WireShape w.2
  cells : (Value.entry v.entries "cells").IsMapping
  cell : ∀ c ∈ cellEntries v, CellShape c.2
  connections : (Value.entry v.entries "connections").IsList
  processes : (Value.entry v.entries "processes").IsList

/-- A document: a mapping with a mapping of modules in it. The top that it names and the one that is
asked for are texts. -/
structure Shape (doc asked : Value) : Prop where
  mapping : ∃ entries modules, doc = .map entries ∧ Value.entry entries "modules" = .map modules
  module : ∀ m ∈ moduleEntries doc, ModuleShape m.2
  top : (Value.entry doc.entries "top").IsText
  asked : asked.IsText

theorem eq_map_of_isTruthy (mapping : v.IsMapping) (given : v.isTruthy = true) :
    v = .map v.entries := by
  cases mapping with
  | null => cases given
  | map entries => rfl

theorem fields_eq (mapping : v.IsMapping) : fields v = .ok v.entries := by
  cases mapping with
  | null => rfl
  | map entries => cases entries <;> rfl

theorem description?_eq (mapping : v.IsMapping) : description? v = some v.entries := by
  cases mapping with
  | null => rfl
  | map entries => cases entries <;> rfl

theorem items_eq (list : v.IsList) : items v = .ok v.items := by
  cases list with
  | null => rfl
  | list items => cases items <;> rfl

/-! ## Faults -/

/-- The names under which the modules of a document are filed. -/
def filedNames (modules : List (Value × Value)) : List String :=
  modules.map fun m => Identifier.escape m.1.name

/-- The module that the first pass makes of an entry. -/
def firstPass (e : Value × Value) : Except DocumentFault Module :=
  addWires (Module.new (Identifier.escape e.1.name)) (wireEntries e.2)

/-- What in a document leads to a number of too many digits: one that it holds as a number, one in
the text of a signal, or the number of bits of a side of a connection. -/
inductive Overlong (doc : Value) : Prop where
  | number (unwritable : ¬ doc.isWritable = true) : Overlong doc
  | signal {e : Value × Value} {s : Value} (isModule : e ∈ moduleEntries doc)
      (isSignal : s ∈ signalValues e.2) (crossed : ¬ s.WithinLimits) : Overlong doc
  | connection {e : Value × Value} {k side : Value} {b : Module} {s : Signal}
      (isModule : e ∈ moduleEntries doc) (isConnection : k ∈ connectionItems e.2)
      (isSide : side ∈ connectionSides k) (made : firstPass e = .ok b)
      (read : Document.signal b side = .ok s) (large : ¬ Text.isWritable s.size = true) :
      Overlong doc

/-- The faults of a document of the right shape: any fault of the format, and four others, each with
what in the document leads to it. -/
inductive Fails (doc : Value) : DocumentFault → Prop where
  | format (fault : FormatFault) : Fails doc (.format fault)
  | duplicateModule {name : String} (twice : 2 ≤ (filedNames (moduleEntries doc)).count name) :
      Fails doc (.declaration (.duplicateModule name))
  | reservedName {m w : Value × Value} {name : String} {value : Value}
      (isModule : m ∈ moduleEntries doc) (isWire : w ∈ wireEntries m.2)
      (isAttribute : (.text name, value) ∈ attributeEntries w.2)
      (reserved : name ∈ Attributes.reservedNames) :
      Fails doc (.kind (.attributes (.reservedName name)))
  | constantTooWide {m : Value × Value} {s : Value} {width : Nat}
      (isModule : m ∈ moduleEntries doc) (isSignal : s ∈ signalValues m.2)
      (crossed : ¬ s.WithinLimits) : Fails doc (.kind (.constantTooWide width))
  | numberTooLong (long : Overlong doc) : Fails doc (.kind .numberTooLong)

/-- A document without what leads to a fault that is none of the format: its modules are filed under
different names, no attribute has a reserved name, and no number is beyond the limits, neither one
that the document writes nor the number of bits of a side of a connection. -/
structure Plain (doc : Value) : Prop where
  modules : (filedNames (moduleEntries doc)).Nodup
  attributes : ∀ m ∈ moduleEntries doc, ∀ w ∈ wireEntries m.2, ∀ a ∈ attributeEntries w.2,
    ∀ name ∈ Attributes.reservedNames, a.1 ≠ .text name
  numbers : doc.isWritable = true
  signals : ∀ m ∈ moduleEntries doc, ∀ s ∈ signalValues m.2, s.WithinLimits
  sizes : ∀ e ∈ moduleEntries doc, ∀ k ∈ connectionItems e.2, ∀ side ∈ connectionSides k, ∀ b s,
    firstPass e = .ok b → signal b side = .ok s → Text.isWritable s.size = true

/-- A plain document has no number with too many digits. -/
theorem Plain.not_overlong (plain : Plain doc) : ¬ Overlong doc := by
  rintro (unwritable | ⟨isModule, isSignal, crossed⟩ |
    ⟨isModule, isConnection, isSide, made, read, large⟩)
  · exact unwritable plain.numbers
  · exact crossed (plain.signals _ isModule _ isSignal)
  · exact large (plain.sizes _ isModule _ isConnection _ isSide _ _ made read)

/-- In a plain document only faults of the format are left. -/
theorem Fails.format_of_plain (fails : Fails doc fault) (plain : Plain doc) :
    ∃ f, fault = .format f := by
  cases fails with
  | format f => exact ⟨f, rfl⟩
  | duplicateModule twice =>
    exact absurd (twice.trans (List.nodup_iff_count_le_one.mp plain.modules _)) (by decide)
  | reservedName isModule isWire isAttribute reserved =>
    exact absurd rfl (plain.attributes _ isModule _ isWire _ isAttribute _ reserved)
  | constantTooWide isModule isSignal crossed =>
    exact absurd (plain.signals _ isModule _ isSignal) crossed
  | numberTooLong long => exact absurd long plain.not_overlong

/-- A step of reading fails with nothing but what is allowed. -/
def FailsOnly {α : Type} (allowed : DocumentFault → Prop) (x : Except DocumentFault α) : Prop :=
  ∀ fault, x = .error fault → allowed fault

section

variable {α β : Type} {allowed : DocumentFault → Prop}

theorem FailsOnly.ok (a : α) : FailsOnly allowed (.ok a) := nofun

theorem FailsOnly.error (isAllowed : allowed fault) :
    FailsOnly allowed (.error fault : Except DocumentFault α) := by
  intro other same
  cases same
  exact isAllowed

/-- Two steps that fail only in what is allowed do so one after the other. -/
theorem FailsOnly.bind {x : Except DocumentFault α} {f : α → Except DocumentFault β}
    (first : FailsOnly allowed x) (next : ∀ a, x = .ok a → FailsOnly allowed (f a)) :
    FailsOnly allowed (x >>= f) := by
  cases x with
  | error fault => exact .error (first fault rfl)
  | ok a => exact next a rfl

/-- A first step that succeeds leaves its answer to the next one. -/
theorem FailsOnly.after {x : Except DocumentFault α} {f : α → Except DocumentFault β} {a : α}
    (succeeds : x = .ok a) (next : FailsOnly allowed (f a)) : FailsOnly allowed (x >>= f) := by
  rw [succeeds]
  exact next

end

/-- A fault inside a module is one of the format, if it can be told. -/
theorem failsOnly_failIn {α : Type} {fault : ModuleFault}
    (untold : ¬ fault.isTellable = true → Overlong doc) :
    FailsOnly (Fails doc) (failIn m fault : Except DocumentFault α) := by
  unfold failIn
  split
  · exact .error (.format _)
  · next long => exact .error (.numberTooLong (untold long))

/-- What stands in a document gives a name unless the document holds a number of too many digits. -/
theorem failsOnly_nameOf (part : doc.isWritable = true → v.isWritable = true) :
    FailsOnly (Fails doc) (nameOf v) := by
  by_cases writable : v.isWritable = true
  · rw [nameOf_of_isWritable writable]
    exact .ok _
  · rw [nameOf, Value.name?, if_neg writable]
    exact .error (.numberTooLong (.number fun all => writable (part all)))

/-! ## What stands in a document that can be written -/

theorem isWritable_module (writable : doc.isWritable = true) :
    ∀ e ∈ moduleEntries doc, e.1.isWritable = true ∧ e.2.isWritable = true :=
  Value.isWritable_of_mem_entries (Value.isWritable_entry writable _)

theorem isWritable_wire (writable : v.isWritable = true) :
    ∀ w ∈ wireEntries v, w.1.isWritable = true ∧ w.2.isWritable = true :=
  Value.isWritable_of_mem_entries (Value.isWritable_entry writable _)

theorem isWritable_cell (writable : v.isWritable = true) :
    ∀ c ∈ cellEntries v, c.1.isWritable = true ∧ c.2.isWritable = true :=
  Value.isWritable_of_mem_entries (Value.isWritable_entry writable _)

/-! ## The first pass -/

/-- The attributes of a mapping whose names are texts are refused only for a reserved name. -/
theorem reservedName_of_ofValue {entries : List (Value × Value)} {fault : AttributesFault}
    (named : ∀ a ∈ entries, ∃ name, a.1 = .text name)
    (failed : Attributes.ofValue (.map entries) = .error fault) :
    ∃ name value, (.text name, value) ∈ entries ∧ name ∈ Attributes.reservedNames ∧
      fault = .reservedName name := by
  change entries.mapM Attributes.named = .error fault at failed
  induction entries with
  | nil => cases failed
  | cons first rest ih =>
    obtain ⟨⟨name, isText⟩, namedRest⟩ := List.forall_mem_cons.mp named
    obtain ⟨key, value⟩ := first
    cases isText
    rw [List.mapM_cons, Attributes.named] at failed
    split at failed
    · next reserved =>
      cases failed
      exact ⟨name, value, List.mem_cons_self, List.contains_iff_mem.mp reserved, rfl⟩
    · cases restFailed : rest.mapM Attributes.named with
      | error other =>
        rw [restFailed] at failed
        cases failed
        obtain ⟨name', value', isEntry, reserved, same⟩ := ih namedRest restFailed
        exact ⟨name', value', List.mem_cons_of_mem _ isEntry, reserved, same⟩
      | ok found =>
        rw [restFailed] at failed
        cases failed

/-- Reading the width of a wire fails only in ways that the document accounts for. -/
theorem failsOnly_wireWidth (shape : WireShape v) :
    FailsOnly (Fails doc) (wireWidth m v.entries) := by
  unfold wireWidth
  rcases shape.width with absent | ⟨i, given⟩ | ⟨s, given⟩
  · rw [absent]
    exact .ok _
  · rw [given]
    exact .ok _
  · rw [given, Option.getD_some, Value.integer]
    cases Text.integer s with
    | ok i => exact .ok _
    | error fault => cases fault <;> exact failsOnly_failIn (absurd rfl)

theorem failsOnly_wireAttributes {e w : Value × Value} (isModule : e ∈ moduleEntries doc)
    (isWire : w ∈ wireEntries e.2) (shape : WireShape w.2) :
    FailsOnly (Fails doc) (wireAttributes m w.2.entries) := by
  unfold wireAttributes
  dsimp only
  split
  · next given =>
    have isMap := eq_map_of_isTruthy shape.attributes given
    split
    · exact .ok _
    · next failed =>
      rw [isMap] at failed
      obtain ⟨_, _, -, -, same⟩ := reservedName_of_ofValue shape.named failed
      cases same
    · next failed =>
      rw [isMap] at failed
      obtain ⟨name, value, isAttribute, reserved, rfl⟩ := reservedName_of_ofValue shape.named failed
      exact .error (.reservedName isModule isWire isAttribute reserved)
  · exact .ok _

/-- Reading a wire fails only in ways that the document accounts for. -/
theorem failsOnly_addWire {e w : Value × Value} (isModule : e ∈ moduleEntries doc)
    (isWire : w ∈ wireEntries e.2) (shape : WireShape w.2) :
    FailsOnly (Fails doc) (addWire m w.1 w.2) := by
  have part : doc.isWritable = true → w.1.isWritable = true ∧ w.2.isWritable = true :=
    fun all => isWritable_wire (isWritable_module all e isModule).2 w isWire
  refine .bind (failsOnly_nameOf fun all => (part all).1) fun name _ => ?_
  rw [description?_eq shape.mapping]
  dsimp only
  split
  · exact failsOnly_failIn fun untold =>
      .number fun all => untold (Value.isWritable_entry (part all).2 _)
  · refine .bind (failsOnly_wireWidth shape) fun width _ => ?_
    refine .bind (failsOnly_wireAttributes isModule isWire shape) fun attributes _ => ?_
    split
    · exact .ok _
    · exact failsOnly_failIn (absurd rfl)

theorem failsOnly_addWires {e : Value × Value} {wires : List (Value × Value)}
    (isModule : e ∈ moduleEntries doc) (sub : ∀ w ∈ wires, w ∈ wireEntries e.2)
    (shape : ∀ w ∈ wires, WireShape w.2) : FailsOnly (Fails doc) (addWires m wires) := by
  induction wires generalizing m with
  | nil => exact .ok _
  | cons w rest ih =>
    obtain ⟨isWire, sub⟩ := List.forall_mem_cons.mp sub
    obtain ⟨isShaped, shape⟩ := List.forall_mem_cons.mp shape
    exact .bind (failsOnly_addWire isModule isWire isShaped) fun m _ => ih sub shape

/-- Filing a module fails only in ways that the document accounts for. -/
theorem failsOnly_addModule {e : Value × Value} (isModule : e ∈ moduleEntries doc)
    (shape : ModuleShape e.2)
    (twice : Identifier.escape e.1.name ∈ d.modules.names →
      2 ≤ (filedNames (moduleEntries doc)).count (Identifier.escape e.1.name)) :
    FailsOnly (Fails doc) (addModule d e.1 e.2) := by
  have part : doc.isWritable = true → e.1.isWritable = true :=
    fun all => (isWritable_module all e isModule).1
  refine .bind (failsOnly_nameOf part) fun name named => ?_
  obtain ⟨-, rfl⟩ := nameOf_eq_ok_iff.mp named
  split
  · next fault refused =>
    unfold Design.addModule at refused
    split at refused
    · next taken =>
      cases refused
      exact .error (.duplicateModule (twice ((Roster.add?_eq_none_iff _ _).mp taken)))
    · cases refused
  · refine .after (fields_eq shape.mapping) (.after (fields_eq shape.wires) ?_)
    exact .bind (failsOnly_addWires isModule (fun _ => id) shape.wire) fun m _ => .ok _

/-- The modules that were entered before stand in front of those that are left. -/
theorem failsOnly_addModules {done rest : List (Value × Value)}
    (all : done ++ rest = moduleEntries doc) (names : d.modules.names = filedNames done)
    (shape : ∀ e ∈ moduleEntries doc, ModuleShape e.2) :
    FailsOnly (Fails doc) (addModules d rest) := by
  induction rest generalizing d done with
  | nil => exact .ok _
  | cons e rest ih =>
    have isModule : e ∈ moduleEntries doc := by
      rw [← all]
      exact List.mem_append_right _ List.mem_cons_self
    refine .bind (failsOnly_addModule isModule (shape e isModule) fun taken => ?_)
      fun next added => ?_
    · rw [names] at taken
      rw [← all, filedNames, List.map_append, List.map_cons, List.count_append,
        List.count_cons_self]
      have before := List.count_pos_iff.mpr taken
      rw [filedNames] at before
      omega
    · obtain ⟨o, grown, enters⟩ := enters_addModule added
      have all' : done ++ [e] ++ rest = moduleEntries doc := by
        rw [List.append_assoc]
        exact all
      have names' : next.modules.names = filedNames (done ++ [e]) := by
        rw [names_eq_map_outlines, grown, List.map_append, ← names_eq_map_outlines, names,
          filedNames, filedNames, List.map_append, List.map_singleton, List.map_singleton,
          enters.name]
      exact ih all' names'

/-! ## What the first pass leaves to the second -/

/-- A module is, as far as its name and its wires go, what the first pass makes of an entry. -/
def Made (e : Value × Value) (m : Module) : Prop :=
  ∃ b, firstPass e = .ok b ∧ m.outline = b.outline

/-- A signal is read alike in modules with one name and the same wires. -/
theorem signal_congr (name : m.name = m'.name) (wires : ∀ name, m.wire? name = m'.wire? name) :
    signal m = signal m' := by
  funext v
  have known : (fun name => (m.wire? name).map (·.toWire)) =
      fun name => (m'.wire? name).map (·.toWire) := by
    funext name
    rw [wires]
  unfold signal failIn
  rw [known, name]

/-- Modules with one outline read a signal alike. -/
theorem signal_of_outline (same : m.outline = m'.outline) : signal m = signal m' := by
  have wires : m.wires = m'.wires := congrArg Prod.snd same
  refine signal_congr (congrArg Prod.fst same) fun name => ?_
  rw [Module.wire?, Module.wire?, wires]

/-- An entry of the right shape enters as what the first pass makes of it. -/
theorem firstPass_of_enters {e : Value × Value} {o : String × Roster Declaration}
    (shape : ModuleShape e.2) (enters : Enters e o) : ∃ b, firstPass e = .ok b ∧ o = b.outline := by
  obtain ⟨entries, wires, b, isModule, isWires, filled, same⟩ := enters
  rw [fields_eq shape.mapping] at isModule
  cases isModule
  rw [fields_eq shape.wires] at isWires
  cases isWires
  exact ⟨b, filled, same⟩

/-- What stands under the name of an entry is made of it. -/
theorem made_of_enters {e : Value × Value} {modules : List (Value × Value)}
    (entered : List.Forall₂ Enters modules (outlines d)) (isEntry : e ∈ modules)
    (shape : ModuleShape e.2) (found : d.module? (Identifier.escape e.1.name) = some m) :
    Made e m := by
  obtain ⟨o, ho, enters⟩ := exists_enters entered isEntry
  obtain ⟨b, made, rfl⟩ := firstPass_of_enters shape enters
  obtain ⟨other, hother, same⟩ := List.mem_map.mp ho
  have named : other.name = Identifier.escape e.1.name := by
    rw [← enters.name, ← same]
    rfl
  have found' := d.module?_eq_some_iff.mpr ⟨hother, named⟩
  rw [found] at found'
  cases found'
  exact ⟨b, made, same⟩

/-- The width of a wire can be written when the number that stands for it in the document can; a
text is read as none that cannot. -/
theorem isWritable_wireWidth {width : Int} (shape : WireShape v) (writable : v.isWritable = true)
    (read : wireWidth m v.entries = .ok width) : Text.isWritable width = true := by
  unfold wireWidth at read
  rcases shape.width with absent | ⟨i, given⟩ | ⟨s, given⟩
  · rw [absent] at read
    cases read
    decide
  · have number := Value.isWritable_of_lookup? writable given
    rw [given] at read
    cases read
    rwa [Value.isWritable] at number
  · rw [given, Option.getD_some, Value.integer] at read
    cases integer : Text.integer s with
    | ok i =>
      rw [integer] at read
      cases read
      exact Text.isWritable_of_integer integer
    | error fault =>
      rw [integer] at read
      cases fault <;> exact absurd read failIn_ne_ok

/-- A wire whose width can be written leaves a module whose widths all can be. -/
theorem widthsWritable_addWire {w : Value × Value} (shape : WireShape w.2)
    (writable : w.2.isWritable = true) (before : m.WidthsWritable)
    (added : addWire m w.1 w.2 = .ok m') : m'.WidthsWritable := by
  obtain ⟨entries, _, _, width, _, -, isWire, -, isWidth, -, entered⟩ := addWire_eq_ok added
  rw [description?_eq shape.mapping] at isWire
  cases isWire
  unfold Module.addWire at entered
  split at entered
  · cases entered
  · cases entered
  · next wires place inOrder =>
    cases entered
    intro other h
    rw [(Roster.toList_add? place).2] at h
    rcases List.mem_append.mp h with old | new
    · exact before other old
    · rw [List.mem_singleton.mp new, (WireRequest.declaration_of_fault? inOrder m.name).1]
      exact isWritable_wireWidth shape writable isWidth

/-- The first pass gives widths that can be written, of a document that can be. -/
theorem Made.widthsWritable {e : Value × Value} (made : Made e m) (isModule : e ∈ moduleEntries doc)
    (shape : ModuleShape e.2) (writable : doc.isWritable = true) : m.WidthsWritable := by
  obtain ⟨b, filled, same⟩ := made
  have wires : m.wires = b.wires := congrArg Prod.snd same
  have filledWritable : b.WidthsWritable := by
    refine addWires_invariant (P := Module.WidthsWritable) (fun w hw m m' before added => ?_)
      (fun _ h => absurd h List.not_mem_nil) filled
    have part := isWritable_wire (isWritable_module writable e isModule).2 w hw
    exact widthsWritable_addWire (shape.wire w hw) part.2 before added
  unfold Module.WidthsWritable
  rw [wires]
  exact filledWritable

/-! ## The second pass -/

/-- Reading a signal fails only in ways that the document accounts for. -/
theorem failsOnly_signal {e : Value × Value} (isModule : e ∈ moduleEntries doc)
    (shape : ModuleShape e.2) (made : Made e m) (isSignal : v ∈ signalValues e.2) :
    FailsOnly (Fails doc) (signal m v) := by
  intro fault failed
  have settles : Settles (Denotes m v) v.WithinLimits m.WidthsWritable
      ((Signal.ofValue m.named? v).map Signal.bits) := Signal.settles_ofValue v
  cases read : Signal.ofValue m.named? v with
  | ok s =>
    rw [signal_of_ok read] at failed
    cases failed
  | error fault =>
    rw [read] at settles
    cases settles with
    | error unmeant told =>
      rcases signal_of_settles read told with answer | ⟨answer, crossed⟩ | ⟨width, answer, crossed⟩
      all_goals
        rw [answer] at failed
        cases failed
      · exact .format _
      · refine .numberTooLong ?_
        by_cases within : v.WithinLimits
        · exact .number fun all =>
            crossed ⟨within, made.widthsWritable isModule shape all⟩
        · exact .signal isModule isSignal within
      · exact .constantTooWide isModule isSignal crossed

/-- Reading the connections of a cell fails only in ways that the document accounts for. -/
theorem failsOnly_bindings {e : Value × Value} {marked : Bool} {done : Roster Binding}
    {bound : List (Value × Value)} (isModule : e ∈ moduleEntries doc) (shape : ModuleShape e.2)
    (made : Made e m) (areSignals : ∀ b ∈ bound, b.2 ∈ signalValues e.2)
    (part : doc.isWritable = true → ∀ b ∈ bound, b.1.isWritable = true) :
    FailsOnly (Fails doc) (bindings m marked done bound) := by
  induction bound generalizing done with
  | nil => exact .ok _
  | cons b rest ih =>
    obtain ⟨isSignal, areSignals⟩ := List.forall_mem_cons.mp areSignals
    refine .bind (failsOnly_nameOf fun all => part all b List.mem_cons_self) fun port _ => ?_
    refine .bind (failsOnly_signal isModule shape made isSignal) fun s _ => ?_
    exact ih areSignals fun all other h => part all other (List.mem_cons_of_mem _ h)

theorem failsOnly_noted {entries : List (Value × Value)}
    (part : doc.isWritable = true → ∀ e ∈ entries, e.1.isWritable = true ∧ e.2.isWritable = true) :
    FailsOnly (Fails doc) (noted entries) := by
  induction entries with
  | nil => exact .ok _
  | cons e rest ih =>
    refine .bind (failsOnly_nameOf fun all => (part all e List.mem_cons_self).1) fun port _ => ?_
    refine .bind (failsOnly_nameOf fun all => (part all e List.mem_cons_self).2) fun word _ => ?_
    refine .bind (ih fun all other h => part all other (List.mem_cons_of_mem _ h)) fun notes _ => ?_
    exact .ok _

/-- Reading a cell fails only in ways that the document accounts for. -/
theorem failsOnly_addCell {e c : Value × Value} (isModule : e ∈ moduleEntries doc)
    (shape : ModuleShape e.2) (made : Made e m) (isCell : c ∈ cellEntries e.2) :
    FailsOnly (Fails doc) (addCell d m c.1 c.2) := by
  have cell := shape.cell c isCell
  have areSignals : ∀ b ∈ bindingEntries c.2, b.2 ∈ signalValues e.2 := fun b hb =>
    List.mem_append_left _ (List.mem_flatMap.mpr ⟨c, isCell, List.mem_map_of_mem hb⟩)
  have part : doc.isWritable = true → c.1.isWritable = true ∧ c.2.isWritable = true :=
    fun all => isWritable_cell (isWritable_module all e isModule).2 c isCell
  have entry : ∀ name, doc.isWritable = true → (Value.entry c.2.entries name).isWritable = true :=
    fun name all => Value.isWritable_entry (part all).2 name
  refine .bind (failsOnly_nameOf fun all => (part all).1) fun name _ => ?_
  rw [description?_eq cell.mapping]
  dsimp only
  split
  · exact failsOnly_failIn (absurd rfl)
  · refine .bind (failsOnly_nameOf (entry "type")) fun type _ => ?_
    refine .after (fields_eq cell.connections) ?_
    refine .bind (failsOnly_bindings isModule shape made areSignals fun all b hb =>
      (Value.isWritable_of_mem_entries (entry "connections" all) b hb).1) fun bindings _ => ?_
    refine .after (fields_eq cell.directions) ?_
    refine .bind (failsOnly_noted fun all =>
      Value.isWritable_of_mem_entries (entry "directions" all)) fun notes _ => ?_
    split
    · exact failsOnly_failIn (absurd rfl)
    · split
      · exact .ok _
      · exact failsOnly_failIn (absurd rfl)

theorem Made.congr {e : Value × Value} (made : Made e m) (same : m'.outline = m.outline) :
    Made e m' := by
  obtain ⟨b, filled, outline⟩ := made
  exact ⟨b, filled, same.trans outline⟩

theorem failsOnly_addCells {e : Value × Value} {cells : List (Value × Value)}
    (isModule : e ∈ moduleEntries doc) (shape : ModuleShape e.2) (made : Made e m)
    (sub : ∀ c ∈ cells, c ∈ cellEntries e.2) : FailsOnly (Fails doc) (addCells d m cells) := by
  induction cells generalizing m with
  | nil => exact .ok _
  | cons c rest ih =>
    obtain ⟨isCell, sub⟩ := List.forall_mem_cons.mp sub
    exact .bind (failsOnly_addCell isModule shape made isCell)
      fun m placed => ih (made.congr (outline_addCell placed)) sub

/-- A side with too many bits to be counted in a text has them among the wires that the first pass
declared. -/
theorem overlong_of_side {e : Value × Value} {k side : Value} {s : Signal}
    (isModule : e ∈ moduleEntries doc) (isConnection : k ∈ connectionItems e.2)
    (isSide : side ∈ connectionSides k) (made : Made e m) (read : signal m side = .ok s)
    (large : ¬ Text.isWritable s.size = true) : Overlong doc := by
  obtain ⟨b, filled, same⟩ := made
  rw [signal_of_outline same] at read
  exact .connection isModule isConnection isSide filled read large

/-- Reading a connection fails only in ways that the document accounts for. -/
theorem failsOnly_connect {e : Value × Value} {place : Nat} (isModule : e ∈ moduleEntries doc)
    (shape : ModuleShape e.2) (made : Made e m) (isConnection : v ∈ connectionItems e.2) :
    FailsOnly (Fails doc) (connect m place v) := by
  have areSignals : ∀ side ∈ connectionSides v, side ∈ signalValues e.2 := fun side h =>
    List.mem_append_right _ (List.mem_flatMap.mpr ⟨v, isConnection, h⟩)
  unfold connect
  split
  · next target source areSides =>
    have isTarget : target ∈ connectionSides v := by simp [connectionSides, areSides]
    have isSource : source ∈ connectionSides v := by simp [connectionSides, areSides]
    refine .bind (failsOnly_signal isModule shape made (areSignals _ isTarget))
      fun targetSignal readTarget => ?_
    refine .bind (failsOnly_signal isModule shape made (areSignals _ isSource))
      fun sourceSignal readSource => ?_
    split
    · exact .ok _
    · refine failsOnly_failIn fun untold => ?_
      by_cases writable : Text.isWritable targetSignal.size = true
      · refine overlong_of_side isModule isConnection isSource made readSource
          fun other => untold ?_
        rw [ModuleFault.isTellable, writable, other]
        rfl
      · exact overlong_of_side isModule isConnection isTarget made readTarget writable
  · exact failsOnly_failIn (absurd rfl)

theorem failsOnly_connectAll {e : Value × Value} {place : Nat} {connections : List Value}
    (isModule : e ∈ moduleEntries doc) (shape : ModuleShape e.2) (made : Made e m)
    (sub : ∀ k ∈ connections, k ∈ connectionItems e.2) :
    FailsOnly (Fails doc) (connectAll m place connections) := by
  induction connections generalizing m place with
  | nil => exact .ok _
  | cons k rest ih =>
    obtain ⟨isConnection, sub⟩ := List.forall_mem_cons.mp sub
    exact .bind (failsOnly_connect isModule shape made isConnection)
      fun m made' => ih (made.congr (outline_connect made')) sub

theorem failsOnly_namesOf {values : List Value}
    (part : doc.isWritable = true → ∀ v ∈ values, v.isWritable = true) :
    FailsOnly (Fails doc) (namesOf values) := by
  induction values with
  | nil => exact .ok _
  | cons v rest ih =>
    refine .bind (failsOnly_nameOf fun all => part all v List.mem_cons_self) fun name _ => ?_
    refine .bind (ih fun all other h => part all other (List.mem_cons_of_mem _ h)) fun names _ => ?_
    exact .ok _

/-- Filling a module fails only in ways that the document accounts for. -/
theorem failsOnly_complete {e : Value × Value} (isModule : e ∈ moduleEntries doc)
    (shape : ModuleShape e.2)
    (made : ∀ m, d.module? (Identifier.escape e.1.name) = some m → Made e m) :
    FailsOnly (Fails doc) (complete d e.1 e.2) := by
  unfold complete
  split
  · exact .ok _
  · next m found =>
    refine .after (fields_eq shape.mapping) (.after (fields_eq shape.cells) ?_)
    refine .bind (failsOnly_addCells isModule shape (made m found) fun _ => id) fun m₁ placed => ?_
    have made₁ : Made e m₁ := (made m found).congr (outline_addCells placed)
    refine .after (items_eq shape.connections) ?_
    refine .bind (failsOnly_connectAll isModule shape made₁ fun _ => id) fun m₂ _ => ?_
    refine .after (items_eq shape.processes) ?_
    refine .bind (failsOnly_namesOf fun all => ?_) fun texts _ => .ok _
    exact Value.isWritable_of_mem_items
      (Value.isWritable_entry (isWritable_module all e isModule).2 _)

/-- The second pass leaves the outlines as the first one made them, so each entry is completed in
what was made of it. -/
theorem failsOnly_completeAll {modules : List (Value × Value)}
    (sub : ∀ e ∈ modules, e ∈ moduleEntries doc) (shape : ∀ e ∈ moduleEntries doc, ModuleShape e.2)
    (entered : List.Forall₂ Enters (moduleEntries doc) (outlines d)) :
    FailsOnly (Fails doc) (completeAll d modules) := by
  induction modules generalizing d with
  | nil => exact .ok _
  | cons e rest ih =>
    obtain ⟨isModule, sub⟩ := List.forall_mem_cons.mp sub
    refine .bind (failsOnly_complete isModule (shape e isModule) fun m found =>
      made_of_enters entered isModule (shape e isModule) found) fun d completed => ih sub ?_
    rw [outlines_complete completed]
    exact entered

/-! ## Whole documents -/

theorem exists_topName {entries : List (Value × Value)} (isText : asked.IsText)
    (top : (Value.entry entries "top").IsText) : ∃ name, topName asked entries = .ok name := by
  have either : (asked.orElse (Value.entry entries "top")).IsText := by
    unfold Value.orElse
    split
    · exact isText
    · exact top
  unfold topName
  generalize asked.orElse (Value.entry entries "top") = top at either
  cases either with
  | null => exact ⟨none, rfl⟩
  | text name => exact ⟨some name, rfl⟩

/-- A document of the right shape fails only in ways that it accounts for. -/
theorem failsOnly_design (shape : Shape doc asked) :
    FailsOnly (Fails doc) (design doc asked) := by
  obtain ⟨entries, modules, rfl, isModules⟩ := shape.mapping
  have all : moduleEntries (.map entries) = modules := by
    rw [moduleEntries, Value.entries, isModules]
    rfl
  have sub : ∀ e ∈ modules, e ∈ moduleEntries (.map entries) := fun e he => all.symm ▸ he
  obtain ⟨top, isTop⟩ := exists_topName shape.asked shape.top
  have all' : [] ++ modules = moduleEntries (.map entries) := all.symm
  have noNames : (Design.new top).modules.names = filedNames [] := rfl
  simp only [design, isModules]
  refine .after isTop ?_
  refine .bind (failsOnly_addModules all' noNames shape.module) fun d added => ?_
  obtain ⟨os, grown, each⟩ := enters_addModules added
  have entered : List.Forall₂ Enters (moduleEntries (.map entries)) (outlines d) := by
    rw [all, grown]
    exact each
  refine .bind (failsOnly_completeAll sub shape.module entered) fun d _ => ?_
  split
  · exact .error (.format _)
  · exact .ok _

/-- A document of the right shape fails with a fault of the format, for a module or an attribute
whose name is taken, for a constant that cannot be filled up, or for a number of too many digits; a
plain one gives a design or fails with a fault of the format. -/
theorem design_fails (shape : Shape doc asked) :
    (∀ fault, design doc asked = .error fault → Fails doc fault) ∧
    (Plain doc → (∃ d, design doc asked = .ok d) ∨
      ∃ fault, design doc asked = .error (.format fault)) := by
  have fails := failsOnly_design shape
  refine ⟨fails, fun plain => ?_⟩
  cases answer : design doc asked with
  | ok d => exact .inl ⟨d, rfl⟩
  | error fault =>
    obtain ⟨f, rfl⟩ := (fails fault answer).format_of_plain plain
    exact .inr ⟨f, rfl⟩

/-- A plain document in which a connection names a wire that is not there. -/
def strayDocument : Value :=
  .map [(.text "modules", .map [(.text "top", .map [
    (.text "wires", .map [(.text "a", .map [(.text "width", .text "2"),
      (.text "attributes", .map [(.text "src", .text "top.v")])])]),
    (.text "connections", .list [.list [.text "a", .text "b"]])])])]

theorem shape_stray : Shape strayDocument .null where
  mapping := ⟨_, _, rfl, rfl⟩
  module := by
    have wire : WireShape (.map [(.text "width", .text "2"),
        (.text "attributes", .map [(.text "src", .text "top.v")])]) :=
      ⟨.map _, .map _, List.forall_mem_singleton.mpr ⟨_, rfl⟩, .inr (.inr ⟨_, rfl⟩)⟩
    exact List.forall_mem_singleton.mpr ⟨.map _, .map _, List.forall_mem_singleton.mpr wire, .null,
      List.forall_mem_nil _, .list _, .null⟩
  top := .null
  asked := .null

theorem plain_stray : Plain strayDocument where
  modules := List.nodup_singleton _
  attributes := by
    refine List.forall_mem_singleton.mpr (List.forall_mem_singleton.mpr ?_)
    refine List.forall_mem_singleton.mpr fun name reserved same => ?_
    cases same
    exact absurd reserved (by decide)
  numbers := rfl
  signals := by
    have readA : SignalShape.ofChars? ['a'] = some (.reference ['a'] none) := by decide
    have readB : SignalShape.ofChars? ['b'] = some (.reference ['b'] none) := by decide
    have a : (Value.text "a").WithinLimits := Value.withinLimits_of_ofChars? readA trivial
    have b : (Value.text "b").WithinLimits := Value.withinLimits_of_ofChars? readB trivial
    exact List.forall_mem_singleton.mpr
      (List.forall_mem_cons.mpr ⟨a, List.forall_mem_singleton.mpr b⟩)
  sizes := by
    refine List.forall_mem_singleton.mpr (List.forall_mem_singleton.mpr ?_)
    refine List.forall_mem_cons.mpr ⟨?_, List.forall_mem_singleton.mpr ?_⟩
    all_goals
      intro b s made read
      cases made
      cases read
    decide

theorem design_fails_stray : Shape strayDocument .null ∧ Plain strayDocument ∧
    design strayDocument .null =
      .error (.format (.inModule "\\top" (.signal (.unknownWire "b")))) ∧
    ((∃ d, design strayDocument .null = .ok d) ∨
      ∃ fault, design strayDocument .null = .error (.format fault)) :=
  ⟨shape_stray, plain_stray, rfl, (design_fails shape_stray).2 plain_stray⟩

/-- A document with two modules that are filed under one name. -/
def twinDocument : Value :=
  .map [(.text "modules", .map [(.text "a", .null), (.text "\\a", .null)])]

/-- A document of the right shape may give no design and fail with no fault of the format. -/
theorem not_design_or_format : Shape twinDocument .null ∧
    ¬ ((∃ d, design twinDocument .null = .ok d) ∨
      ∃ fault, design twinDocument .null = .error (.format fault)) := by
  have shape : Shape twinDocument .null := by
    have empty : ModuleShape .null :=
      ⟨.null, .null, List.forall_mem_nil _, .null, List.forall_mem_nil _, .null, .null⟩
    exact ⟨⟨_, _, rfl, rfl⟩,
      List.forall_mem_cons.mpr ⟨empty, List.forall_mem_singleton.mpr empty⟩, .null, .null⟩
  have refused : design twinDocument .null = .error (.declaration (.duplicateModule "\\a")) := rfl
  refine ⟨shape, ?_⟩
  rw [refused]
  rintro (⟨d, answer⟩ | ⟨fault, answer⟩)
  · cases answer
  · cases answer

end Document

end NearestMux
