import NearestMux.Proofs.Hierarchy.Parents
import NearestMux.Proofs.Lists
import NearestMux.Proofs.Netlist.Reading
import NearestMux.Proofs.Search.Distance

/-!
# A search stays inside the hierarchy

The index of a design has its own idea of which modules belong to the hierarchy: the selected ones,
and what their selected cells put inside them. A search has its own rules for going down, up and
along. This module says that the second stays within the first: whatever a search enters in its
queue is in a module of the order, and takes bits from wires of that module alone
(`SearchSetting.Leads.housed`, `SearchSetting.search_contained`). So an answer can be looked up.

Three things carry it. A hop down follows a selected cell of a module that belongs, which is how the
index goes down. A hop up ends in a module that has a selected instance, and the index took note of
instances in selected modules only. And a design that was read from a document is cut from its own
wires, module by module (`Document.selfContained_of_reads`).

The selection may be changed after the document was read; the index must be that of the design as
it then is.
-/

namespace NearestMux

/-! ## Modules that use their own wires -/

/-- What a module binds and connects is cut from wires that it declares. -/
structure Module.SelfContained (m : Module) : Prop where
  bindings : ∀ c ∈ m.cells.toList, ∀ b ∈ c.bindings.toList, Chunk.Over m.stock b.signal.chunks
  targets : ∀ k ∈ m.connections, Chunk.Over m.stock k.target.chunks
  sources : ∀ k ∈ m.connections, Chunk.Over m.stock k.source.chunks

namespace Document

variable {d : Design} {m : Module} {doc asked v : Value} {g : Signal}

theorem selfContained_of_moduleRead {e : Value × Value} {isModule : String → Bool}
    (asRead : ModuleRead (CellRead isModule) e m) : m.SelfContained where
  bindings := by
    refine forall_of_forall₂ asRead.cells fun _ c cell b hb => ?_
    obtain ⟨row, each, isRow⟩ := cell.bindings
    rw [isRow] at hb
    have drawn : ∀ b ∈ row, Chunk.Over m.stock b.signal.chunks :=
      forall_of_forall₂ each fun _ _ binding => over_of_signal binding.signal
    exact drawn b (Roster.mem_of_mem_ofList hb)
  targets := by
    refine forall_of_forall₂ asRead.connections fun _ k connection => ?_
    obtain ⟨_, _, -, target, -⟩ := connection.sides
    exact over_of_signal target
  sources := by
    refine forall_of_forall₂ asRead.connections fun _ k connection => ?_
    obtain ⟨_, _, -, -, source⟩ := connection.sides
    exact over_of_signal source

theorem selfContained_of_reads (reads : Reads doc asked d) :
    ∀ m ∈ d.modules.toList, m.SelfContained :=
  forall_of_forall₂ reads.modules fun _ _ module => selfContained_of_moduleRead module

end Document

namespace Module

variable {m : Module} {g : Signal} {name : String} {w : Wire}

theorem wire?_of_mem_stock (hw : w ∈ m.stock) : ∃ d, m.wire? w.name = some d := by
  obtain ⟨d, hd, rfl⟩ := hw
  exact ⟨d, wire?_eq_some_iff.mpr ⟨hd, rfl⟩⟩

/-- The wires that a signal takes bits from. -/
theorem mem_stock_of_over (drawn : Chunk.Over m.stock g.chunks) (hw : w ∈ g.wires) :
    w ∈ m.stock := by
  obtain ⟨c, hc, isWire⟩ := List.mem_filterMap.mp hw
  exact drawn c hc w isWire

theorem wire?_of_publicName? (drawn : Chunk.Over m.stock g.chunks)
    (lends : Connection.publicName? g = some name) : ∃ d, m.wire? name = some d := by
  obtain ⟨named, -⟩ := Option.filter_eq_some_iff.mp lends
  obtain ⟨w, whole, rfl⟩ := Option.map_eq_some_iff.mp named
  refine wire?_of_mem_stock (mem_stock_of_over drawn ?_)
  rw [Signal.wires_of_wholeWire? whole]
  exact List.mem_singleton_self w

/-- The name to show for a wire of a module is the name of a wire of the module: that wire, or one
that a connection ties to it. -/
theorem wire?_shownName (contained : m.SelfContained) (declared : ∃ d, m.wire? name = some d) :
    ∃ d, m.wire? (m.shownName name) = some d := by
  unfold shownName
  cases lends : m.connections.findSome? fun k => k.alias? name with
  | none => exact declared
  | some lent =>
    obtain ⟨k, hk, byConnection⟩ := List.exists_of_findSome?_eq_some lends
    unfold Connection.alias? at byConnection
    split at byConnection
    · exact wire?_of_publicName? (contained.targets k hk) byConnection
    · split at byConnection
      · exact wire?_of_publicName? (contained.sources k hk) byConnection
      · cases byConnection

theorem SelfContained.over_signal (contained : m.SelfContained) {c : Cell}
    (hc : c ∈ m.cells.toList) (port : String) : Chunk.Over m.stock (c.signal port).chunks := by
  unfold Cell.signal
  cases found : c.bindings.find? port with
  | none => exact List.forall_mem_nil _
  | some b => exact contained.bindings c hc b (c.bindings.find?_eq_some_iff.mp found).1

end Module

/-! ## What a search enters in its queue -/

namespace SearchSetting

variable {s : SearchSetting} {start i j : Item} {hop : Hop}

/-- A setting whose index is that of its design as it stands, and whose modules use their own wires.
-/
structure Settled (s : SearchSetting) : Prop where
  index : s.design.index = .ok s.index
  contained : ∀ m ∈ s.design.modules.toList, m.SelfContained

/-- An item is in a module of the order and takes bits from wires of that module alone. -/
structure Housed (s : SearchSetting) (i : Item) : Prop where
  placed : i.module ∈ s.index.order
  drawn : ∃ m, s.design.module? i.module = some m ∧ Chunk.Over m.stock i.signal.chunks

/-- No way on leads out of the hierarchy. -/
theorem Leads.inHierarchy (built : s.design.index = .ok s.index) (leads : s.Leads i hop j)
    (belongs : s.design.InHierarchy i.module) : s.design.InHierarchy j.module := by
  obtain ⟨m, w, found, -, leads⟩ := leads
  obtain ⟨hm, named⟩ := s.design.module?_eq_some_iff.mp found
  change m.name = i.module at named
  rw [← named] at belongs
  cases leads with
  | mux => exact belongs
  | cell => exact belongs
  | connection => exact belongs
  | @submodule c b inner d selected instantiates _ _ _ _ =>
    obtain ⟨hinner, type⟩ := s.design.module?_eq_some_iff.mp instantiates
    have stands : s.design.StandsIn inner.name m.name :=
      (Design.standsIn_iff hm).mpr
        ⟨inner, Design.mem_instantiatedIn.mpr ⟨hinner, c, selected, type.symm⟩, rfl⟩
    exact .inside stands belongs
  | parent _ _ standsIn _ _ _ _ _ =>
    obtain ⟨name, isParent, found⟩ := Option.bind_eq_some_iff.mp standsIn
    obtain ⟨-, rfl⟩ := s.design.module?_eq_some_iff.mp found
    exact Design.inHierarchy_of_parent? built isParent

/-- What a way on leads to is cut from the wires of its own module. -/
theorem Leads.drawn (contained : ∀ m ∈ s.design.modules.toList, m.SelfContained)
    (leads : s.Leads i hop j) :
    ∃ m, s.design.module? j.module = some m ∧ Chunk.Over m.stock j.signal.chunks := by
  obtain ⟨m, w, isModule, -, leads⟩ := leads
  obtain ⟨hm, -⟩ := s.design.module?_eq_some_iff.mp isModule
  have found : s.design.module? m.name = some m := s.design.module?_eq_some_iff.mpr ⟨hm, rfl⟩
  have here := contained m hm
  cases leads with
  | mux selected _ _ _ _ _ =>
    exact ⟨m, found, here.over_signal (s.design.mem_selectedCells.mp selected).1 outputPort⟩
  | cell selected _ _ _ _ output _ _ =>
    exact ⟨m, found, here.bindings _ (s.design.mem_selectedCells.mp selected).1 _ output⟩
  | connection made _ => exact ⟨m, found, here.targets _ made⟩
  | @submodule c b inner d _ instantiates _ _ _ declared =>
    obtain ⟨hinner, -⟩ := s.design.module?_eq_some_iff.mp instantiates
    have isWire : d.toWire ∈ inner.stock := ⟨d, (Module.wire?_eq_some_iff.mp declared).1, rfl⟩
    exact ⟨inner, s.design.module?_eq_some_iff.mpr ⟨hinner, rfl⟩,
      Signal.over_slice (by omega) isWire⟩
  | @parent d outer c b _ _ standsIn selected _ bound _ _ =>
    have houter := parent?_mem standsIn
    exact ⟨outer, s.design.module?_eq_some_iff.mpr ⟨houter, rfl⟩,
      (contained outer houter).bindings c (s.design.mem_selectedCells.mp selected).1 b bound⟩

/-- No way on leads out of the housed items. -/
theorem Leads.housed (settled : s.Settled) (leads : s.Leads i hop j) (housed : s.Housed i) :
    s.Housed j where
  placed := by
    have belongs := (Design.mem_order_iff settled.index).mp housed.placed
    exact (Design.mem_order_iff settled.index).mpr (leads.inHierarchy settled.index belongs)
  drawn := leads.drawn settled.contained

theorem Path.housed (settled : s.Settled) {cost : Nat} (way : s.Path start cost i)
    (housed : s.Housed start) : s.Housed i := by
  induction way with
  | nil => exact housed
  | snoc _ leads ih => exact leads.housed settled ih

theorem pushes_revisited (items : List Item) : pushes (items.map Event.revisited) = [] := by
  induction items with
  | nil => rfl
  | cons _ _ ih => exact ih

theorem pushes_rounds_zero (f : Frontier) (stats : SearchStats) :
    pushes (s.rounds 0 f stats).events = [] := by
  rw [rounds]
  dsimp only
  split
  · rw [pushes_append, pushes_revisited]
    rfl
  · exact pushes_revisited _

/-- What rounds enter in the queue is entered by the item that the first of them expands, or in the
rounds that come behind it. -/
theorem mem_pushes_rounds {fuel : Nat} (st : SearchState)
    (entered : (hop, j) ∈ pushes (s.rounds (fuel + 1) st.frontier st.stats).events) :
    ∃ item rest, st.roundHead.frontier.queue = item :: rest ∧
      ((hop, j) ∈ s.entered item ∨ (s.expand item).verdict = none ∧
        let next := s.advance st.roundHead item rest
        (hop, j) ∈ pushes (s.rounds fuel next.frontier next.stats).events) := by
  rw [rounds] at entered
  dsimp only at entered
  split at entered
  · rw [pushes_append, pushes_revisited] at entered
    cases entered
  · next item rest dropped =>
    refine ⟨item, rest, dropped, ?_⟩
    split at entered
    · rw [pushes_append, pushes_append, pushes_revisited, List.nil_append] at entered
      exact Or.inl ((List.mem_append.mp entered).resolve_right List.not_mem_nil)
    · rw [pushes_append, pushes_revisited, List.nil_append] at entered
      exact Or.inl entered
    · next goes =>
      rw [SearchReport.after, pushes_append, pushes_append, pushes_revisited,
        List.nil_append] at entered
      exact (List.mem_append.mp entered).imp_right fun later => ⟨goes, later⟩

/-- What holds of the items in the queue, and of whatever an item of which it holds leads to, holds
of all that is entered later. -/
theorem rounds_invariant {P : Item → Prop} (step : ∀ i hop j, P i → s.Leads i hop j → P j)
    (fuel : Nat) {f : Frontier} {stats : SearchStats} (queue : ∀ i ∈ f.queue, P i)
    (entered : (hop, j) ∈ pushes (s.rounds fuel f stats).events) : P j := by
  induction fuel generalizing f stats with
  | zero =>
    rw [pushes_rounds_zero] at entered
    cases entered
  | succ fuel ih =>
    obtain ⟨item, rest, dropped, entered⟩ := mem_pushes_rounds ⟨f, stats⟩ entered
    have waits : ∀ i ∈ item :: rest, P i := fun i hi =>
      queue i ((List.dropWhile_sublist _).subset (dropped ▸ hi))
    obtain ⟨first, others⟩ := List.forall_mem_cons.mp waits
    have expanded : ∀ hop j, (hop, j) ∈ s.entered item → P j := fun hop j pushed =>
      step item hop j first (leads_of_mem_pushes pushed)
    rcases entered with now | ⟨-, later⟩
    · exact expanded hop j now
    · refine ih (fun i hi => ?_) later
      rcases (Frontier.mem_queue_foldl_enter _ _ i).mp hi with old | ⟨hop, new⟩
      · exact others i old
      · exact expanded hop i new

theorem reachable_of_push (entered : .push hop j ∈ (s.search start).events) :
    s.Reachable start j := by
  refine rounds_invariant (P := s.Reachable start) ?_ _ (fun i hi => ?_) (mem_pushes.mpr entered)
  · rintro i hop j ⟨cost, way⟩ leads
    exact ⟨_, way.snoc leads⟩
  · rw [List.mem_singleton.mp hi]
    exact ⟨0, .nil⟩

theorem Hit.wire?_shownName (settled : s.Settled) (housed : s.Housed i) {m : Module} {select : Wire}
    (hit : s.Hit i m select) :
    m.name ∈ s.index.order ∧ ∃ d, m.wire? (m.shownName select.name) = some d := by
  obtain ⟨found, named, -⟩ := hit
  obtain ⟨hm, same⟩ := s.design.module?_eq_some_iff.mp found
  obtain ⟨m', found', drawn⟩ := housed.drawn
  rw [found] at found'
  cases found'
  refine ⟨same ▸ housed.placed, Module.wire?_shownName (settled.contained m hm) ?_⟩
  obtain ⟨w, hw, isName⟩ := List.mem_map.mp named
  rw [← isName]
  exact Module.wire?_of_mem_stock (Module.mem_stock_of_over drawn hw)

/-- **Containment.** In a design that was read from a document, under any selection and with the
index of the design as it then is, a search from a module of the order over the wires of that module
enters nothing in its queue but items of modules of the order over their own wires. An answer names
a module of the order and a wire of that module. -/
theorem search_contained {doc asked : Value} {d : Design}
    (accepted : Document.design doc asked = .ok d) {selection : Selection} {index : HierarchyIndex}
    (built : ({ d with selection := selection } : Design).index = .ok index) (rule : MuxRule)
    {m : Module} (hm : m ∈ d.modules.toList) (placed : m.name ∈ index.order) {g : Signal}
    (drawn : Chunk.Over m.stock g.chunks) :
    let s : SearchSetting := ⟨{ d with selection := selection }, index, rule⟩
    (∀ i, i = ⟨m.name, g⟩ ∨ (∃ hop, .push hop i ∈ (s.search ⟨m.name, g⟩).events) → s.Housed i) ∧
      ∀ a, (s.search ⟨m.name, g⟩).outcome = .ok a → a.isFound = true →
        a.module ∈ index.order ∧ ∃ inner w, d.module? a.module = some inner ∧
          inner.wire? a.select = some w := by
  intro s
  have contained := Document.selfContained_of_reads (Document.reads_of_design accepted)
  have settled : s.Settled := ⟨built, contained⟩
  have start : s.Housed ⟨m.name, g⟩ := ⟨placed, m, d.module?_eq_some_iff.mpr ⟨hm, rfl⟩, drawn⟩
  constructor
  · rintro i (rfl | ⟨hop, entered⟩)
    · exact start
    · obtain ⟨cost, way⟩ := reachable_of_push entered
      exact way.housed settled start
  · intro a answered isFound
    rcases s.search_cases ⟨m.name, g⟩ with ⟨none, -⟩ | ⟨n, i, way, verdict, -⟩
    · rw [answered] at none
      rw [Except.ok.inj none] at isFound
      cases isFound
    · rw [answered] at verdict
      obtain ⟨inner, select, hit, -, rfl⟩ := hit_of_expand_verdict verdict
      obtain ⟨isPlaced, w, declared⟩ := hit.wire?_shownName settled (way.housed settled start)
      obtain ⟨hinner, -⟩ := s.design.module?_eq_some_iff.mp hit.1
      exact ⟨isPlaced, inner, w, d.module?_eq_some_iff.mpr ⟨hinner, rfl⟩, declared⟩

/-- A document in which `leaf`, inside `top`, has a multiplexer whose select is its port. -/
def nestedDocument : Value :=
  .map [(.text "modules", .map [
    (.text "top", .map [
      (.text "wires", .map [(.text "x", .null)]),
      (.text "cells", .map [(.text "u", .map [(.text "type", .text "leaf"),
        (.text "connections", .map [(.text "a", .text "x")])])])]),
    (.text "leaf", .map [
      (.text "wires", .map [(.text "a", .map [(.text "direction", .text "input")]),
        (.text "y", .null)]),
      (.text "cells", .map [(.text "m", .map [(.text "type", .text "$mux"),
        (.text "connections", .map [(.text "A", .bool true), (.text "S", .text "a"),
          (.text "Y", .text "y")])])])])])]

/-- The design that the document gives. -/
def nested : Design := (Document.design nestedDocument .null).toOption.getD (.new none)

/-- All of `leaf`, and of `top` its one cell. -/
def nestedSelection : Selection := ⟨false, ["\\leaf"], [("\\top", ["\\u"])]⟩

theorem nested_accepted : Document.design nestedDocument .null = .ok nested := by
  have isOk : (Document.design nestedDocument .null).toOption.isSome = true := by decide +kernel
  cases answer : Document.design nestedDocument .null with
  | error _ =>
    rw [answer] at isOk
    cases isOk
  | ok d =>
    rw [nested, answer]
    rfl

/-- The wire of `top`. -/
def nestedWire : Wire := ⟨"\\x", 1, .declared "\\top"⟩

theorem search_contained_nested : ∃ index m,
    Document.design nestedDocument .null = .ok nested ∧
    ({ nested with selection := nestedSelection } : Design).index = .ok index ∧
    m ∈ nested.modules.toList ∧ m.name = "\\top" ∧ m.name ∈ index.order ∧
    Chunk.Over m.stock (Signal.ofWire nestedWire).chunks ∧
    let s : SearchSetting := ⟨{ nested with selection := nestedSelection }, index, .customary⟩
    (∀ i, i = ⟨m.name, .ofWire nestedWire⟩ ∨
      (∃ hop, .push hop i ∈ (s.search ⟨m.name, .ofWire nestedWire⟩).events) → s.Housed i) ∧
    (s.search ⟨m.name, .ofWire nestedWire⟩).outcome = .ok ⟨"\\a", "\\leaf"⟩ ∧
    "\\leaf" ∈ index.order ∧
      ∃ inner w, nested.module? "\\leaf" = some inner ∧ inner.wire? "\\a" = some w := by
  have isTop : (nested.module? "\\top").map (fun m => m.wires.toList.map (·.toWire)) =
      some [nestedWire] := by
    decide +kernel
  have search : ({ nested with selection := nestedSelection } : Design).index.toOption.map
      (fun index => (index.order, (SearchSetting.search
        ⟨{ nested with selection := nestedSelection }, index, .customary⟩
        ⟨"\\top", .ofWire nestedWire⟩).outcome)) =
      some (["\\leaf", "\\top"], .ok ⟨"\\a", "\\leaf"⟩) := by
    decide +kernel
  obtain ⟨m, found, wires⟩ := Option.map_eq_some_iff.mp isTop
  obtain ⟨hm, named⟩ := nested.module?_eq_some_iff.mp found
  cases built : ({ nested with selection := nestedSelection } : Design).index with
  | error fault =>
    rw [built] at search
    cases search
  | ok index =>
    rw [built] at search
    obtain ⟨order, outcome⟩ := Prod.mk.inj (Option.some.inj search)
    have placed : m.name ∈ index.order := by
      rw [named, order]
      decide
    have isWire : nestedWire ∈ m.stock := by
      refine List.mem_map.mp ?_
      rw [wires]
      exact List.mem_singleton_self _
    have drawn : Chunk.Over m.stock (Signal.ofWire nestedWire).chunks :=
      Signal.over_slice (Nat.le_refl _) isWire
    obtain ⟨housed, answer⟩ := search_contained nested_accepted built .customary hm placed drawn
    have answered : (SearchSetting.search
        ⟨{ nested with selection := nestedSelection }, index, .customary⟩
        ⟨m.name, .ofWire nestedWire⟩).outcome = .ok ⟨"\\a", "\\leaf"⟩ := by
      rw [show m.name = "\\top" from named]
      exact outcome
    exact ⟨index, m, nested_accepted, rfl, hm, named, placed, drawn, housed, answered,
      answer _ answered rfl⟩

end SearchSetting

end NearestMux
