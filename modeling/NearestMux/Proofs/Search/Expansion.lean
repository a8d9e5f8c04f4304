import Mathlib.Data.List.TakeWhile
import NearestMux.Proofs.Search.Leads

/-!
# Expansions — the relation, computed

An expansion looks at cells in their order and stops at the first multiplexer with a genuine select.
Read without its order it computes the relation of `Leads`, and it ends exactly where a search is to
stop.

* `mem_pushes_expand_iff`: an expansion that goes on enters exactly what the item leads to.
* `leads_of_mem_pushes`: an expansion that ends the search enters nothing else either.
* `hit_of_expand_verdict`, `fault_of_expand_verdict`, `not_stops_of_expand_verdict`: an expansion
  ends with an answer at a hit and with a fault in a module with processes; an item at which it goes
  on is neither.
* `expandWire_eq_of_name_eq`, `expand_eq_of_key_eq`: wires of one name and items of one key are
  expanded alike.

The lemmas before them go from the inside out: the bindings of a wire, the multiplexers among them,
the other four ways on, a wire, a signal, an item.
-/

namespace NearestMux

namespace SearchSetting

variable {s : SearchSetting} {m : Module} {w : Wire} {i j : Item} {hop : Hop}

/-! ## The bindings of a wire -/

theorem mem_bound {p : Cell → Bool} {c : Cell} {b : Binding} :
    (c, b) ∈ s.bound m w p ↔ (c ∈ s.design.selectedCells m ∧ p c = true) ∧
      b ∈ c.bindings.toList ∧ b.signal.isWhole w.name = true := by
  simp only [bound, List.mem_flatMap, List.mem_map, List.mem_filter, Prod.mk.injEq]
  constructor
  · rintro ⟨_, hc, _, hb, rfl, rfl⟩
    exact ⟨hc, hb⟩
  · rintro ⟨hc, hb⟩
    exact ⟨c, hc, b, hb, rfl, rfl⟩

theorem mem_readers {p : Cell → Bool} {c : Cell} {b : Binding} :
    (c, b) ∈ s.readers m w p ↔ ((c ∈ s.design.selectedCells m ∧ p c = true) ∧
      b ∈ c.bindings.toList ∧ b.signal.isWhole w.name = true) ∧ s.design.reads c b.port = true := by
  rw [readers, List.mem_filter, mem_bound]

/-! ## Multiplexers -/

/-- Whether a binding of a multiplexer ends the search at a wire that it reads. -/
def isGenuineSelect (s : SearchSetting) (p : Cell × Binding) : Bool :=
  p.2.port == selectPort && s.rule.selectKind p.1 == .genuine

theorem isGenuineSelect_iff {c : Cell} {b : Binding} :
    s.isGenuineSelect (c, b) = true ↔ b.port = selectPort ∧ s.rule.selectKind c = .genuine := by
  rw [isGenuineSelect, Bool.and_eq_true, beq_iff_eq, beq_iff_eq]

/-- The first genuine select ends the search. -/
theorem verdict_passMuxes (bindings : List (Cell × Binding)) :
    (s.passMuxes m w bindings).verdict = (bindings.find? s.isGenuineSelect).map fun p =>
      match MuxRule.selectWire? p.1 with
      | some select => .ok ⟨m.shownName select.name, m.name⟩
      | none => .error (.noSelectWire p.1.name) := by
  induction bindings with
  | nil => rfl
  | cons p rest ih =>
    obtain ⟨c, b⟩ := p
    rw [passMuxes]
    by_cases h : b.port = selectPort ∧ s.rule.selectKind c = .genuine
    · have ends : s.isGenuineSelect (c, b) = true := isGenuineSelect_iff.mpr h
      rw [if_pos h, List.find?_cons_of_pos ends]
      split <;> simp [*]
    · have passes : ¬ s.isGenuineSelect (c, b) = true := fun ends => h (isGenuineSelect_iff.mp ends)
      rw [if_neg h, List.find?_cons_of_neg passes]
      simp only [Expansion.verdict_andThen, Expansion.verdict_going, Option.none_or, ih]

/-- The bindings in front of the first genuine select are passed through. -/
theorem pushes_passMuxes (bindings : List (Cell × Binding)) :
    pushes (s.passMuxes m w bindings).events =
      (bindings.takeWhile fun p => !s.isGenuineSelect p).map fun p =>
        (.mux, ⟨m.name, p.1.signal outputPort⟩) := by
  induction bindings with
  | nil => rfl
  | cons p rest ih =>
    obtain ⟨c, b⟩ := p
    rw [passMuxes]
    by_cases h : b.port = selectPort ∧ s.rule.selectKind c = .genuine
    · have ends : s.isGenuineSelect (c, b) = true := isGenuineSelect_iff.mpr h
      rw [if_pos h, List.takeWhile_cons_of_neg (by simp [ends])]
      split <;> rfl
    · have passes : s.isGenuineSelect (c, b) = false :=
        Bool.eq_false_iff.mpr fun ends => h (isGenuineSelect_iff.mp ends)
      rw [if_neg h, List.takeWhile_cons_of_pos (by simp [passes]), List.map_cons, ← ih]
      simp only [Expansion.events_andThen, Expansion.verdict_going, Expansion.events_going,
        Option.isNone_none, ↓reduceIte, pushes_append, List.append_assoc]
      split <;> rfl

theorem push_mem_passMuxes {bindings : List (Cell × Binding)}
    (h : Event.push hop j ∈ (s.passMuxes m w bindings).events) :
    ∃ c b, (c, b) ∈ bindings ∧ s.isGenuineSelect (c, b) = false ∧
      hop = .mux ∧ j = ⟨m.name, c.signal outputPort⟩ := by
  rw [← mem_pushes, pushes_passMuxes, List.mem_map] at h
  obtain ⟨⟨c, b⟩, hp, he⟩ := h
  cases he
  exact ⟨c, b, (List.takeWhile_sublist _).subset hp, by simpa using List.mem_takeWhile_imp hp,
    rfl, rfl⟩

theorem push_mem_passMuxes_of_mem {bindings : List (Cell × Binding)} {c : Cell} {b : Binding}
    (goes : (s.passMuxes m w bindings).verdict = none) (h : (c, b) ∈ bindings) :
    Event.push .mux ⟨m.name, c.signal outputPort⟩ ∈ (s.passMuxes m w bindings).events := by
  rw [verdict_passMuxes, Option.map_eq_none_iff, List.find?_eq_none] at goes
  -- nothing ends the search, so no binding stands behind a genuine select
  have all : bindings.takeWhile (fun p => !s.isGenuineSelect p) = bindings :=
    List.takeWhile_eq_self_iff.mpr fun p hp => by simpa using goes p hp
  rw [← mem_pushes, pushes_passMuxes, all]
  exact List.mem_map.mpr ⟨(c, b), h, rfl⟩

/-- A multiplexer that ends the search is selected by the wire. -/
theorem selects_of_reader {c : Cell} {b : Binding} (h : (c, b) ∈ s.readers m w s.rule.isMux)
    (ends : s.isGenuineSelect (c, b) = true) :
    ∃ select, s.Selects m c select ∧ select.name = w.name ∧
      MuxRule.selectWire? c = some select := by
  obtain ⟨⟨⟨selected, isMux⟩, bound, whole⟩, reads⟩ := mem_readers.mp h
  obtain ⟨port, kind⟩ := isGenuineSelect_iff.mp ends
  obtain ⟨select, isSelect, named⟩ := (Signal.isWhole_iff _ _).mp whole
  rw [← c.signal_of_mem bound, port] at isSelect
  have wire := MuxRule.selectWire?_of_whole isSelect
  exact ⟨select, ⟨selected, isMux, port ▸ reads, isSelect,
    (s.rule.selectKind_eq_genuine_iff wire).mp kind⟩, named, wire⟩

/-- A multiplexer that a wire of the name selects is among those that end the search. -/
theorem Selects.reader {c : Cell} {select : Wire} (h : s.Selects m c select)
    (named : w.name = select.name) :
    ∃ b, (c, b) ∈ s.readers m w s.rule.isMux ∧ s.isGenuineSelect (c, b) = true := by
  obtain ⟨b, bound, port, same⟩ := c.exists_binding (Signal.isEmpty_of_wholeWire? h.whole)
  have whole : b.signal.isWhole w.name = true :=
    (Signal.isWhole_iff _ _).mpr ⟨select, same ▸ h.whole, named.symm⟩
  have kind : s.rule.selectKind c = .genuine :=
    (s.rule.selectKind_eq_genuine_iff (MuxRule.selectWire?_of_whole h.whole)).mpr h.genuine
  exact ⟨b, mem_readers.mpr ⟨⟨⟨h.selected, h.isMux⟩, bound, whole⟩, port ▸ h.reads⟩,
    isGenuineSelect_iff.mpr ⟨port, kind⟩⟩

/-! ## The other cells, the connections, the hierarchy -/

theorem push_mem_throughCells : Event.push hop j ∈ s.throughCells m w ↔
    ∃ c b out, (c, b) ∈ s.readers m w (fun c => !s.design.isInstance c) ∧
      (out ∈ c.bindings.toList ∧ s.design.drives c out.port = true) ∧ out.signal.isEmpty = false ∧
      hop = .cell c.type ∧ j = ⟨m.name, out.signal⟩ := by
  simp only [throughCells, outputPushes, Design.outputs, List.mem_flatMap, List.mem_map,
    List.mem_filter, Event.push.injEq, Bool.not_eq_true']
  constructor
  · rintro ⟨⟨c, b⟩, hr, out, ⟨ho, hb⟩, rfl, rfl⟩
    exact ⟨c, b, out, hr, ho, hb, rfl, rfl⟩
  · rintro ⟨c, b, out, hr, ho, hb, rfl, rfl⟩
    exact ⟨(c, b), hr, out, ⟨ho, hb⟩, rfl, rfl⟩

theorem push_mem_throughConnections : Event.push hop j ∈ throughConnections m w ↔
    ∃ k ∈ m.connections, k.source.isWhole w.name = true ∧
      hop = .connection ∧ j = ⟨m.name, k.target⟩ := by
  simp only [throughConnections, List.mem_map, List.mem_filter, Event.push.injEq, and_assoc,
    eq_comm]

theorem push_mem_intoInstances : Event.push hop j ∈ s.intoInstances m w ↔
    ∃ c b inner d, (c, b) ∈ s.bound m w s.design.isInstance ∧ s.design.drives c b.port = false ∧
      s.design.instantiated? c = some inner ∧ inner.wire? (Identifier.escape b.port) = some d ∧
      hop = .submodule ∧ j = ⟨inner.name, .ofWire d.toWire⟩ := by
  simp only [intoInstances, List.mem_filterMap, List.mem_filter, Option.map_eq_some_iff,
    Bool.not_eq_true']
  constructor
  · rintro ⟨⟨c, b⟩, ⟨hb, hd⟩, inner, hi, he⟩
    unfold intoPort at he
    split at he
    · next d declared =>
      cases he
      exact ⟨c, b, inner, d, hb, hd, hi, declared, rfl, rfl⟩
    · cases he
  · rintro ⟨c, b, inner, d, hb, hd, hi, declared, rfl, rfl⟩
    exact ⟨(c, b), ⟨hb, hd⟩, inner, hi, by rw [intoPort, declared]⟩

theorem push_mem_outToParent : Event.push hop j ∈ s.outToParent m w ↔
    ∃ d outer c b, m.wire? w.name = some d ∧ d.isOutput = true ∧ s.parent? m = some outer ∧
      (c ∈ s.design.selectedCells outer ∧ c.type = m.name) ∧ b ∈ c.bindings.toList ∧
      Identifier.escape b.port = w.name ∧ b.signal.isEmpty = false ∧
      hop = .parent ∧ j = ⟨outer.name, b.signal⟩ := by
  unfold outToParent
  cases declared : m.wire? w.name with
  | none => simp
  | some d =>
    cases standsIn : s.parent? m with
    | none => simp
    | some outer =>
      cases out : d.isOutput with
      | false => simp [out]
      | true =>
        simp only [Option.any_some, out, ↓reduceIte, atInstances, List.mem_flatMap,
          List.mem_filter, List.mem_map, Event.push.injEq, beq_iff_eq, Bool.and_eq_true,
          Bool.not_eq_true', Option.some.injEq]
        constructor
        · rintro ⟨c, hc, b, ⟨hb, hp, he⟩, rfl, rfl⟩
          exact ⟨d, outer, c, b, rfl, out, rfl, hc, hb, hp, he, rfl, rfl⟩
        · rintro ⟨_, _, c, b, rfl, -, rfl, hc, hb, hp, he, rfl, rfl⟩
          exact ⟨c, hc, b, ⟨hb, hp, he⟩, rfl, rfl⟩

/-! ## A wire -/

theorem verdict_expandWire : (s.expandWire m w).verdict =
    (s.passMuxes m w (s.readers m w s.rule.isMux)).verdict := by
  simp [expandWire]

theorem push_mem_expandWire : Event.push hop j ∈ (s.expandWire m w).events ↔
    Event.push hop j ∈ (s.passMuxes m w (s.readers m w s.rule.isMux)).events ∨
      (s.expandWire m w).verdict = none ∧
        (Event.push hop j ∈ s.throughCells m w ∨ Event.push hop j ∈ throughConnections m w ∨
          Event.push hop j ∈ s.intoInstances m w ∨ Event.push hop j ∈ s.outToParent m w) := by
  rw [verdict_expandWire, expandWire, Expansion.events_andThen, Expansion.events_andThen]
  cases goes : (s.passMuxes m w (s.readers m w s.rule.isMux)).verdict <;> simp [goes]

/-- What the expansion of a wire enters in the queue, the wire leads to. -/
theorem wireLeads_of_push (h : Event.push hop j ∈ (s.expandWire m w).events) :
    s.WireLeads m w.name hop j := by
  rcases push_mem_expandWire.mp h with h | ⟨-, h | h | h | h⟩
  · obtain ⟨c, b, hr, passes, rfl, rfl⟩ := push_mem_passMuxes h
    obtain ⟨⟨⟨selected, isMux⟩, bound, whole⟩, reads⟩ := mem_readers.mp hr
    refine .mux selected isMux bound whole reads fun port => ?_
    cases kind : s.rule.selectKind c with
    | reset => rfl
    | genuine =>
      rw [isGenuineSelect_iff.mpr ⟨port, kind⟩] at passes
      cases passes
  · obtain ⟨c, b, out, hr, ⟨ho, drives⟩, hasBits, rfl, rfl⟩ := push_mem_throughCells.mp h
    obtain ⟨⟨⟨selected, primitive⟩, bound, whole⟩, reads⟩ := mem_readers.mp hr
    exact .cell selected (by simpa using primitive) bound whole reads ho drives hasBits
  · obtain ⟨k, made, whole, rfl, rfl⟩ := push_mem_throughConnections.mp h
    exact .connection made whole
  · obtain ⟨c, b, inner, d, hb, enters, instantiates, declared, rfl, rfl⟩ :=
      push_mem_intoInstances.mp h
    obtain ⟨⟨selected, -⟩, bound, whole⟩ := mem_bound.mp hb
    exact .submodule selected instantiates bound whole enters declared
  · obtain ⟨d, outer, c, b, declared, isOutput, standsIn, ⟨selected, instantiates⟩, bound, atPort,
      hasBits, rfl, rfl⟩ := push_mem_outToParent.mp h
    exact .parent declared isOutput standsIn selected instantiates bound atPort hasBits

/-- An expansion of a wire that goes on enters all that the wire leads to. -/
theorem WireLeads.push (goes : (s.expandWire m w).verdict = none) (h : s.WireLeads m w.name hop j) :
    Event.push hop j ∈ (s.expandWire m w).events := by
  rw [push_mem_expandWire]
  cases h with
  | mux selected isMux bound whole reads _ =>
    rw [verdict_expandWire] at goes
    exact Or.inl (push_mem_passMuxes_of_mem goes
      (mem_readers.mpr ⟨⟨⟨selected, isMux⟩, bound, whole⟩, reads⟩))
  | cell selected primitive bound whole reads output drives hasBits =>
    refine Or.inr ⟨goes, Or.inl (push_mem_throughCells.mpr ⟨_, _, _, mem_readers.mpr
      ⟨⟨⟨selected, ?_⟩, bound, whole⟩, reads⟩, ⟨output, drives⟩, hasBits, rfl, rfl⟩)⟩
    simpa using primitive
  | connection made whole =>
    exact Or.inr ⟨goes, Or.inr (Or.inl (push_mem_throughConnections.mpr
      ⟨_, made, whole, rfl, rfl⟩))⟩
  | submodule selected instantiates bound whole enters declared =>
    have isInstance := congrArg Option.isSome instantiates
    exact Or.inr ⟨goes, Or.inr (Or.inr (Or.inl (push_mem_intoInstances.mpr
      ⟨_, _, _, _, mem_bound.mpr ⟨⟨selected, isInstance⟩, bound, whole⟩, enters, instantiates,
        declared, rfl, rfl⟩)))⟩
  | parent declared isOutput standsIn selected instantiates bound atPort hasBits =>
    exact Or.inr ⟨goes, Or.inr (Or.inr (Or.inr (push_mem_outToParent.mpr
      ⟨_, _, _, _, declared, isOutput, standsIn, ⟨selected, instantiates⟩, bound, atPort, hasBits,
        rfl, rfl⟩)))⟩

/-- A wire ends the search with an answer, and only at a multiplexer that it selects. -/
theorem selects_of_expandWire_verdict {v : Except SearchFault SearchAnswer}
    (h : (s.expandWire m w).verdict = some v) :
    ∃ c select, s.Selects m c select ∧ select.name = w.name ∧
      v = .ok ⟨m.shownName select.name, m.name⟩ := by
  rw [verdict_expandWire, verdict_passMuxes, Option.map_eq_some_iff] at h
  obtain ⟨⟨c, b⟩, found, rfl⟩ := h
  obtain ⟨select, selects, named, wire⟩ :=
    selects_of_reader (List.mem_of_find?_eq_some found) (List.find?_some found)
  exact ⟨c, select, selects, named, by rw [wire]⟩

/-- A wire of the name of a genuine select ends the search. -/
theorem Selects.expandWire_verdict_ne_none {c : Cell} {select : Wire} (h : s.Selects m c select)
    (named : w.name = select.name) : (s.expandWire m w).verdict ≠ none := by
  obtain ⟨b, hr, ends⟩ := h.reader named
  rw [verdict_expandWire, verdict_passMuxes, ne_eq, Option.map_eq_none_iff, List.find?_eq_none]
  exact fun none => none _ hr ends

/-! ## An item -/

/-- The first wire that ends the search ends it for the signal. -/
theorem verdict_expandChunks (chunks : List Chunk) : (s.expandChunks m chunks).verdict =
    (chunks.filterMap Chunk.wire?).findSome? fun wire => (s.expandWire m wire).verdict := by
  induction chunks with
  | nil => rfl
  | cons c rest ih =>
    cases c with
    | const bits =>
      rw [expandChunks, Expansion.verdict_andThen, Expansion.verdict_going, Option.none_or, ih]
      rfl
    | slice wire offset width inside =>
      rw [expandChunks, Expansion.verdict_andThen, ih]
      change _ = List.findSome? _ (wire :: _)
      rw [List.findSome?_cons]
      cases (s.expandWire m wire).verdict <;> rfl

theorem push_mem_expandChunks {chunks : List Chunk}
    (h : Event.push hop j ∈ (s.expandChunks m chunks).events) :
    ∃ wire ∈ chunks.filterMap Chunk.wire?,
      Event.push hop j ∈ (s.expandWire m wire).events := by
  induction chunks with
  | nil => cases h
  | cons c rest ih =>
    cases c with
    | const bits =>
      rw [expandChunks, Expansion.events_andThen] at h
      exact ih (by simpa using h)
    | slice wire offset width inside =>
      change ∃ wire' ∈ wire :: rest.filterMap Chunk.wire?, _
      rw [expandChunks, Expansion.events_andThen, List.mem_append] at h
      rcases h with h | h
      · exact ⟨wire, List.mem_cons_self, h⟩
      · split at h
        · obtain ⟨wire', hw, h⟩ := ih h
          exact ⟨wire', List.mem_cons_of_mem _ hw, h⟩
        · cases h

theorem push_mem_expandChunks_of_mem {chunks : List Chunk} {wire : Wire}
    (goes : (s.expandChunks m chunks).verdict = none) (hw : wire ∈ chunks.filterMap Chunk.wire?)
    (h : Event.push hop j ∈ (s.expandWire m wire).events) :
    Event.push hop j ∈ (s.expandChunks m chunks).events := by
  induction chunks with
  | nil => cases hw
  | cons c rest ih =>
    cases c with
    | const bits =>
      rw [expandChunks, Expansion.verdict_andThen] at goes
      rw [expandChunks, Expansion.events_andThen]
      exact List.mem_append_right _ (ih goes hw)
    | slice wire' offset width inside =>
      change wire ∈ wire' :: rest.filterMap Chunk.wire? at hw
      rw [expandChunks, Expansion.verdict_andThen, Option.or_eq_none_iff] at goes
      rw [expandChunks, Expansion.events_andThen, goes.1]
      rcases List.mem_cons.mp hw with rfl | hw
      · exact List.mem_append_left _ h
      · exact List.mem_append_right _ (ih goes.2 hw)

/-- What an expansion enters in the queue, the item leads to. -/
theorem leads_of_mem_pushes (h : (hop, j) ∈ pushes (s.expand i).events) : s.Leads i hop j := by
  rw [mem_pushes, expand] at h
  split at h
  · cases h
  · next m found =>
    split at h
    · obtain ⟨wire, hw, h⟩ := push_mem_expandChunks h
      exact ⟨m, wire.name, found, List.mem_map_of_mem hw, wireLeads_of_push h⟩
    · cases h

/-- The module of an item whose expansion goes on, and what the expansion then is. -/
theorem expand_verdict_eq_none_iff : (s.expand i).verdict = none ↔
    ∃ m, s.design.module? i.module = some m ∧ m.processes = [] ∧
      (s.expandChunks m i.signal.chunks).verdict = none := by
  rw [expand]
  split
  · next missing => simp [missing]
  · next m found =>
    split
    · next lowered => simp [found, List.isEmpty_iff.mp lowered]
    · next unresolved => simp_all

/-- An expansion that goes on enters exactly what the item leads to. -/
theorem mem_pushes_expand_iff (goes : (s.expand i).verdict = none) :
    (hop, j) ∈ pushes (s.expand i).events ↔ s.Leads i hop j := by
  refine ⟨leads_of_mem_pushes, ?_⟩
  rintro ⟨m, w, found, hw, leads⟩
  obtain ⟨m', found', lowered, goes⟩ := expand_verdict_eq_none_iff.mp goes
  obtain rfl : m = m' := Option.some.inj (found.symm.trans found')
  obtain ⟨wire, hwire, rfl⟩ := List.mem_map.mp hw
  have goesOn : (s.expandWire m wire).verdict = none := by
    rw [verdict_expandChunks, List.findSome?_eq_none_iff] at goes
    exact goes wire hwire
  rw [mem_pushes, expand, found]
  simp only [lowered, List.isEmpty_nil, ↓reduceIte]
  exact push_mem_expandChunks_of_mem goes hwire (leads.push goesOn)

/-- An expansion ends with an answer at a hit in a module without processes, and the answer tells of
the hit. -/
theorem hit_of_expand_verdict {a : SearchAnswer} (h : (s.expand i).verdict = some (.ok a)) :
    ∃ m select, s.Hit i m select ∧ m.processes = [] ∧
      a = ⟨m.shownName select.name, m.name⟩ := by
  rw [expand] at h
  split at h
  · cases h
  · next m found =>
    split at h
    · next lowered =>
      rw [verdict_expandChunks] at h
      obtain ⟨wire, hw, h⟩ := List.exists_of_findSome?_eq_some h
      obtain ⟨c, select, selects, named, he⟩ := selects_of_expandWire_verdict h
      cases he
      exact ⟨m, select, ⟨found, named ▸ List.mem_map_of_mem hw, c, selects⟩,
        List.isEmpty_iff.mp lowered, rfl⟩
    · cases h

/-- An expansion ends with a fault when the module is missing or still has processes. -/
theorem fault_of_expand_verdict {fault : SearchFault}
    (h : (s.expand i).verdict = some (.error fault)) :
    s.design.module? i.module = none ∨
      ∃ m, s.Unresolved i m ∧ fault = .unresolvedProcess m.name := by
  rw [expand] at h
  split at h
  · next missing => exact Or.inl missing
  · next m found =>
    split at h
    · rw [verdict_expandChunks] at h
      obtain ⟨wire, -, h⟩ := List.exists_of_findSome?_eq_some h
      obtain ⟨_, _, _, _, he⟩ := selects_of_expandWire_verdict h
      cases he
    · next unresolved =>
      cases h
      exact Or.inr ⟨m, ⟨found, fun none => unresolved (List.isEmpty_iff.mpr none)⟩, rfl⟩

/-- A search does not stop at an item whose expansion goes on. -/
theorem not_stops_of_expand_verdict (goes : (s.expand i).verdict = none) : ¬ s.Stops i := by
  obtain ⟨m, found, lowered, goes⟩ := expand_verdict_eq_none_iff.mp goes
  rintro (⟨m', select, found', hw, c, selects⟩ | ⟨m', found', unresolved⟩)
  · obtain rfl : m = m' := Option.some.inj (found.symm.trans found')
    obtain ⟨wire, hwire, named⟩ := List.mem_map.mp hw
    rw [verdict_expandChunks, List.findSome?_eq_none_iff] at goes
    exact selects.expandWire_verdict_ne_none named (goes wire hwire)
  · obtain rfl : m = m' := Option.some.inj (found.symm.trans found')
    exact unresolved lowered

/-! ## Wires of one name -/

section OneName

variable {w' : Wire} (named : w.name = w'.name)

include named

theorem bound_eq_of_name_eq (p : Cell → Bool) : s.bound m w p = s.bound m w' p := by
  rw [bound, bound, named]

theorem readers_eq_of_name_eq (p : Cell → Bool) : s.readers m w p = s.readers m w' p := by
  rw [readers, readers, bound_eq_of_name_eq named]

theorem passMuxes_eq_of_name_eq (bindings : List (Cell × Binding)) :
    s.passMuxes m w bindings = s.passMuxes m w' bindings := by
  induction bindings with
  | nil => rfl
  | cons p rest ih => rw [passMuxes, passMuxes, ih, named]

theorem throughCells_eq_of_name_eq : s.throughCells m w = s.throughCells m w' := by
  rw [throughCells, throughCells, readers_eq_of_name_eq named]

theorem throughConnections_eq_of_name_eq : throughConnections m w = throughConnections m w' := by
  rw [throughConnections, throughConnections, named]

theorem intoInstances_eq_of_name_eq : s.intoInstances m w = s.intoInstances m w' := by
  rw [intoInstances, intoInstances, bound_eq_of_name_eq named]

theorem outToParent_eq_of_name_eq : s.outToParent m w = s.outToParent m w' := by
  rw [outToParent, outToParent, named]

/-- Where a wire was declared and how wide it is makes no difference to any of the five ways on. -/
theorem expandWire_eq_of_name_eq : s.expandWire m w = s.expandWire m w' := by
  rw [expandWire, expandWire, named, readers_eq_of_name_eq named, passMuxes_eq_of_name_eq named,
    throughCells_eq_of_name_eq named, throughConnections_eq_of_name_eq named,
    intoInstances_eq_of_name_eq named, outToParent_eq_of_name_eq named]

end OneName

/-! ## Items of one key -/

theorem expandChunks_eq_of_map_key_eq {first second : List Chunk}
    (h : first.map Chunk.key = second.map Chunk.key) :
    s.expandChunks m first = s.expandChunks m second := by
  induction first generalizing second with
  | nil =>
    rw [List.map_nil, eq_comm, List.map_eq_nil_iff] at h
    rw [h]
  | cons c rest ih =>
    cases second with
    | nil => cases h
    | cons d others =>
      obtain ⟨same, tails⟩ := List.cons.inj h
      cases c <;> cases d <;> simp only [Chunk.key, reduceCtorEq, Chunk.Key.slice.injEq] at same
      · rw [expandChunks, expandChunks, ih tails]
      · rw [expandChunks, expandChunks, ih tails, expandWire_eq_of_name_eq same.1]

/-- Items of one key are expanded alike: an expansion reads of an item the name of its module and
the names of its wires. -/
theorem expand_eq_of_key_eq (h : i.key = j.key) : s.expand i = s.expand j := by
  obtain ⟨module, signal⟩ := Prod.mk.inj h
  rw [expand, expand, module]
  simp only [expandChunks_eq_of_map_key_eq signal]

end SearchSetting

end NearestMux
