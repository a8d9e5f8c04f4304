import NearestMux.Proofs.Search.Expansion
import NearestMux.Proofs.Search.Turns

/-!
# Termination — every search comes to an end

A queue may grow, and it may take in items that were looked at before. What cannot grow for ever is
the number of items looked at: no two of them have one key, and every one is the start or stands at
a place of the design (`Design.places`): a target of a connection, what a cell binds to a port, or a
declared wire. There are as many places as `Design.itemBound` counts, so the rounds of a search do
not run out (`search_runs`).

`search_terminates` says what else follows from the places: the modules of all items are there, so
that nothing but a module with processes can be the fault of a search.
-/

namespace NearestMux

/-! ## Places -/

/-- What a module gives a search: the targets of its connections, what its cells bind to their
ports, and its wires. -/
def Module.signals (m : Module) : List Signal :=
  m.connections.map Connection.target ++
    m.cells.toList.flatMap (fun c => c.bindings.toList.map Binding.signal) ++
    m.wires.toList.map fun d => .ofWire d.toWire

/-- The items that a design gives a search. -/
def Design.places (d : Design) : List Item :=
  d.modules.toList.flatMap fun m => m.signals.map (Item.mk m.name)

theorem Module.length_signals (m : Module) : m.signals.length = m.itemCount := by
  simp only [signals, itemCount, List.length_append, List.length_map, List.length_flatMap,
    Roster.size, List.sum_eq_foldr]

theorem Design.length_places (d : Design) : 1 + d.places.length = d.itemBound := by
  simp only [places, itemBound, List.length_flatMap, List.length_map, Module.length_signals,
    List.sum_eq_foldr]

theorem Design.mem_places {d : Design} {m : Module} (hm : m ∈ d.modules.toList) {g : Signal}
    (hg : g ∈ m.signals) : (⟨m.name, g⟩ : Item) ∈ d.places :=
  List.mem_flatMap.mpr ⟨m, hm, List.mem_map_of_mem hg⟩

theorem Design.exists_module_of_mem_places {d : Design} {i : Item} (h : i ∈ d.places) :
    ∃ m, d.module? i.module = some m := by
  obtain ⟨m, hm, hi⟩ := List.mem_flatMap.mp h
  obtain ⟨g, -, rfl⟩ := List.mem_map.mp hi
  exact ⟨m, d.module?_eq_some_iff.mpr ⟨hm, rfl⟩⟩

theorem Module.target_mem_signals {m : Module} {k : Connection} (h : k ∈ m.connections) :
    k.target ∈ m.signals :=
  List.mem_append_left _ (List.mem_append_left _ (List.mem_map_of_mem h))

theorem Module.binding_mem_signals {m : Module} {c : Cell} {b : Binding} (hc : c ∈ m.cells.toList)
    (hb : b ∈ c.bindings.toList) : b.signal ∈ m.signals :=
  List.mem_append_left _ (List.mem_append_right _
    (List.mem_flatMap.mpr ⟨c, hc, List.mem_map_of_mem hb⟩))

theorem Module.wire_mem_signals {m : Module} {d : Declaration} (h : d ∈ m.wires.toList) :
    .ofWire d.toWire ∈ m.signals :=
  List.mem_append_right _ (List.mem_map.mpr ⟨d, h, rfl⟩)

namespace SearchSetting

variable {s : SearchSetting} {m outer : Module} {start i j item : Item} {hop : Hop}
  {st st' : SearchState} {rest : List Item}

theorem parent?_mem (h : s.parent? m = some outer) : outer ∈ s.design.modules.toList := by
  obtain ⟨name, -, found⟩ := Option.bind_eq_some_iff.mp h
  exact (s.design.module?_eq_some_iff.mp found).1

/-- Whatever an item leads to is a place of the design. -/
theorem Leads.mem_places (h : s.Leads i hop j) : j ∈ s.design.places := by
  obtain ⟨m, w, found, -, leads⟩ := h
  have hm : m ∈ s.design.modules.toList := (s.design.module?_eq_some_iff.mp found).1
  cases leads with
  | @mux c b selected isMux _ _ _ _ =>
    obtain ⟨out, hout, -, same⟩ := c.exists_binding (MuxRule.output_of_isMux isMux)
    have hc : c ∈ m.cells.toList := (s.design.mem_selectedCells.mp selected).1
    exact Design.mem_places hm (same ▸ Module.binding_mem_signals hc hout)
  | cell selected _ _ _ _ output _ _ =>
    have hc := (s.design.mem_selectedCells.mp selected).1
    exact Design.mem_places hm (Module.binding_mem_signals hc output)
  | connection made _ => exact Design.mem_places hm (Module.target_mem_signals made)
  | @submodule c b inner d _ instantiates _ _ _ declared =>
    have hinner : inner ∈ s.design.modules.toList :=
      (s.design.module?_eq_some_iff.mp instantiates).1
    have hd : d ∈ inner.wires.toList := (inner.wires.find?_eq_some_iff.mp declared).1
    exact Design.mem_places hinner (Module.wire_mem_signals hd)
  | parent _ _ standsIn selected _ bound _ _ =>
    have hc := (s.design.mem_selectedCells.mp selected).1
    exact Design.mem_places (parent?_mem standsIn) (Module.binding_mem_signals hc bound)

/-! ## The heads of the loop -/

/-- What is so at every head of the loop: the items are the start and places, those looked at have
different keys, and as many of them as were taken out were passed by or looked at. -/
structure Tracked (s : SearchSetting) (start : Item) (st : SearchState) : Prop where
  queued : ∀ i ∈ st.frontier.queue, i ∈ start :: s.design.places
  visited : ∀ i ∈ st.frontier.visited, i ∈ start :: s.design.places
  distinct : (st.frontier.visited.map Item.key).Nodup
  counted : st.stats.popped = st.stats.skipped + st.frontier.visited.length

theorem tracked_start (s : SearchSetting) (start : Item) : s.Tracked start (.start start) where
  queued _ hi := List.mem_cons.mpr (Or.inl (List.mem_singleton.mp hi))
  visited _ hi := nomatch hi
  distinct := List.nodup_nil
  counted := rfl

theorem key_notMem_of_new {f : Frontier} (new : f.hasVisited item = false) :
    item.key ∉ f.visited.map Item.key := by
  rw [← f.hasVisited_iff, new]
  exact Bool.false_ne_true

/-- A turn preserves what is so at the heads of the loop. -/
theorem Tracked.turn (tracked : s.Tracked start st) (turn : s.GoesOn st st') :
    s.Tracked start st' := by
  obtain ⟨item, rest, queue, ⟨-, rfl⟩ | ⟨new, -, rfl⟩⟩ := turn.cases
  · refine ⟨fun i hi => tracked.queued i (queue ▸ List.mem_cons_of_mem _ hi), tracked.visited,
      tracked.distinct, ?_⟩
    have counted := tracked.counted
    simp only [SearchState.passBy, SearchStats.skip]
    omega
  · have known : item ∈ start :: s.design.places :=
      tracked.queued item (queue ▸ List.mem_cons_self)
    constructor
    · intro i hi
      rcases (Frontier.mem_queue_foldl_enter _ _ i).mp hi with hi | ⟨hop, hi⟩
      · exact tracked.queued i (queue ▸ List.mem_cons_of_mem _ hi)
      · exact List.mem_cons_of_mem _ (leads_of_mem_pushes hi).mem_places
    · simp only [advance, Frontier.foldl_enter]
      intro i hi
      rcases List.mem_cons.mp hi with rfl | hi
      · exact known
      · exact tracked.visited i hi
    · simp only [advance, Frontier.foldl_enter]
      exact List.nodup_cons.mpr ⟨key_notMem_of_new new, tracked.distinct⟩
    · have counted := tracked.counted
      simp only [advance, Frontier.foldl_enter, count, SearchStats.pop, SearchStats.enter,
        List.length_cons]
      omega

theorem Runs.tracked (run : s.Runs (.start start) st) : s.Tracked start st :=
  run.invariant (tracked_start s start) fun turn tracked => tracked.turn turn

/-- Items of different keys among the start and the places are no more than the bound. -/
theorem length_le_itemBound {items : List Item} (distinct : (items.map Item.key).Nodup)
    (known : ∀ i ∈ items, i ∈ start :: s.design.places) : items.length ≤ s.design.itemBound := by
  have sub : items.map Item.key ⊆ (start :: s.design.places).map Item.key :=
    List.map_subset _ known
  calc items.length = (items.map Item.key).length := (List.length_map _).symm
    _ ≤ ((start :: s.design.places).map Item.key).length := distinct.length_le_of_subset sub
    _ = s.design.itemBound := by
      rw [List.length_map, List.length_cons, ← s.design.length_places, Nat.add_comm]

theorem Tracked.length_visited_le (tracked : s.Tracked start st) :
    st.frontier.visited.length ≤ s.design.itemBound :=
  length_le_itemBound tracked.distinct tracked.visited

/-- A new item at the front of the queue is one more than were looked at. -/
theorem Tracked.length_visited_lt (tracked : s.Tracked start st)
    (queue : st.frontier.queue = item :: rest) (new : st.frontier.hasVisited item = false) :
    st.frontier.visited.length < s.design.itemBound := by
  have known : item ∈ start :: s.design.places :=
    tracked.queued item (queue ▸ List.mem_cons_self)
  have all : ∀ i ∈ item :: st.frontier.visited, i ∈ start :: s.design.places := by
    intro i hi
    rcases List.mem_cons.mp hi with rfl | hi
    · exact known
    · exact tracked.visited i hi
  have distinct : ((item :: st.frontier.visited).map Item.key).Nodup :=
    List.nodup_cons.mpr ⟨key_notMem_of_new new, tracked.distinct⟩
  exact length_le_itemBound distinct all

/-- **A search is a run.** The turns from the start come to the end that the search reports: its
rounds do not run out. -/
theorem search_runs (s : SearchSetting) (start : Item) :
    ∃ last, s.Runs (.start start) last ∧
      s.turn last = .ends (s.search start).stats (s.search start).outcome := by
  rcases s.rounds_runs s.design.itemBound (.start start) with
    ends | ⟨last, item, rest, run, queue, new, len⟩
  · exact ends
  · have fewer := run.tracked.length_visited_lt queue new
    rw [len] at fewer
    simp only [SearchState.start, Frontier.start, List.length_nil] at fewer
    omega

/-- An expansion of the start that ends the search is all of it. -/
theorem search_of_verdict {outcome : Except SearchFault SearchAnswer}
    (verdict : (s.expand start).verdict = some outcome) : (s.search start).outcome = outcome := by
  obtain ⟨last, run, ends⟩ := s.search_runs start
  have first : s.turn (.start start) = .ends (s.count (.start start) start) outcome :=
    turn_of_verdict rfl rfl verdict
  rcases run.cases_head with rfl | ⟨next, goes, -⟩
  · rw [first] at ends
    exact (Turn.ends.inj ends).2.symm
  · rw [GoesOn, first] at goes
    cases goes

/-! ## What a search comes to -/

/-- An item of a run that starts in the design is in the design. -/
theorem exists_module_of_known (inDesign : ∃ m, s.design.module? start.module = some m)
    (known : i ∈ start :: s.design.places) : ∃ m, s.design.module? i.module = some m := by
  rcases List.mem_cons.mp known with rfl | placed
  · exact inDesign
  · exact Design.exists_module_of_mem_places placed

theorem Tracked.expanded_le (tracked : s.Tracked start st) {stats : SearchStats}
    {outcome : Except SearchFault SearchAnswer} (ends : s.turn st = .ends stats outcome) :
    stats.skipped ≤ stats.popped ∧ stats.popped - stats.skipped ≤ s.design.itemBound := by
  have counted := tracked.counted
  rcases ends_cases ends with ⟨-, rfl, -⟩ | ⟨item, rest, queue, new, -, rfl⟩
  · have bounded := tracked.length_visited_le
    omega
  · have bounded := tracked.length_visited_lt queue new
    simp only [count, SearchStats.pop, SearchStats.enter]
    omega

/-- A run that starts in the design ends with no fault but that of a module with processes. -/
theorem Tracked.fault (tracked : s.Tracked start st)
    (inDesign : ∃ m, s.design.module? start.module = some m) {stats : SearchStats}
    {fault : SearchFault} (ends : s.turn st = .ends stats (.error fault)) :
    ∃ item rest m, st.frontier.queue = item :: rest ∧ s.Unresolved item m ∧
      fault = .unresolvedProcess m.name := by
  rcases ends_cases ends with ⟨-, -, none⟩ | ⟨item, rest, queue, -, verdict, -⟩
  · cases none
  · rcases fault_of_expand_verdict verdict with missing | ⟨m, unresolved, rfl⟩
    · obtain ⟨m, found⟩ :=
        exists_module_of_known inDesign (tracked.queued item (queue ▸ List.mem_cons_self))
      rw [missing] at found
      cases found
    · exact ⟨item, rest, m, queue, unresolved, rfl⟩

/-- **Every search ends, and nothing but processes can fail it.** From any signal of a module of the
design, and whatever the index, the turns come to an end, which is the one that the search reports.
No more items are expanded than the start and the places of the design, every item that is taken out
of the queue is in a module of the design, and a fault names a module that still has processes. -/
theorem search_terminates (s : SearchSetting) {m : Module} (hm : m ∈ s.design.modules.toList)
    (g : Signal) :
    (∃ last, s.Runs (.start ⟨m.name, g⟩) last ∧
      s.turn last = .ends (s.search ⟨m.name, g⟩).stats (s.search ⟨m.name, g⟩).outcome) ∧
    ((s.search ⟨m.name, g⟩).stats.skipped ≤ (s.search ⟨m.name, g⟩).stats.popped ∧
      (s.search ⟨m.name, g⟩).stats.popped - (s.search ⟨m.name, g⟩).stats.skipped ≤
        s.design.itemBound) ∧
    (∀ st item rest, s.Runs (.start ⟨m.name, g⟩) st → st.frontier.queue = item :: rest →
      ∃ inner, s.design.module? item.module = some inner) ∧
    ∀ fault, (s.search ⟨m.name, g⟩).outcome = .error fault →
      ∃ inner ∈ s.design.modules.toList, inner.processes ≠ [] ∧
        fault = .unresolvedProcess inner.name := by
  have inDesign : ∃ inner, s.design.module? m.name = some inner :=
    ⟨m, s.design.module?_eq_some_iff.mpr ⟨hm, rfl⟩⟩
  obtain ⟨last, run, ends⟩ := s.search_runs ⟨m.name, g⟩
  refine ⟨⟨last, run, ends⟩, run.tracked.expanded_le ends, ?_, ?_⟩
  · intro st item rest run queue
    exact exists_module_of_known inDesign (run.tracked.queued item (queue ▸ List.mem_cons_self))
  · intro fault isFault
    rw [isFault] at ends
    obtain ⟨item, rest, inner, -, ⟨found, unresolved⟩, rfl⟩ := run.tracked.fault inDesign ends
    exact ⟨inner, (s.design.module?_eq_some_iff.mp found).1, unresolved, rfl⟩

theorem search_terminates_tied :
    Module.tied ∈ SearchSetting.tied.design.modules.toList ∧
      (SearchSetting.tied.search ⟨Module.tied.name, .ofWire (.bit "\\rstz")⟩).stats.popped -
        (SearchSetting.tied.search ⟨Module.tied.name, .ofWire (.bit "\\rstz")⟩).stats.skipped ≤
          11 := by
  have hm : Module.tied ∈ SearchSetting.tied.design.modules.toList := List.mem_singleton_self _
  exact ⟨hm, (search_terminates .tied hm (.ofWire (.bit "\\rstz"))).2.1.2⟩

end SearchSetting

end NearestMux
