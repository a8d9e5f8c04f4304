import NearestMux.Proofs.Search.Termination

/-!
# Distance — the nearest multiplexer is met first

A search keeps no distances. It keeps the order of its queue, and that is enough: at every head of
the loop the queue is a row of near items, all at one cost from the start, with a row of far items
behind it, all at that cost and one more (`Wave`). A costless hop adds to the near items and any
other hop to the far ones. When the near items are used up the far ones are near, at the next cost.

`Wave.Sound` says what the rows promise. Its heart is `closed`: an item that was looked at keeps
nothing back, whatever way to it is taken. So a way from the start ends at an item that was looked
at, or it costs no less than what is next in the queue (`Wave.Sound.visited_or_le`). Rows are
compared by key, as the search compares items, so a copy of an item counts as the item.

* `search_nearest`: an answer tells of a hit, and nothing that ends a search is nearer.
* `search_complete`: without an answer there was nothing to be found.
-/

namespace NearestMux

namespace SearchSetting

variable {s : SearchSetting} {start i j item : Item} {hop : Hop} {k : Nat}
  {st st' : SearchState} {rest : List Item}

/-! ## Waves -/

/-- A queue, parted where the cost of the way to its items goes up. -/
structure Wave where
  /-- The cost of the way to the near items. -/
  cost : Nat
  /-- The items at that cost. -/
  near : List Item
  /-- The items at that cost and one more. -/
  far : List Item
  /-- The items looked at before. -/
  visited : List Item

namespace Wave

/-- The frontier that is parted. -/
def frontier (w : Wave) : Frontier := ⟨w.near ++ w.far, w.visited⟩

/-- The wave of a search that has not begun. -/
def initial (item : Item) : Wave := ⟨0, [item], [], []⟩

/-- The wave behind an item that is passed by. -/
def passBy (w : Wave) (rest : List Item) : Wave := { w with near := rest }

/-- The wave behind a near item that is expanded. -/
def advance (w : Wave) (s : SearchSetting) (item : Item) (rest : List Item) : Wave where
  cost := w.cost
  near := (((s.entered item).filter fun p => p.1.isDirect).map Prod.snd).reverse ++ rest
  far := w.far ++ ((s.entered item).filter fun p => !p.1.isDirect).map Prod.snd
  visited := item :: w.visited

/-- The wave whose near items are used up, one cost further. -/
def onward (w : Wave) : Wave := ⟨w.cost + 1, w.far, [], w.visited⟩

/-- An item is taken care of at a cost: it was looked at, or it waits in a row of no more cost. -/
def Covers (w : Wave) (k : Nat) (i : Item) : Prop :=
  i.key ∈ w.visited.map Item.key ∨ w.cost ≤ k ∧ i.key ∈ w.near.map Item.key ∨
    w.cost + 1 ≤ k ∧ i.key ∈ w.far.map Item.key

/-- What the rows of a wave promise about the ways from the start. -/
structure Sound (s : SearchSetting) (start : Item) (w : Wave) : Prop where
  /-- A near item is at the cost of the wave. -/
  near : ∀ i ∈ w.near, s.Path start w.cost i
  /-- A far item is at the next cost. -/
  far : ∀ i ∈ w.far, s.Path start (w.cost + 1) i
  /-- The start is taken care of. -/
  begun : w.Covers 0 start
  /-- So is whatever an item that was looked at leads to. -/
  closed : ∀ {k i hop j}, s.Path start k i → i.key ∈ w.visited.map Item.key → s.Leads i hop j →
    w.Covers (k + hop.cost) j
  /-- The search went on at every item that was looked at. -/
  goes : ∀ i ∈ w.visited, (s.expand i).verdict = none

/-! ## What a wave covers -/

/-- What is taken care of was looked at, or else the queue goes on at no more than its cost. -/
theorem Covers.visited_or_le {w : Wave} (covers : w.Covers k i) :
    i.key ∈ w.visited.map Item.key ∨ w.frontier.queue ≠ [] ∧ w.cost ≤ k := by
  rcases covers with visited | ⟨le, near⟩ | ⟨le, far⟩
  · exact Or.inl visited
  · obtain ⟨j, hj, -⟩ := List.mem_map.mp near
    exact Or.inr ⟨List.ne_nil_of_mem (List.mem_append_left _ hj), le⟩
  · obtain ⟨j, hj, -⟩ := List.mem_map.mp far
    exact Or.inr ⟨List.ne_nil_of_mem (List.mem_append_right _ hj), by omega⟩

theorem Covers.passBy {w : Wave} (near : w.near = item :: rest)
    (old : item.key ∈ w.visited.map Item.key) (covers : w.Covers k i) :
    (w.passBy rest).Covers k i := by
  rcases covers with visited | ⟨le, isNear⟩ | ⟨le, isFar⟩
  · exact Or.inl visited
  · rw [near, List.map_cons, List.mem_cons] at isNear
    rcases isNear with same | isNear
    · exact Or.inl (same ▸ old)
    · exact Or.inr (Or.inl ⟨le, isNear⟩)
  · exact Or.inr (Or.inr ⟨le, isFar⟩)

theorem Covers.advance {w : Wave} (s : SearchSetting) (near : w.near = item :: rest)
    (covers : w.Covers k i) : (w.advance s item rest).Covers k i := by
  rcases covers with visited | ⟨le, isNear⟩ | ⟨le, isFar⟩
  · exact Or.inl (List.mem_cons_of_mem _ visited)
  · rw [near, List.map_cons, List.mem_cons] at isNear
    rcases isNear with same | isNear
    · exact Or.inl (same ▸ List.mem_cons_self)
    · refine Or.inr (Or.inl ⟨le, ?_⟩)
      rw [Wave.advance, List.map_append]
      exact List.mem_append_right _ isNear
  · refine Or.inr (Or.inr ⟨le, ?_⟩)
    rw [Wave.advance, List.map_append]
    exact List.mem_append_left _ isFar

theorem Covers.onward {w : Wave} (none : w.near = []) (covers : w.Covers k i) :
    w.onward.Covers k i := by
  rcases covers with visited | ⟨-, isNear⟩ | ⟨le, isFar⟩
  · exact Or.inl visited
  · rw [none] at isNear
    cases isNear
  · exact Or.inr (Or.inl ⟨le, isFar⟩)

/-- What the expansion of an item enters is taken care of behind it. -/
theorem covers_entered (w : Wave) (le : w.cost ≤ k) (entered : (hop, j) ∈ s.entered item) :
    (w.advance s item rest).Covers (k + hop.cost) j := by
  cases direct : hop.isDirect with
  | true =>
    refine Or.inr (Or.inl ⟨Nat.le_add_right_of_le le, List.mem_map_of_mem ?_⟩)
    refine List.mem_append_left _ (List.mem_reverse.mpr ?_)
    exact List.mem_map.mpr ⟨(hop, j), List.mem_filter.mpr ⟨entered, direct⟩, rfl⟩
  | false =>
    have further : w.cost + 1 ≤ k + hop.cost := by
      simp only [Hop.cost, direct, Bool.false_eq_true, ↓reduceIte]
      omega
    refine Or.inr (Or.inr ⟨further, List.mem_map_of_mem (List.mem_append_right _ ?_)⟩)
    exact List.mem_map.mpr ⟨(hop, j), List.mem_filter.mpr ⟨entered, by simp [direct]⟩, rfl⟩

/-! ## What a turn preserves -/

/-- **A way from the start ends at an item that was looked at, or it costs no less than what is next
in the queue.** -/
theorem Sound.visited_or_le {w : Wave} (sound : w.Sound s start) (way : s.Path start k i) :
    i.key ∈ w.visited.map Item.key ∨ w.frontier.queue ≠ [] ∧ w.cost ≤ k := by
  induction way with
  | nil => exact sound.begun.visited_or_le
  | snoc way leads ih =>
    rcases ih with visited | ⟨queue, le⟩
    · exact (sound.closed way visited leads).visited_or_le
    · exact Or.inr ⟨queue, Nat.le_add_right_of_le le⟩

theorem initial_sound (s : SearchSetting) (start : Item) : (initial start).Sound s start where
  near _ hi := List.mem_singleton.mp hi ▸ .nil
  far _ hi := nomatch hi
  begun := Or.inr (Or.inl ⟨Nat.le_refl 0, List.mem_cons_self⟩)
  closed _ visited _ := nomatch visited
  goes _ hi := nomatch hi

theorem Sound.passBy {w : Wave} (sound : w.Sound s start) (near : w.near = item :: rest)
    (old : item.key ∈ w.visited.map Item.key) : (w.passBy rest).Sound s start where
  near i hi := sound.near i (near ▸ List.mem_cons_of_mem _ hi)
  far := sound.far
  begun := sound.begun.passBy near old
  closed way visited leads := (sound.closed way visited leads).passBy near old
  goes := sound.goes

theorem Sound.onward {w : Wave} (sound : w.Sound s start) (none : w.near = []) :
    w.onward.Sound s start where
  near := sound.far
  far _ hi := nomatch hi
  begun := sound.begun.onward none
  closed way visited leads := (sound.closed way visited leads).onward none
  goes := sound.goes

/-- What the expansion of a near item enters is at the cost of the wave and of the hop. -/
theorem Sound.path_entered {w : Wave} (sound : w.Sound s start) (near : w.near = item :: rest)
    (entered : (hop, j) ∈ s.entered item) : s.Path start (w.cost + hop.cost) j :=
  .snoc (sound.near item (near ▸ List.mem_cons_self)) (leads_of_mem_pushes entered)

/-- An expansion keeps the promises of a wave. Items of the key of the one that is expanded are at
no less than the cost of the wave, since none of them was looked at before. -/
theorem Sound.advance {w : Wave} (sound : w.Sound s start) (near : w.near = item :: rest)
    (new : item.key ∉ w.visited.map Item.key) (goes : (s.expand item).verdict = none) :
    (w.advance s item rest).Sound s start where
  near i hi := by
    rcases List.mem_append.mp hi with hi | hi
    · obtain ⟨⟨hop, j⟩, hp, rfl⟩ := List.mem_map.mp (List.mem_reverse.mp hi)
      obtain ⟨entered, direct⟩ := List.mem_filter.mp hp
      have way := sound.path_entered near entered
      rwa [Hop.cost, if_pos direct] at way
    · exact sound.near i (near ▸ List.mem_cons_of_mem _ hi)
  far i hi := by
    rcases List.mem_append.mp hi with hi | hi
    · exact sound.far i hi
    · obtain ⟨⟨hop, j⟩, hp, rfl⟩ := List.mem_map.mp hi
      obtain ⟨entered, costly⟩ := List.mem_filter.mp hp
      have way := sound.path_entered near entered
      rwa [Hop.cost, if_neg (by simpa using costly)] at way
  begun := sound.begun.advance s near
  closed {k i hop j} way visited leads := by
    rcases List.mem_cons.mp visited with same | visited
    · -- a cheaper way to the item would have met it, or something in front of it, before
      have le : w.cost ≤ k := by
        rcases sound.visited_or_le way with old | ⟨-, le⟩
        · exact absurd (same ▸ old) new
        · exact le
      have alike := expand_eq_of_key_eq (s := s) same
      have entered : (hop, j) ∈ s.entered item := by
        rw [entered, ← alike]
        exact (mem_pushes_expand_iff (alike ▸ goes)).mpr leads
      exact covers_entered w le entered
    · exact (sound.closed way visited leads).advance s near
  goes i hi := by
    rcases List.mem_cons.mp hi with rfl | hi
    · exact goes
    · exact sound.goes i hi

end Wave

/-- A state of a search is swept when its queue can be parted into the rows of a wave that keeps its
promises. -/
def Swept (s : SearchSetting) (start : Item) (st : SearchState) : Prop :=
  ∃ w : Wave, w.Sound s start ∧ w.frontier = st.frontier

/-- The next item is a near one: when there is none, the far ones have become near. -/
theorem Swept.exists_near (swept : s.Swept start st) (queue : st.frontier.queue = item :: rest) :
    ∃ (w : Wave) (near : List Item), w.Sound s start ∧ w.frontier = st.frontier ∧
      w.near = item :: near ∧ near ++ w.far = rest := by
  obtain ⟨w, sound, parted⟩ := swept
  rw [← parted] at queue
  change w.near ++ w.far = item :: rest at queue
  cases isNear : w.near with
  | nil =>
    rw [isNear, List.nil_append] at queue
    refine ⟨w.onward, rest, sound.onward isNear, ?_, queue, List.append_nil rest⟩
    rw [← parted, Wave.frontier, Wave.frontier, isNear]
    exact congrArg (Frontier.mk · w.visited) (List.append_nil w.far)
  | cons first near =>
    rw [isNear, List.cons_append] at queue
    obtain ⟨rfl, tails⟩ := List.cons.inj queue
    exact ⟨w, near, sound, parted, isNear, tails⟩

theorem swept_start (s : SearchSetting) (start : Item) : s.Swept start (.start start) :=
  ⟨.initial start, Wave.initial_sound s start, rfl⟩

theorem Swept.turn (swept : s.Swept start st) (turn : s.GoesOn st st') : s.Swept start st' := by
  obtain ⟨item, rest, queue, step⟩ := turn.cases
  obtain ⟨w, near, sound, parted, isNear, rfl⟩ := swept.exists_near queue
  have visited : w.visited = st.frontier.visited := congrArg Frontier.visited parted
  have known : item.key ∈ w.visited.map Item.key ↔ st.frontier.hasVisited item = true := by
    rw [st.frontier.hasVisited_iff, visited]
  rcases step with ⟨old, rfl⟩ | ⟨new, goes, rfl⟩
  · refine ⟨w.passBy near, sound.passBy isNear (known.mpr old), ?_⟩
    rw [SearchState.passBy, ← visited]
    rfl
  · have notOld : item.key ∉ w.visited.map Item.key := by
      rw [known, new]
      exact Bool.false_ne_true
    refine ⟨w.advance s item near, sound.advance isNear notOld goes, ?_⟩
    rw [SearchSetting.advance, Frontier.foldl_enter, ← visited]
    simp only [Wave.frontier, Wave.advance, List.append_assoc]

theorem Runs.swept (run : s.Runs (.start start) st) : s.Swept start st :=
  run.invariant (swept_start s start) fun turn swept => swept.turn turn

/-! ## How a search ends -/

/-- With an empty queue every way ends at an item that was looked at. -/
theorem Swept.visited_of_reachable (swept : s.Swept start st) (empty : st.frontier.queue = [])
    (reachable : s.Reachable start i) : i.key ∈ st.frontier.visited.map Item.key := by
  obtain ⟨k, way⟩ := reachable
  obtain ⟨w, sound, parted⟩ := swept
  rw [← parted] at empty ⊢
  exact (sound.visited_or_le way).resolve_right fun ⟨goesOn, _⟩ => goesOn empty

/-- A search does not stop at an item that was looked at. -/
theorem Wave.Sound.not_stops {w : Wave} (sound : w.Sound s start)
    (visited : i.key ∈ w.visited.map Item.key) : ¬ s.Stops i := by
  obtain ⟨v, hv, same⟩ := List.mem_map.mp visited
  have goes := sound.goes v hv
  rw [expand_eq_of_key_eq same] at goes
  exact not_stops_of_expand_verdict goes

/-- The item at which a search ends: it is taken out of the queue, it is new, and its expansion ends
the search. -/
def StopsAt (s : SearchSetting) (start item : Item) : Prop :=
  ∃ last rest, s.Runs (.start start) last ∧ last.frontier.queue = item :: rest ∧
    last.frontier.hasVisited item = false ∧ (s.expand item).verdict ≠ none

/-- A search ends with an empty queue, and then it stops at no item that it can reach. Or it ends at
an item, and then what it comes to is what the expansion of the item comes to. -/
theorem search_ends (s : SearchSetting) (start : Item) :
    (s.search start).outcome = .ok .notFound ∧ (∀ i, s.Reachable start i → ¬ s.Stops i) ∨
      ∃ i, s.StopsAt start i ∧ (s.expand i).verdict = some (s.search start).outcome := by
  obtain ⟨last, run, ends⟩ := s.search_runs start
  rcases ends_cases ends with ⟨queue, -, none⟩ | ⟨item, rest, queue, new, verdict, -⟩
  · refine Or.inl ⟨none, fun i reachable => ?_⟩
    have visited := run.swept.visited_of_reachable queue reachable
    obtain ⟨w, sound, parted⟩ := run.swept
    rw [← parted] at visited
    exact sound.not_stops visited
  · refine Or.inr ⟨item, ⟨last, rest, run, queue, new, ?_⟩, verdict⟩
    rw [verdict]
    exact Option.some_ne_none _

/-- Nothing at which a search stops is nearer than the item at which it ends. -/
theorem StopsAt.nearest (stopsAt : s.StopsAt start i) :
    ∃ n, s.Path start n i ∧ ∀ k j, s.Path start k j → s.Stops j → n ≤ k := by
  obtain ⟨last, rest, run, queue, -, -⟩ := stopsAt
  obtain ⟨w, near, sound, -, isNear, -⟩ := run.swept.exists_near queue
  refine ⟨w.cost, sound.near i (isNear ▸ List.mem_cons_self), fun k j way stops => ?_⟩
  rcases sound.visited_or_le way with visited | ⟨-, le⟩
  · exact absurd stops (sound.not_stops visited)
  · exact le

/-- A search ends with an empty queue, and then it stops at no item that it can reach. Or it ends at
an item whose expansion ends it, and then it stops nowhere nearer. -/
theorem search_cases (s : SearchSetting) (start : Item) :
    (s.search start).outcome = .ok .notFound ∧ (∀ i, s.Reachable start i → ¬ s.Stops i) ∨
      ∃ n i, s.Path start n i ∧ (s.expand i).verdict = some (s.search start).outcome ∧
        ∀ k j, s.Path start k j → s.Stops j → n ≤ k := by
  rcases s.search_ends start with none | ⟨i, stopsAt, verdict⟩
  · exact Or.inl none
  · obtain ⟨n, way, nearest⟩ := stopsAt.nearest
    exact Or.inr ⟨n, i, way, verdict, nearest⟩

/-- **The nearest multiplexer.** An answer other than that there is none tells of a hit that a way
from the start leads to, and no way of smaller cost leads to an item at which a search stops. -/
theorem search_nearest (s : SearchSetting) (start : Item) {a : SearchAnswer}
    (answered : (s.search start).outcome = .ok a) (found : a ≠ .notFound) :
    ∃ n i m select, s.Path start n i ∧ s.Hit i m select ∧
      a = ⟨m.shownName select.name, m.name⟩ ∧
      ∀ k j, s.Path start k j → s.Stops j → n ≤ k := by
  rcases s.search_cases start with ⟨none, -⟩ | ⟨n, i, way, verdict, nearest⟩
  · rw [answered] at none
    exact absurd (Except.ok.inj none) found
  · rw [answered] at verdict
    obtain ⟨m, select, hit, -, tells⟩ := hit_of_expand_verdict verdict
    exact ⟨n, i, m, select, way, hit, tells, nearest⟩

theorem search_nearest_tied :
    (SearchSetting.tied.search ⟨"\\top", .ofWire (.bit "\\rstz")⟩).outcome =
        .ok ⟨"\\rstz", "\\top"⟩ ∧
      (⟨"\\rstz", "\\top"⟩ : SearchAnswer) ≠ .notFound ∧
      ∃ n i m select, SearchSetting.tied.Path ⟨"\\top", .ofWire (.bit "\\rstz")⟩ n i ∧
        SearchSetting.tied.Hit i m select ∧
        (⟨"\\rstz", "\\top"⟩ : SearchAnswer) = ⟨m.shownName select.name, m.name⟩ ∧
        ∀ k j, SearchSetting.tied.Path ⟨"\\top", .ofWire (.bit "\\rstz")⟩ k j →
          SearchSetting.tied.Stops j → n ≤ k :=
  ⟨rfl, by decide, search_nearest .tied ⟨"\\top", .ofWire (.bit "\\rstz")⟩ rfl (by decide)⟩

theorem Path.exists_module (way : s.Path start k i)
    (inDesign : ∃ m, s.design.module? start.module = some m) :
    ∃ m, s.design.module? i.module = some m := by
  cases way with
  | nil => exact inDesign
  | snoc _ leads => exact Design.exists_module_of_mem_places leads.mem_places

/-- An answer in a filed module is never the one that says that there is no multiplexer. -/
theorem isFound_of_filed {a : SearchAnswer} {name : String}
    (h : a.module = Identifier.escape name) : a.isFound = true := by
  apply SearchAnswer.isFound_of_ne
  rintro rfl
  have marked := Identifier.isMarked_escape name
  rw [← h] at marked
  rcases marked with backslash | dollar
  · exact absurd backslash (by decide)
  · exact absurd dollar (by decide)

/-- **Nothing is missed.** In a design whose modules were filed, a search from a module of the
design says that there is no multiplexer just when it stops at no item that it can reach. Otherwise
its answer names something, or its fault names a module with processes in which it can reach an
item. -/
theorem search_complete (s : SearchSetting)
    (filed : ∀ m ∈ s.design.modules.toList, ∃ name, m.name = Identifier.escape name)
    {m : Module} (hm : m ∈ s.design.modules.toList) (g : Signal) :
    ((s.search ⟨m.name, g⟩).outcome = .ok .notFound ↔
      ∀ i, s.Reachable ⟨m.name, g⟩ i → ¬ s.Stops i) ∧
    ((s.search ⟨m.name, g⟩).outcome ≠ .ok .notFound →
      (∃ a, (s.search ⟨m.name, g⟩).outcome = .ok a ∧ a.isFound = true) ∨
        ∃ inner i, (s.search ⟨m.name, g⟩).outcome = .error (.unresolvedProcess inner.name) ∧
          s.Reachable ⟨m.name, g⟩ i ∧ s.Unresolved i inner) := by
  have inDesign : ∃ inner, s.design.module? m.name = some inner :=
    ⟨m, s.design.module?_eq_some_iff.mpr ⟨hm, rfl⟩⟩
  rcases s.search_cases ⟨m.name, g⟩ with ⟨none, nowhere⟩ | ⟨n, i, way, verdict, -⟩
  · exact ⟨⟨fun _ => nowhere, fun _ => none⟩, fun other => absurd none other⟩
  · cases result : (s.search ⟨m.name, g⟩).outcome with
    | ok a =>
      rw [result] at verdict
      obtain ⟨inner, select, hit, -, rfl⟩ := hit_of_expand_verdict verdict
      obtain ⟨name, isFiled⟩ := filed inner (s.design.module?_eq_some_iff.mp hit.1).1
      have found : SearchAnswer.isFound ⟨inner.shownName select.name, inner.name⟩ = true :=
        isFound_of_filed isFiled
      refine ⟨⟨fun none => ?_, fun nowhere => ?_⟩, fun _ => Or.inl ⟨_, rfl, found⟩⟩
      · rw [Except.ok.inj none] at found
        cases found
      · exact absurd (Or.inl ⟨inner, select, hit⟩) (nowhere i ⟨n, way⟩)
    | error fault =>
      rw [result] at verdict
      rcases fault_of_expand_verdict verdict with missing | ⟨inner, unresolved, rfl⟩
      · obtain ⟨inner, there⟩ := way.exists_module inDesign
        rw [missing] at there
        cases there
      · refine ⟨⟨(nomatch ·), fun nowhere => ?_⟩,
          fun _ => Or.inr ⟨inner, i, rfl, ⟨n, way⟩, unresolved⟩⟩
        exact absurd (Or.inr ⟨inner, unresolved⟩) (nowhere i ⟨n, way⟩)

theorem search_complete_tied :
    (∀ m ∈ SearchSetting.tied.design.modules.toList, ∃ name, m.name = Identifier.escape name) ∧
      Module.tied ∈ SearchSetting.tied.design.modules.toList ∧
      (SearchSetting.tied.search ⟨Module.tied.name, .ofWire (.bit "\\y")⟩).outcome =
        .ok .notFound ∧
      ∀ i, SearchSetting.tied.Reachable ⟨Module.tied.name, .ofWire (.bit "\\y")⟩ i →
        ¬ SearchSetting.tied.Stops i := by
  have filed : ∀ m ∈ SearchSetting.tied.design.modules.toList,
      ∃ name, m.name = Identifier.escape name :=
    fun m hm => ⟨"top", List.mem_singleton.mp hm ▸ rfl⟩
  have hm : Module.tied ∈ SearchSetting.tied.design.modules.toList := List.mem_singleton_self _
  exact ⟨filed, hm, rfl, (search_complete .tied filed hm (.ofWire (.bit "\\y"))).1.mp rfl⟩

end SearchSetting

end NearestMux
